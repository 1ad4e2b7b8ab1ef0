import SymbolGraph.Toml.Basic

/-!
# Tables under construction

A table is made by a header, by a header of a table inside it, or by dotted keys, and each way allows
other additions later. A value that is written out is closed.
-/
namespace SymbolGraph.Toml

/-- How a table came to be. -/
inductive TableOrigin
  /-- It has a header of its own. -/
  | header
  /-- It is named on the way to a table with a header. -/
  | implied
  /-- It is named by a dotted key. -/
  | dotted
  deriving DecidableEq, Repr

inductive Draft
  | closed (value : Toml)
  | table (origin : TableOrigin) (entries : List (String × Draft))
  /-- The tables of a list, each with a header, the last one first. -/
  | tables (last : List (String × Draft)) (others : List (List (String × Draft)))

namespace Draft

abbrev Entries := List (String × Draft)

def set (entries : Entries) (key : String) (d : Draft) : Entries :=
  match entries with
  | [] => [(key, d)]
  | (k, old) :: rest => if k = key then (key, d) :: rest else (k, old) :: set rest key d

/-- Adds a value under a dotted key. Tables with a header are not extended in this way, nor is a key
given twice. -/
def addValue (value : Toml) : String → List String → Entries → Option Entries
  | key, [], entries => if (entries.lookup key).isSome then none else some (entries ++ [(key, .closed value)])
  | key, next :: rest, entries =>
    match entries.lookup key with
    | none => (addValue value next rest []).map fun inner => entries ++ [(key, .table .dotted inner)]
    | some (.table .dotted inner) =>
      (addValue value next rest inner).map fun inner => set entries key (.table .dotted inner)
    | some (.table .implied inner) =>
      if rest.isEmpty then none
      else (addValue value next rest inner).map fun inner => set entries key (.table .implied inner)
    | some (.tables last others) =>
      if rest.isEmpty then none
      else (addValue value next rest last).map fun last => set entries key (.tables last others)
    | some _ => none

/-- Changes the entries of the table at a path, which is made if need be. In a list of tables the last
one is meant. -/
def within (change : Entries → Option Entries) : List String → Entries → Option Entries
  | [], entries => change entries
  | key :: rest, entries =>
    match entries.lookup key with
    | none => (within change rest []).map fun inner => entries ++ [(key, .table .implied inner)]
    | some (.table origin inner) =>
      (within change rest inner).map fun inner => set entries key (.table origin inner)
    | some (.tables last others) =>
      (within change rest last).map fun last => set entries key (.tables last others)
    | some (.closed _) => none

/-- Opens the table of a header: a new one, or one that is only implied so far. -/
def openTable (key : String) (entries : Entries) : Option Entries :=
  match entries.lookup key with
  | none => some (entries ++ [(key, .table .header [])])
  | some (.table .implied inner) => some (set entries key (.table .header inner))
  | some _ => none

/-- Opens a further table of a list of tables. -/
def openListed (key : String) (entries : Entries) : Option Entries :=
  match entries.lookup key with
  | none => some (entries ++ [(key, .tables [] [])])
  | some (.tables last others) => some (set entries key (.tables [] (last :: others)))
  | some _ => none

mutual

def toToml : Draft → Toml
  | .closed value => value
  | .table _ entries => .table (entriesToToml entries)
  | .tables last others => .list (othersToToml others [.table (entriesToToml last)])

def entriesToToml : List (String × Draft) → List (String × Toml)
  | [] => []
  | (key, d) :: rest => (key, d.toToml) :: entriesToToml rest

/-- The tables of a list in their order; `behind` holds the later ones. -/
def othersToToml : List (List (String × Draft)) → List Toml → List Toml
  | [], behind => behind
  | entries :: rest, behind => othersToToml rest (.table (entriesToToml entries) :: behind)

end

end Draft
end SymbolGraph.Toml
