/-!
# Finite maps with text keys

A `KeyMap α` is a finite map from strings to `α` whose entries are kept in strictly ascending order
of their keys, the order in which every report lists them. Two maps with the same entries are equal.
-/
namespace SymbolGraph

/-- Keys in strictly ascending order, hence without repetition. -/
def Ascending {α : Type u} (entries : List (String × α)) : Prop :=
  entries.Pairwise fun a b => a.1 < b.1

structure KeyMap (α : Type u) where
  entries : List (String × α)
  ascending : Ascending entries

namespace KeyMap

variable {α : Type u} {β : Type v}

theorem ext_entries {m n : KeyMap α} (h : m.entries = n.entries) : m = n := by
  cases m; cases n; simp_all

instance [DecidableEq α] : DecidableEq (KeyMap α) := fun m n =>
  if h : m.entries = n.entries then isTrue (ext_entries h) else isFalse (fun e => h (by rw [e]))

instance [Repr α] : Repr (KeyMap α) := ⟨fun m n => reprPrec m.entries n⟩

def empty : KeyMap α := ⟨[], List.Pairwise.nil⟩

instance : Inhabited (KeyMap α) := ⟨empty⟩
instance : EmptyCollection (KeyMap α) := ⟨empty⟩

/-- Changes the entry of `k` by `f`, which sees the present value and gives the new one. -/
def alterEntries (k : String) (f : Option α → Option α) : List (String × α) → List (String × α)
  | [] => match f none with
    | some v => [(k, v)]
    | none => []
  | (k', v') :: rest =>
    if k < k' then
      match f none with
      | some v => (k, v) :: (k', v') :: rest
      | none => (k', v') :: rest
    else if k = k' then
      match f (some v') with
      | some v => (k, v) :: rest
      | none => rest
    else (k', v') :: alterEntries k f rest

theorem mem_alterEntries {k : String} {f : Option α → Option α} {l : List (String × α)}
    {p : String × α} (h : p ∈ alterEntries k f l) : p.1 = k ∨ p ∈ l := by
  induction l with
  | nil => cases hf : f none <;> simp_all [alterEntries]
  | cons e rest ih => grind [alterEntries]

theorem ascending_alterEntries (k : String) (f : Option α → Option α) {l : List (String × α)}
    (h : Ascending l) : Ascending (alterEntries k f l) := by
  induction l with
  | nil => simp only [alterEntries]; split <;> simp [Ascending]
  | cons e rest ih =>
    obtain ⟨k', v'⟩ := e
    have hr : Ascending rest := (List.pairwise_cons.1 h).2
    have hb := (List.pairwise_cons.1 h).1
    simp only [alterEntries]
    split
    · rename_i hlt
      split
      · refine List.pairwise_cons.2 ⟨fun p hp => ?_, h⟩
        rcases List.mem_cons.1 hp with rfl | hp
        · exact hlt
        · exact String.lt_trans hlt (hb p hp)
      · exact h
    · rename_i hnlt
      split
      · rename_i heq
        subst heq
        split
        · exact List.pairwise_cons.2 ⟨hb, hr⟩
        · exact hr
      · rename_i hne
        refine List.pairwise_cons.2 ⟨fun p hp => ?_, ih hr⟩
        rcases mem_alterEntries hp with hk | hp
        · have hle : k' ≤ k := String.not_lt.1 hnlt
          have : k' < k := by
            by_cases hlt : k' < k
            · exact hlt
            · exact absurd (String.le_antisymm (String.not_lt.1 hlt) hle) hne
          simpa [hk] using this
        · exact hb p hp

def alter (m : KeyMap α) (k : String) (f : Option α → Option α) : KeyMap α :=
  ⟨alterEntries k f m.entries, ascending_alterEntries k f m.ascending⟩

def get? (m : KeyMap α) (k : String) : Option α :=
  (m.entries.find? fun p => p.1 == k).map (·.2)

def contains (m : KeyMap α) (k : String) : Bool :=
  (m.get? k).isSome

/-- Sets the value of `k`, replacing any present one. -/
def insert (m : KeyMap α) (k : String) (v : α) : KeyMap α :=
  m.alter k fun _ => some v

/-- Sets the value of `k` only where the key is new. -/
def insertNew (m : KeyMap α) (k : String) (v : α) : KeyMap α :=
  m.alter k fun old => some (old.getD v)

def modify (m : KeyMap α) (k : String) (f : α → α) : KeyMap α :=
  m.alter k (·.map f)

/-- Changes the value of `k`, starting from `start` where the key is new. -/
def upsert (m : KeyMap α) (k : String) (start : α) (f : α → α) : KeyMap α :=
  m.alter k fun old => some (f (old.getD start))

def erase (m : KeyMap α) (k : String) : KeyMap α :=
  m.alter k fun _ => none

def toList (m : KeyMap α) : List (String × α) := m.entries
def keys (m : KeyMap α) : List String := m.entries.map (·.1)
def values (m : KeyMap α) : List α := m.entries.map (·.2)
def size (m : KeyMap α) : Nat := m.entries.length
def isEmpty (m : KeyMap α) : Bool := m.entries.isEmpty

/-- The map of the pairs of `l`; of several pairs with one key the last decides. -/
def ofList (l : List (String × α)) : KeyMap α :=
  l.foldl (fun m p => m.insert p.1 p.2) empty

/-- The map of the pairs of `l`; of several pairs with one key the first decides. -/
def ofListFirst (l : List (String × α)) : KeyMap α :=
  l.foldl (fun m p => m.insertNew p.1 p.2) empty

theorem ascending_map {l : List (String × α)} (f : String × α → β) (h : Ascending l) :
    Ascending (l.map fun p => (p.1, f p)) :=
  List.pairwise_map.2 h

/-- Applies `f` to every key and value; the keys stay. -/
def map (m : KeyMap α) (f : String → α → β) : KeyMap β :=
  ⟨m.entries.map fun p => (p.1, f p.1 p.2), ascending_map (fun p => f p.1 p.2) m.ascending⟩

def filter (m : KeyMap α) (keep : String → α → Bool) : KeyMap α :=
  ⟨m.entries.filter fun p => keep p.1 p.2, List.Pairwise.filter _ m.ascending⟩

end KeyMap
end SymbolGraph
