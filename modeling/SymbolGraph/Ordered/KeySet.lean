/-!
# Finite sets of texts

A `KeySet` is a finite set of strings kept as a strictly ascending list. Two sets with the same
members are equal.
-/
namespace SymbolGraph

structure KeySet where
  toList : List String
  ascending : toList.Pairwise (· < ·)

namespace KeySet

theorem ext_toList {s t : KeySet} (h : s.toList = t.toList) : s = t := by
  cases s; cases t; simp_all

instance : DecidableEq KeySet := fun s t =>
  if h : s.toList = t.toList then isTrue (ext_toList h) else isFalse (fun e => h (by rw [e]))

instance : Repr KeySet := ⟨fun s n => reprPrec s.toList n⟩

def empty : KeySet := ⟨[], List.Pairwise.nil⟩

instance : Inhabited KeySet := ⟨empty⟩
instance : EmptyCollection KeySet := ⟨empty⟩

def insertText (a : String) : List String → List String
  | [] => [a]
  | b :: rest => if a < b then a :: b :: rest else if a = b then b :: rest else b :: insertText a rest

theorem mem_insertText {a b : String} {l : List String} : b ∈ insertText a l ↔ b = a ∨ b ∈ l := by
  induction l with
  | nil => simp [insertText]
  | cons c rest ih => grind [insertText]

theorem ascending_insertText (a : String) {l : List String} (h : l.Pairwise (· < ·)) :
    (insertText a l).Pairwise (· < ·) := by
  induction l with
  | nil => simp [insertText]
  | cons b rest ih =>
    have hr := (List.pairwise_cons.1 h).2
    have hb := (List.pairwise_cons.1 h).1
    simp only [insertText]
    split
    · rename_i hlt
      refine List.pairwise_cons.2 ⟨fun c hc => ?_, h⟩
      rcases List.mem_cons.1 hc with rfl | hc
      · exact hlt
      · exact String.lt_trans hlt (hb c hc)
    · rename_i hnlt
      split
      · exact h
      · rename_i hne
        refine List.pairwise_cons.2 ⟨fun c hc => ?_, ih hr⟩
        rcases mem_insertText.1 hc with rfl | hc
        · have hle := String.not_lt.1 hnlt
          by_cases hlt : b < c
          · exact hlt
          · exact absurd (String.le_antisymm (String.not_lt.1 hlt) hle) hne
        · exact hb c hc

def insert (s : KeySet) (a : String) : KeySet :=
  ⟨insertText a s.toList, ascending_insertText a s.ascending⟩

def contains (s : KeySet) (a : String) : Bool := s.toList.contains a

instance : Membership String KeySet := ⟨fun s a => a ∈ s.toList⟩

instance (a : String) (s : KeySet) : Decidable (a ∈ s) :=
  inferInstanceAs (Decidable (a ∈ s.toList))

def size (s : KeySet) : Nat := s.toList.length
def isEmpty (s : KeySet) : Bool := s.toList.isEmpty

def insertAll (s : KeySet) (l : List String) : KeySet := l.foldl insert s
def ofList (l : List String) : KeySet := empty.insertAll l
def union (s t : KeySet) : KeySet := s.insertAll t.toList

def filter (s : KeySet) (keep : String → Bool) : KeySet :=
  ⟨s.toList.filter keep, List.Pairwise.filter _ s.ascending⟩

@[simp] theorem mem_insert {s : KeySet} {a b : String} : b ∈ s.insert a ↔ b = a ∨ b ∈ s :=
  mem_insertText

theorem mem_insertAll {s : KeySet} {l : List String} {b : String} :
    b ∈ s.insertAll l ↔ b ∈ s ∨ b ∈ l := by
  induction l generalizing s with
  | nil => simp [insertAll]
  | cons a rest ih =>
    have : s.insertAll (a :: rest) = (s.insert a).insertAll rest := rfl
    rw [this, ih, mem_insert, List.mem_cons]
    grind

@[simp] theorem mem_ofList {l : List String} {b : String} : b ∈ ofList l ↔ b ∈ l := by
  rw [ofList, mem_insertAll]
  constructor
  · rintro (h | h)
    · exact absurd h (List.not_mem_nil)
    · exact h
  · exact .inr

end KeySet
end SymbolGraph
