/-!
# Source texts

A source text is read by character offset. Line numbers count from one and a line ends at a line
feed.
-/
namespace SymbolGraph

structure Source where
  chars : Array Char
  /-- The line of every offset, the end of the text included. -/
  lines : Array Nat
  deriving Inhabited

namespace Source

/-- The line numbers of the offsets of `cs`, starting on line `line`. -/
def lineNumbers (acc : Array Nat) (line : Nat) : List Char → Array Nat
  | [] => acc.push line
  | c :: cs => lineNumbers (acc.push line) (if c = '\n' then line + 1 else line) cs

def ofString (s : String) : Source :=
  ⟨s.toList.toArray, lineNumbers #[] 1 s.toList⟩

def size (src : Source) : Nat := src.chars.size
def get? (src : Source) (i : Nat) : Option Char := src.chars[i]?
def lineAt (src : Source) (i : Nat) : Nat := src.lines.getD i 1

/-- The text from offset `start` up to offset `stop`. -/
def slice (src : Source) (start stop : Nat) : String :=
  String.ofList (src.chars.extract start stop).toList

/-- Whether the characters of `word` stand at offset `i`. -/
def standsAt (src : Source) (i : Nat) : List Char → Bool
  | [] => true
  | c :: cs => src.chars[i]? == some c && standsAt src (i + 1) cs

/-- The first offset from `i` on whose character is not in the class. -/
def skipWhile (src : Source) (p : Char → Bool) (i : Nat) : Nat :=
  let rec go : Nat → Nat → Nat
    | 0, i => i
    | fuel + 1, i => match src.chars[i]? with
      | some c => if p c then go fuel (i + 1) else i
      | none => i
  go (src.size - i) i

/-! ## Characters of a slice -/

theorem mem_slice {src : Source} {start stop : Nat} {c : Char} :
    c ∈ (src.slice start stop).toList ↔ ∃ k, start ≤ k ∧ k < stop ∧ src.get? k = some c := by
  rw [slice, String.toList_ofList, Array.mem_toList_iff, Array.mem_extract_iff_getElem]
  constructor
  · rintro ⟨k, hk, heq⟩
    exact ⟨start + k, by omega, by omega, Array.getElem?_eq_some_iff.2 ⟨by omega, heq⟩⟩
  · rintro ⟨k, hstart, hstop, hget⟩
    obtain ⟨hk, heq⟩ := Array.getElem?_eq_some_iff.1 hget
    refine ⟨k - start, by omega, ?_⟩
    simp only [Nat.add_sub_cancel' hstart, heq]

/-- What `skipWhile` passes is in the class. -/
theorem get?_of_lt_skipWhile {src : Source} {p : Char → Bool} {i k : Nat} {c : Char} (hi : i ≤ k)
    (hk : k < src.skipWhile p i) (hget : src.get? k = some c) : p c = true := by
  have passed : ∀ fuel i, i ≤ k → k < skipWhile.go src p fuel i → p c = true := by
    intro fuel
    induction fuel with
    | zero => intro i hi hk; simp only [skipWhile.go] at hk; omega
    | succ fuel ih =>
      intro i hi hk
      rw [skipWhile.go] at hk
      split at hk
      · rename_i d hd
        split at hk
        · rename_i hp
          rcases Nat.eq_or_lt_of_le hi with rfl | hlt
          · exact Option.some_inj.1 (hd.symm.trans hget) ▸ hp
          · exact ih (i + 1) hlt hk
        · omega
      · omega
  exact passed _ i hi hk

theorem le_skipWhile (src : Source) (p : Char → Bool) (i : Nat) : i ≤ src.skipWhile p i := by
  have ahead : ∀ fuel i, i ≤ skipWhile.go src p fuel i := by
    intro fuel
    induction fuel with
    | zero => intro i; simp only [skipWhile.go, Nat.le_refl]
    | succ fuel ih =>
      intro i
      rw [skipWhile.go]
      split
      · split
        · exact Nat.le_of_succ_le (ih (i + 1))
        · exact Nat.le_refl i
      · exact Nat.le_refl i
  exact ahead _ i

end Source
end SymbolGraph
