import SymbolGraph.Json.Record
import SymbolGraph.Proofs.Json.RoundTrip
import SymbolGraph.Proofs.Ordered

/-!
# Records in JSON

The fields of a record are found under their names as they were written. `ReadsBack` says of a pair of
functions that a value is read as nothing else than what was written; reading may still refuse it, as it
does with numbers that are no machine words.
-/
namespace SymbolGraph
open Json

/-! ## Fields -/

/-- Reading goes on with what one step gave. -/
theorem step {α β : Type} {x : Option α} {a : α} {k : α → Option β} {b : β} (h : x = some a)
    (hk : k a = some b) : x >>= k = some b := by
  rw [h]
  exact hk

theorem natBelow?_nat {bound n : Nat} (h : n < bound) : natBelow? bound (.nat n) = some n := by
  simp [natBelow?, Json.nat, h]

theorem lt_of_natBelow? {bound n : Nat} {j : Json} (h : natBelow? bound j = some n) : n < bound := by
  unfold natBelow? at h
  split at h
  · split_ifs at h with range
    obtain rfl := Option.some_inj.1 h
    omega
  · cases h

theorem required_word {n : Nat} (h : n < 2 ^ 64) : required word? (some (.nat n)) = some n := by
  rw [required, Option.bind_some, word?]
  exact natBelow?_nat h

theorem lt_of_required {field : Option Json} {n : Nat} (h : required word? field = some n) :
    n < 2 ^ 64 := by
  obtain ⟨j, -, h⟩ := Option.bind_eq_some_iff.1 h
  exact lt_of_natBelow? h

theorem plainItems_map {α : Type u} {write : α → Json} {l : List α}
    (h : ∀ a ∈ l, Plain (write a)) : PlainItems (l.map write) :=
  plainItems_iff.2 fun _ hj => by
    obtain ⟨a, ha, rfl⟩ := List.mem_map.1 hj
    exact h a ha

/-- The fields of an object whose members have different names. -/
theorem fields?_object {names : List String} {ms : List (String × Json)}
    (distinct : (ms.map (·.1)).Nodup) :
    fields? names (.object ms) =
      some (names.map fun n => (ms.find? fun m => m.1 == n).map (·.2)) := by
  have once : ∀ {l : List String}, l.Nodup → l.eraseDups = l := by
    intro l hl
    induction l with
    | nil => rfl
    | cons a l ih =>
      have ⟨ha, hl⟩ := List.nodup_cons.1 hl
      rw [List.eraseDups_cons, List.filter_eq_self.2 fun b hb => ?_, ih hl]
      simp
      rintro rfl
      exact ha hb
  simp only [fields?]
  rw [if_pos (by rw [once (distinct.filter _)])]

theorem plainMembers_members {l : List (String × Option Json)}
    (h : ∀ p ∈ l, ∀ j, p.2 = some j → Plain j) : Plain (members l) := by
  unfold members Plain
  induction l with
  | nil => exact trivial
  | cons p l ih =>
    have rest := ih fun q hq => h q (List.mem_cons_of_mem p hq)
    obtain ⟨name, value⟩ := p
    cases value with
    | none => exact rest
    | some j => exact ⟨h (name, some j) List.mem_cons_self j rfl, rest⟩

theorem find?_members {l : List (String × Option Json)} (distinct : (l.map (·.1)).Nodup)
    {p : String × Option Json} (hp : p ∈ l) :
    ((l.filterMap fun (name, value) => value.map fun v => (name, v)).find? fun m => m.1 == p.1).map
      (·.2) = p.2 := by
  induction l with
  | nil => cases hp
  | cons q l ih =>
    obtain ⟨name, value⟩ := q
    have ⟨new, distinct⟩ := List.nodup_cons.1 distinct
    rcases List.mem_cons.1 hp with rfl | hp
    · cases value with
      | some j => simp
      | none =>
        rw [List.filterMap_cons_none (by rfl), Option.map_eq_none_iff, List.find?_eq_none]
        intro m hm same
        obtain ⟨⟨name', value'⟩, hq, hm⟩ := List.mem_filterMap.1 hm
        obtain ⟨j, rfl, rfl⟩ := Option.map_eq_some_iff.1 hm
        exact new (List.mem_map.2 ⟨(name', some j), hq, by simpa using same⟩)
    · have other : name ≠ p.1 := fun same => new (List.mem_map.2 ⟨p, hp, same.symm⟩)
      have found := ih distinct hp
      cases value with
      | none => simpa using found
      | some j => simpa [other] using found

/-- The fields of a record are those that were written. -/
theorem fields?_members {l : List (String × Option Json)} {names : List String}
    {values : List (Option Json)} (hnames : l.map (·.1) = names) (hvalues : l.map (·.2) = values)
    (distinct : names.Nodup) : fields? names (members l) = some values := by
  subst hnames hvalues
  have written : ((l.filterMap fun (name, value) => value.map fun v => (name, v)).map (·.1)).Sublist
      (l.map (·.1)) := by
    clear distinct
    induction l with
    | nil => simp
    | cons q l ih =>
      obtain ⟨name, value⟩ := q
      cases value with
      | none => simpa using ih.cons name
      | some j => simpa using ih
  rw [members, fields?_object (distinct.sublist written), List.map_map]
  congr 1
  refine List.map_congr_left fun p hp => ?_
  exact find?_members distinct hp

theorem listOf_map {α : Type u} (write : α → Json) (read : Json → Option α) {l : List α}
    (h : ∀ a ∈ l, read (write a) = some a) : listOf read (.array (l.map write)) = some l := by
  simp only [listOf]
  induction l with
  | nil => rfl
  | cons a l ih =>
    rw [List.map_cons, List.mapM_cons, h a List.mem_cons_self,
      ih fun b hb => h b (List.mem_cons_of_mem a hb)]
    rfl

/-- The items of a list that was read were read one by one. -/
theorem exists_of_mem_listOf {α : Type} {read : Json → Option α} {field : Option Json} {l : List α}
    (h : required (listOf read) field = some l) {a : α} (ha : a ∈ l) : ∃ j, read j = some a := by
  obtain ⟨j, -, hj⟩ := Option.bind_eq_some_iff.1 h
  clear h
  unfold listOf at hj
  split at hj
  · rename_i items
    induction items generalizing l with
    | nil =>
      obtain rfl : [] = l := by simpa using hj
      cases ha
    | cons item items ih =>
      rw [List.mapM_cons] at hj
      obtain ⟨b, hb, hj⟩ := Option.bind_eq_some_iff.1 hj
      obtain ⟨rest, hrest, hj⟩ := Option.bind_eq_some_iff.1 hj
      obtain rfl := Option.some_inj.1 hj
      rcases List.mem_cons.1 ha with rfl | ha
      · exact ⟨item, hb⟩
      · exact ih ha hrest
  · cases hj

theorem listOf_strings (l : List String) : listOf string? (strings l) = some l :=
  listOf_map Json.string string? fun _ _ => rfl

/-! ## Values read as they were written -/

/-- What is read of a written value is that value. -/
def ReadsBack {α : Type u} (write : α → Json) (read : Json → Option α) : Prop :=
  ∀ a b, read (write a) = some b → b = a

theorem readsBack_natBelow (bound : Nat) : ReadsBack Json.nat (natBelow? bound) := by
  intro n m h
  unfold natBelow? Json.nat at h
  dsimp only at h
  split_ifs at h
  exact (Option.some_inj.1 h).symm

theorem readsBack_word : ReadsBack Json.nat word? := readsBack_natBelow _

theorem optional_some {α : Type} (missing : α) (read : Json → Option α) (j : Json) :
    Json.optional missing read (some j) = read j := rfl

/-- An optional text is written only if there is one. -/
theorem optional_string (s : Option String) :
    Json.optional none (nullable string?) (s.map Json.string) = some s := by
  cases s <;> rfl

theorem eq_of_mapM_map {α β : Type} {write : α → β} {read : β → Option α} {l l' : List α}
    (reads : ∀ a b, read (write a) = some b → b = a) (h : (l.map write).mapM read = some l') :
    l' = l := by
  induction l generalizing l' with
  | nil => simpa using h.symm
  | cons a l ih =>
    rw [List.map_cons, List.mapM_cons] at h
    obtain ⟨b, hb, h⟩ := Option.bind_eq_some_iff.1 h
    obtain ⟨rest, hrest, h⟩ := Option.bind_eq_some_iff.1 h
    obtain rfl := Option.some_inj.1 h
    rw [reads a b hb, ih hrest]

theorem ReadsBack.listOf {α : Type} {write : α → Json} {read : Json → Option α}
    (h : ReadsBack write read) :
    ReadsBack (fun l => .array (l.map write)) (Json.listOf read) := fun _ _ hl => eq_of_mapM_map h hl

end SymbolGraph
