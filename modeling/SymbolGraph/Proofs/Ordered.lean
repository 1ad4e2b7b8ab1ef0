import Mathlib.Data.List.Sort
import Mathlib.Data.String.Basic
import SymbolGraph.Ordered.Distinct
import SymbolGraph.Ordered.KeyMap
import SymbolGraph.Ordered.KeySet

/-!
# Looking up in ordered maps and sets

Every operation on a `KeyMap` is described by what `get?` finds afterwards, and a map is determined
by what it finds. A `KeySet` is determined by its members. A list is cut down to the first element with
each key, or sorted, where what the order does not tell apart stays as it was.
-/
namespace SymbolGraph

namespace KeyMap

variable {α : Type u} {β : Type v}

theorem keys_pairwise (m : KeyMap α) : m.keys.Pairwise (· < ·) :=
  List.pairwise_map.mpr m.ascending

theorem keys_nodup (m : KeyMap α) : m.keys.Nodup :=
  m.keys_pairwise.imp fun {_ _} h => ne_of_lt h

/-! ## Finding entries -/

theorem get?_eq_some {m : KeyMap α} {k : String} {v : α} :
    m.get? k = some v ↔ (k, v) ∈ m.entries := by
  obtain ⟨entries, h⟩ := m
  simp only [get?]
  induction entries with
  | nil => simp
  | cons e rest ih =>
    obtain ⟨k', v'⟩ := e
    have hb := (List.pairwise_cons.1 h).1
    have hi := ih (List.pairwise_cons.1 h).2
    by_cases hk : k' = k
    · subst hk
      have hn : ∀ w, (k', w) ∉ rest := fun w hw => lt_irrefl k' (hb (k', w) hw)
      simp [hn, eq_comm]
    · have hk' : k ≠ k' := Ne.symm hk
      simp [hk, hk', hi]

theorem mem_keys {m : KeyMap α} {k : String} : k ∈ m.keys ↔ ∃ v, m.get? k = some v := by
  simp [keys, get?_eq_some]

theorem mem_values {m : KeyMap α} {v : α} : v ∈ m.values ↔ ∃ k, m.get? k = some v := by
  simp [values, get?_eq_some]

theorem mem_toList {m : KeyMap α} {p : String × α} : p ∈ m.toList ↔ m.get? p.1 = some p.2 :=
  get?_eq_some.symm

theorem contains_iff {m : KeyMap α} {k : String} : m.contains k = true ↔ ∃ v, m.get? k = some v := by
  simp [contains, Option.isSome_iff_exists]

theorem contains_eq_false {m : KeyMap α} {k : String} :
    m.contains k = false ↔ m.get? k = none := by
  simp [contains]

/-- A map is determined by what it finds. -/
theorem ext_get? {m n : KeyMap α} (h : ∀ k, m.get? k = n.get? k) : m = n := by
  have he : ∀ p, p ∈ m.entries ↔ p ∈ n.entries := by
    intro p
    rw [← get?_eq_some, ← get?_eq_some, h]
  let r : String × α → String × α → Prop := fun a b => a.1 < b.1
  have : Std.Irrefl r := ⟨fun a => lt_irrefl a.1⟩
  have : Std.Antisymm r := ⟨fun a b hab hba => absurd hba (lt_asymm hab)⟩
  exact ext_entries (List.Pairwise.eq_of_mem_iff (r := r) m.ascending n.ascending he)

/-! ## One lemma for each operation -/

@[simp] theorem get?_empty (k : String) : (empty : KeyMap α).get? k = none := rfl

theorem find?_alterEntries (k k' : String) (f : Option α → Option α) {l : List (String × α)}
    (h : Ascending l) :
    ((alterEntries k f l).find? fun p => p.1 == k').map (·.2) =
      if k' = k then f ((l.find? fun p => p.1 == k).map (·.2))
      else (l.find? fun p => p.1 == k').map (·.2) := by
  induction l with
  | nil =>
    by_cases hk : k' = k
    · subst hk
      cases hf : f none <;> simp [alterEntries, hf]
    · have hk' : k ≠ k' := Ne.symm hk
      cases hf : f none <;> simp [alterEntries, hf, hk, hk']
  | cons e rest ih =>
    obtain ⟨k₀, v₀⟩ := e
    have hb := (List.pairwise_cons.1 h).1
    have hi := ih (List.pairwise_cons.1 h).2
    rcases lt_trichotomy k k₀ with hlt | rfl | hgt
    · have hne : k₀ ≠ k := (ne_of_lt hlt).symm
      have hnone : rest.find? (fun p => p.1 == k) = none := by
        rw [List.find?_eq_none]
        intro p hp
        simpa using (ne_of_lt (hlt.trans (hb p hp))).symm
      by_cases hk : k' = k
      · subst hk
        cases hf : f none <;> simp [alterEntries, hlt, hf, hne, hnone]
      · have hk' : k ≠ k' := Ne.symm hk
        cases hf : f none <;> simp [alterEntries, hlt, hf, hk, hk', List.find?_cons]
    · have hnone : rest.find? (fun p => p.1 == k) = none := by
        rw [List.find?_eq_none]
        intro p hp
        simpa using (ne_of_lt (hb p hp)).symm
      by_cases hk : k' = k
      · subst hk
        cases hf : f (some v₀) <;> simp [alterEntries, hf, hnone]
      · have hk' : k ≠ k' := Ne.symm hk
        cases hf : f (some v₀) <;> simp [alterEntries, hf, hk, hk']
    · have hne : k₀ ≠ k := ne_of_lt hgt
      have hlt : ¬ k < k₀ := lt_asymm hgt
      by_cases hk : k' = k₀
      · subst hk
        simp [alterEntries, hlt, hne, hne.symm]
      · have hk' : k₀ ≠ k' := Ne.symm hk
        simp only [alterEntries, hlt, if_false, hne.symm, List.find?_cons, beq_eq_false_iff_ne.mpr hk',
          beq_eq_false_iff_ne.mpr hne, hi]

/-- Changing one entry changes what is found under its key alone. -/
theorem get?_alter (m : KeyMap α) (k k' : String) (f : Option α → Option α) :
    (m.alter k f).get? k' = if k' = k then f (m.get? k) else m.get? k' :=
  find?_alterEntries k k' f m.ascending

theorem get?_insert (m : KeyMap α) (k k' : String) (v : α) :
    (m.insert k v).get? k' = if k' = k then some v else m.get? k' :=
  m.get?_alter k k' _

theorem get?_insertNew (m : KeyMap α) (k k' : String) (v : α) :
    (m.insertNew k v).get? k' = if k' = k then some ((m.get? k).getD v) else m.get? k' :=
  m.get?_alter k k' _

theorem get?_modify (m : KeyMap α) (k k' : String) (f : α → α) :
    (m.modify k f).get? k' = if k' = k then (m.get? k).map f else m.get? k' :=
  m.get?_alter k k' _

theorem get?_upsert (m : KeyMap α) (k k' : String) (start : α) (f : α → α) :
    (m.upsert k start f).get? k' = if k' = k then some (f ((m.get? k).getD start)) else m.get? k' :=
  m.get?_alter k k' _

theorem get?_erase (m : KeyMap α) (k k' : String) :
    (m.erase k).get? k' = if k' = k then none else m.get? k' :=
  m.get?_alter k k' _

@[simp] theorem get?_map (m : KeyMap α) (f : String → α → β) (k : String) :
    (m.map f).get? k = (m.get? k).map (f k) := by
  obtain ⟨entries, h⟩ := m
  simp only [map, get?]
  induction entries with
  | nil => simp
  | cons e rest ih =>
    have hi := ih (List.pairwise_cons.1 h).2
    by_cases hk : e.1 = k
    · simp [hk]
    · simpa [hk] using hi

theorem get?_filter (m : KeyMap α) (keep : String → α → Bool) (k : String) :
    (m.filter keep).get? k = (m.get? k).filter (keep k) := by
  apply Option.ext
  intro v
  simp only [Option.filter_eq_some_iff, get?_eq_some, filter, List.mem_filter]

@[simp] theorem keys_map (m : KeyMap α) (f : String → α → β) : (m.map f).keys = m.keys := by
  simp [keys, map]

theorem values_map (m : KeyMap α) (f : String → α → β) :
    (m.map f).values = m.toList.map fun p => f p.1 p.2 := by
  simp [values, map, toList]

theorem size_eq_length_keys (m : KeyMap α) : m.size = m.keys.length := by
  simp [size, keys]

/-! ## Searching in the order of the keys -/

theorem findSome?_toList_eq_none {m : KeyMap α} {f : String × α → Option β} :
    m.toList.findSome? f = none ↔ ∀ k v, m.get? k = some v → f (k, v) = none := by
  rw [List.findSome?_eq_none_iff]
  exact ⟨fun h k v hv => h (k, v) (mem_toList.2 hv), fun h p hp => h p.1 p.2 (mem_toList.1 hp)⟩

/-- A search through the entries ends at the least key for which it finds something. -/
theorem findSome?_toList_eq_some {m : KeyMap α} {f : String × α → Option β} {k : String} {v : α} {b : β}
    (hv : m.get? k = some v) (hb : f (k, v) = some b)
    (least : ∀ k' v', m.get? k' = some v' → k' < k → f (k', v') = none) :
    m.toList.findSome? f = some b := by
  obtain ⟨before, after, hsplit⟩ := List.append_of_mem (mem_toList.2 hv : (k, v) ∈ m.toList)
  have ascending : Ascending m.toList := m.ascending
  rw [hsplit] at ascending
  refine List.findSome?_eq_some_iff.2 ⟨before, (k, v), after, hsplit, hb, fun p hp => ?_⟩
  refine least p.1 p.2 (mem_toList.1 ?_) ?_
  · rw [hsplit]
    exact List.mem_append_left _ hp
  · exact (List.pairwise_append.1 ascending).2.2 p hp (k, v) List.mem_cons_self

/-- A key stands in one entry at most. -/
theorem filter_toList (m : KeyMap α) (k : String) :
    m.toList.filter (·.1 == k) = (m.get? k).toList.map fun v => (k, v) := by
  cases hv : m.get? k with
  | none =>
    rw [Option.toList_none, List.map_nil, List.filter_eq_nil_iff]
    intro p hp same
    rw [← beq_iff_eq.1 same, mem_toList.1 hp] at hv
    cases hv
  | some v =>
    obtain ⟨before, after, hsplit⟩ := List.append_of_mem (mem_toList.2 hv : (k, v) ∈ m.toList)
    have ascending : Ascending m.toList := m.ascending
    rw [hsplit] at ascending ⊢
    obtain ⟨-, behind, across⟩ := List.pairwise_append.1 ascending
    have hbefore : before.filter (·.1 == k) = [] := by
      rw [List.filter_eq_nil_iff]
      intro p hp same
      exact (across p hp (k, v) List.mem_cons_self).ne (beq_iff_eq.1 same)
    have hafter : after.filter (·.1 == k) = [] := by
      rw [List.filter_eq_nil_iff]
      intro p hp same
      exact ((List.pairwise_cons.1 behind).1 p hp).ne (beq_iff_eq.1 same).symm
    rw [List.filter_append, hbefore, List.filter_cons_of_pos (by simp), hafter]
    rfl

/-- Setting a value that is there already changes nothing. -/
theorem insert_eq_self {m : KeyMap α} {k : String} {v : α} (h : m.get? k = some v) :
    m.insert k v = m := by
  apply ext_get?
  intro k'
  rw [get?_insert]
  split_ifs with hk
  · rw [hk, h]
  · rfl

/-! ## Maps made from lists -/

theorem get?_foldl_insert (l : List (String × α)) (m : KeyMap α) (k : String) :
    (l.foldl (fun m p => m.insert p.1 p.2) m).get? k =
      ((l.reverse.find? fun p => p.1 == k).map (·.2)).or (m.get? k) := by
  induction l generalizing m with
  | nil => simp
  | cons e rest ih =>
    simp only [List.foldl_cons, ih, List.reverse_cons, List.find?_append, get?_insert]
    cases rest.reverse.find? fun p => p.1 == k with
    | some p => simp
    | none =>
      by_cases hk : k = e.1
      · simp [hk]
      · simp [hk, Ne.symm hk]

/-- Of several pairs with one key the last decides. -/
theorem get?_ofList (l : List (String × α)) (k : String) :
    (ofList l).get? k = (l.reverse.find? fun p => p.1 == k).map (·.2) := by
  simp [ofList, get?_foldl_insert]

theorem get?_foldl_insertNew (l : List (String × α)) (m : KeyMap α) (k : String) :
    (l.foldl (fun m p => m.insertNew p.1 p.2) m).get? k =
      (m.get? k).or ((l.find? fun p => p.1 == k).map (·.2)) := by
  induction l generalizing m with
  | nil => simp
  | cons e rest ih =>
    simp only [List.foldl_cons, ih, List.find?_cons, get?_insertNew]
    by_cases hk : k = e.1
    · subst hk
      cases m.get? e.1 <;> simp
    · have hk' : (e.1 == k) = false := beq_eq_false_iff_ne.mpr (Ne.symm hk)
      simp [hk, hk']

/-- Of several pairs with one key the first decides. -/
theorem get?_ofListFirst (l : List (String × α)) (k : String) :
    (ofListFirst l).get? k = (l.find? fun p => p.1 == k).map (·.2) := by
  simp [ofListFirst, get?_foldl_insertNew]

theorem get?_ofList_eq_some {l : List (String × α)} {k : String} {v : α}
    (hn : (l.map (·.1)).Nodup) : (ofList l).get? k = some v ↔ (k, v) ∈ l := by
  rw [get?_ofList, Option.map_eq_some_iff]
  constructor
  · rintro ⟨p, hp, rfl⟩
    have hk := List.find?_some hp
    have hm := List.mem_of_find?_eq_some hp
    simp only [beq_iff_eq] at hk
    subst hk
    simpa using hm
  · intro h
    obtain ⟨p, hp⟩ : ∃ p, l.reverse.find? (fun p => p.1 == k) = some p := by
      rw [← Option.isSome_iff_exists, List.find?_isSome]
      exact ⟨(k, v), by simpa using h, by simp⟩
    have hk := List.find?_some hp
    have hm := List.mem_of_find?_eq_some hp
    simp only [beq_iff_eq] at hk
    have he : p = (k, v) := List.inj_on_of_nodup_map hn (by simpa using hm) h hk
    exact ⟨p, hp, by rw [he]⟩

/-- Reading the entries of a map back gives the map. -/
@[simp] theorem ofList_entries (m : KeyMap α) : ofList m.entries = m := by
  apply ext_get?
  intro k
  apply Option.ext
  intro v
  rw [get?_ofList_eq_some m.keys_nodup, get?_eq_some]

theorem map_ofList (l : List (String × α)) (f : String → α → β) :
    (ofList l).map f = ofList (l.map fun p => (p.1, f p.1 p.2)) := by
  apply ext_get?
  intro k
  rw [get?_map, get?_ofList, get?_ofList, ← List.map_reverse, List.find?_map]
  have same : ((fun q : String × β => q.1 == k) ∘ fun p : String × α => (p.1, f p.1 p.2)) =
      fun p => p.1 == k := rfl
  rw [same]
  cases hp : l.reverse.find? fun p => p.1 == k with
  | none => rfl
  | some p =>
    have hk : p.1 = k := by simpa using List.find?_some hp
    simp [hk]

theorem mem_of_mem_ofList {l : List (String × α)} {p : String × α} (h : p ∈ (ofList l).toList) :
    p ∈ l := by
  rw [mem_toList, get?_ofList, Option.map_eq_some_iff] at h
  obtain ⟨q, hq, hv⟩ := h
  have hk : q.1 = p.1 := by simpa using List.find?_some hq
  have hm := List.mem_of_find?_eq_some hq
  rw [show p = q from Prod.ext hk.symm hv.symm]
  simpa using hm

theorem mem_keys_ofList {l : List (String × α)} {k : String} :
    k ∈ (ofList l).keys ↔ k ∈ l.map (·.1) := by
  rw [mem_keys]
  constructor
  · rintro ⟨v, hv⟩
    exact List.mem_map.mpr ⟨(k, v), mem_of_mem_ofList (mem_toList.mpr hv), rfl⟩
  · intro h
    obtain ⟨p, hp, rfl⟩ := List.mem_map.mp h
    have hs : (l.reverse.find? fun q => q.1 == p.1).isSome := by
      rw [List.find?_isSome]
      exact ⟨p, by simpa using hp, by simp⟩
    obtain ⟨q, hq⟩ := Option.isSome_iff_exists.mp hs
    exact ⟨q.2, by rw [get?_ofList, hq, Option.map_some]⟩

/-- Collecting values under their keys keeps them in order behind those that are there. -/
theorem getD_foldl_upsert {γ : Type w} (key : γ → String) (value : γ → α) (l : List γ)
    (m : KeyMap (List α)) (k : String) :
    ((l.foldl (fun m c => m.upsert (key c) [] (· ++ [value c])) m).get? k).getD [] =
      (m.get? k).getD [] ++ (l.filter (key · == k)).map value := by
  induction l generalizing m with
  | nil => simp
  | cons c rest ih =>
    simp only [List.foldl_cons, ih, get?_upsert, List.filter_cons]
    by_cases hk : k = key c
    · simp [hk]
    · simp [hk, Ne.symm hk]

/-- Changing values under their keys adds these keys. -/
theorem contains_foldl_upsert {γ : Type w} (key : γ → String) (start : α) (change : γ → α → α) (l : List γ)
    (m : KeyMap α) (k : String) :
    (l.foldl (fun m c => m.upsert (key c) start (change c)) m).contains k = true ↔
      m.contains k = true ∨ k ∈ l.map key := by
  induction l generalizing m with
  | nil => simp
  | cons c rest ih =>
    rw [List.foldl_cons, ih, contains, get?_upsert, List.map_cons, List.mem_cons, ← or_assoc]
    refine or_congr_left ?_
    by_cases hk : k = key c
    · simp [hk]
    · simp [hk, contains]

end KeyMap

namespace KeySet

/-- A set is determined by its members. -/
theorem ext_mem {s t : KeySet} (h : ∀ a, a ∈ s ↔ a ∈ t) : s = t :=
  ext_toList (List.Pairwise.eq_of_mem_iff s.ascending t.ascending h)

theorem mem_toList {s : KeySet} {a : String} : a ∈ s.toList ↔ a ∈ s := Iff.rfl

@[simp] theorem not_mem_empty (a : String) : a ∉ (empty : KeySet) := List.not_mem_nil

@[simp] theorem ofList_toList (s : KeySet) : ofList s.toList = s :=
  ext_mem fun a => by rw [mem_ofList, mem_toList]

/-- A map to sets is determined by its keys and their members. -/
theorem ext_getD {m n : KeyMap KeySet} (keys : ∀ k, m.contains k = true ↔ n.contains k = true)
    (members : ∀ k a, a ∈ (m.get? k).getD .empty ↔ a ∈ (n.get? k).getD .empty) : m = n := by
  apply KeyMap.ext_get?
  intro k
  have known := keys k
  have same := ext_mem (members k)
  rw [KeyMap.contains, KeyMap.contains] at known
  cases hm : m.get? k <;> cases hn : n.get? k <;> simp_all

/-- Collecting texts in sets under their keys. -/
theorem mem_getD_foldl_upsert {γ : Type w} (key value : γ → String) (l : List γ)
    (m : KeyMap KeySet) (k a : String) :
    a ∈ ((l.foldl (fun m c => m.upsert (key c) .empty (·.insert (value c))) m).get? k).getD .empty ↔
      a ∈ (m.get? k).getD .empty ∨ ∃ c ∈ l, key c = k ∧ value c = a := by
  induction l generalizing m with
  | nil => simp
  | cons c rest ih =>
    rw [List.foldl_cons, ih, KeyMap.get?_upsert]
    by_cases hk : k = key c
    · subst hk
      simp only [if_true, Option.getD_some, mem_insert, List.mem_cons, exists_eq_or_imp, true_and]
      tauto
    · simp [hk, Ne.symm hk]

/-- Sets collected under keys depend on the pairs of a key and a member alone. -/
theorem foldl_upsert_congr {l l' : List (String × String)} (h : ∀ e, e ∈ l ↔ e ∈ l') :
    l.foldl (fun m e => m.upsert e.1 .empty (·.insert e.2)) (.empty : KeyMap KeySet) =
      l'.foldl (fun m e => m.upsert e.1 .empty (·.insert e.2)) .empty := by
  refine ext_getD (fun k => ?_) fun k a => ?_
  · have keys := KeyMap.contains_foldl_upsert (fun e : String × String => e.1) empty fun e s => s.insert e.2
    simp only [keys, List.mem_map, h]
  · have members := mem_getD_foldl_upsert (fun e : String × String => e.1) fun e => e.2
    simp only [members, h]

end KeySet

/-! ## Lists -/

section FirstOfEach
variable {α : Type u} {β : Type v} [BEq β] {key : α → β} {seen : List β} {l : List α} {a : α}

theorem firstOfEach_sublist (key : α → β) (seen : List β) (l : List α) :
    (firstOfEach key seen l).Sublist l := by
  induction l generalizing seen with
  | nil => exact List.Sublist.slnil
  | cons a rest ih =>
    rw [firstOfEach]
    split_ifs
    · exact (ih seen).cons a
    · exact (ih _).cons_cons a

variable [LawfulBEq β]

theorem key_not_mem_of_mem_firstOfEach (h : a ∈ firstOfEach key seen l) : key a ∉ seen := by
  induction l generalizing seen with
  | nil => simp [firstOfEach] at h
  | cons b rest ih =>
    rw [firstOfEach] at h
    split_ifs at h with known
    · exact ih h
    · rcases List.mem_cons.1 h with rfl | h
      · exact fun hseen => known (List.contains_iff_mem.2 hseen)
      · exact fun hseen => ih h (List.mem_cons_of_mem _ hseen)

theorem firstOfEach_nodup (key : α → β) (seen : List β) (l : List α) :
    ((firstOfEach key seen l).map key).Nodup := by
  induction l generalizing seen with
  | nil => simp [firstOfEach]
  | cons a rest ih =>
    rw [firstOfEach]
    split_ifs
    · exact ih seen
    · refine List.nodup_cons.2 ⟨fun again => ?_, ih _⟩
      obtain ⟨b, hb, same⟩ := List.mem_map.1 again
      exact key_not_mem_of_mem_firstOfEach hb (same ▸ List.mem_cons_self)

/-- No key is lost. -/
theorem exists_mem_firstOfEach (ha : a ∈ l) (new : key a ∉ seen) :
    ∃ b ∈ firstOfEach key seen l, key b = key a := by
  induction l generalizing seen with
  | nil => cases ha
  | cons b rest ih =>
    rw [firstOfEach]
    split_ifs with known
    · rcases List.mem_cons.1 ha with rfl | ha
      · exact absurd (List.contains_iff_mem.1 known) new
      · exact ih ha new
    · by_cases same : key b = key a
      · exact ⟨b, List.mem_cons_self, same⟩
      · rcases List.mem_cons.1 ha with rfl | ha
        · exact absurd rfl same
        · obtain ⟨c, hc, hkey⟩ := ih ha (by simp [new, Ne.symm same] : key a ∉ key b :: seen)
          exact ⟨c, List.mem_cons_of_mem _ hc, hkey⟩

end FirstOfEach

/-- Sorting puts nothing before what should come first, and keeps the order of what it does not tell
apart. -/
theorem pairwise_mergeSort_stable {α : Type u} {le : α → α → Bool} {r : α → α → Prop}
    (trans : ∀ a b c, le a b = true → le b c = true → le a c = true)
    (total : ∀ a b, (le a b || le b a) = true) {l : List α} (h : l.Pairwise r) :
    (l.mergeSort le).Pairwise fun a b => le a b = true ∧ (le b a = true → r a b) := by
  induction l with
  | nil => simp
  | cons a l ih =>
    obtain ⟨ha, hl⟩ := List.pairwise_cons.1 h
    obtain ⟨front, back, hsort, hrest, hfront⟩ := List.mergeSort_cons trans total a l
    have hsorted := List.pairwise_mergeSort trans total (a :: l)
    have hih := ih hl
    rw [hsort] at hsorted ⊢
    rw [hrest] at hih
    obtain ⟨hf, hb, hfb⟩ := List.pairwise_append.1 hih
    obtain ⟨-, hab, -⟩ := List.pairwise_append.1 hsorted
    refine List.pairwise_append.2 ⟨hf, List.pairwise_cons.2 ⟨fun b hb' => ?_, hb⟩, fun x hx y hy => ?_⟩
    · -- what stands behind `a` in the end stood behind it before
      have hmem : b ∈ l := List.mem_mergeSort.1 (hrest ▸ List.mem_append_right front hb')
      exact ⟨(List.pairwise_cons.1 hab).1 b hb', fun _ => ha b hmem⟩
    · rcases List.mem_cons.1 hy with rfl | hy
      · have hnot : le y x = false := by simpa using hfront x hx
        exact ⟨by simpa [hnot] using total x y, by simp [hnot]⟩
      · exact hfb x hx y hy

end SymbolGraph
