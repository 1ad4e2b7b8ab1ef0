import Mathlib.Data.List.Chain
import Mathlib.Logic.Relation
import SymbolGraph.Project.ReExports
import SymbolGraph.Proofs.Ordered

/-!
# How re-exports pass names on

A name that a file does not give itself may come from any of the files that its star re-exports name.
The links of a project record only the first of these that has the name along star re-exports of its
own, and it may have the name from nowhere else than the file itself.
-/
namespace SymbolGraph.ExportTable
open Relation

variable {table : ExportTable}

/-- The exports of a file. -/
def exportsOf (table : ExportTable) (file : String) : List Export := (table.get? file).getD []

theorem mem_exportsOf {file : String} {e : Export} :
    e ∈ table.exportsOf file ↔ ∃ exports, table.get? file = some exports ∧ e ∈ exports := by
  unfold exportsOf
  cases table.get? file <;> simp

/-- Exports know their file, and only re-exports have an origin. -/
structure Proper (table : ExportTable) : Prop where
  file_eq : ∀ file, ∀ e ∈ table.exportsOf file, e.file = file
  isReExport_of_origin : ∀ file, ∀ e ∈ table.exportsOf file, ∀ source, e.origin = some source →
    e.isReExport = true

/-- A re-export of `file` takes something from `source`. -/
def ReExportEdge (table : ExportTable) (file source : String) : Prop :=
  ∃ e ∈ table.exportsOf file, e.isReExport = true ∧ e.origin = some source

/-- No chain of re-exports through different files has more steps than are followed. -/
def BoundedChains (table : ExportTable) : Prop :=
  ∀ l : List String, l.IsChain table.ReExportEdge → l.Nodup → l.length ≤ maxDepth + 1

/-- All but the last file of a chain are files of the table, so that a small project has short chains. -/
theorem boundedChains_of_size (h : table.size ≤ maxDepth) : table.BoundedChains := by
  intro l chain nodup
  have known {l : List String} (chain : l.IsChain table.ReExportEdge) : ∀ x ∈ l.dropLast, x ∈ table.keys := by
    induction l with
    | nil => simp
    | cons a rest ih =>
      cases rest with
      | nil => simp
      | cons b rest =>
        obtain ⟨⟨e, he, -⟩, chain⟩ := List.isChain_cons_cons.1 chain
        obtain ⟨exports, ha, -⟩ := mem_exportsOf.1 he
        intro x hx
        rcases List.mem_cons.1 hx with rfl | hx
        · exact KeyMap.mem_keys.2 ⟨exports, ha⟩
        · exact ih chain x hx
  have short := (List.subperm_of_subset (nodup.sublist (List.dropLast_sublist l)) (known chain)).length_le
  rw [List.length_dropLast, ← KeyMap.size_eq_length_keys] at short
  omega

/-! ## Names along star re-exports -/

/-- A star re-export of `file` names `source`. -/
def StarEdge (table : ExportTable) (file source : String) : Prop :=
  source ∈ starOrigins (table.exportsOf file)

instance (file source : String) : Decidable (table.StarEdge file source) :=
  inferInstanceAs (Decidable (source ∈ starOrigins (table.exportsOf file)))

theorem mem_starOrigins {exports : List Export} {source : String} :
    source ∈ starOrigins exports ↔ ∃ e ∈ exports, e.isStar = true ∧ e.origin = some source := by
  simp [starOrigins, and_assoc]

theorem Proper.reExportEdge (proper : table.Proper) {file source : String}
    (h : table.StarEdge file source) : table.ReExportEdge file source := by
  obtain ⟨e, he, -, horigin⟩ := mem_starOrigins.1 h
  exact ⟨e, he, proper.isReExport_of_origin file e he source horigin, horigin⟩

/-- No chain of star re-exports through different files has more steps than are followed. -/
def BoundedStars (table : ExportTable) : Prop :=
  ∀ l : List String, l.IsChain table.StarEdge → l.Nodup → l.length ≤ maxDepth + 1

theorem Proper.boundedStars (proper : table.Proper) (bounded : table.BoundedChains) :
    table.BoundedStars :=
  fun l chain => bounded l (chain.imp fun _ _ => proper.reExportEdge)

/-- The file gives the name itself. -/
def HasOwn (table : ExportTable) (file name : String) : Prop :=
  ∃ e ∈ table.exportsOf file, e.isStar = false ∧ e.name = name

/-- A star re-export of the file passes the name on: some file along the star re-exports has it. -/
def Offers (table : ExportTable) (file name : String) : Prop :=
  name ≠ defaultName ∧ ∃ source, ReflTransGen table.StarEdge file source ∧ table.HasOwn source name

theorem Offers.of_starEdge {file source name : String} (h : table.StarEdge file source)
    (hs : table.Offers source name) : table.Offers file name :=
  ⟨hs.1, hs.2.imp fun _ ho => ⟨ReflTransGen.head h ho.1, ho.2⟩⟩

theorem Offers.ne_starName {file name : String} (h : table.Offers file name) : name ≠ starName := by
  obtain ⟨-, source, -, e, -, hstar, rfl⟩ := h
  simpa [Export.isStar] using hstar

/-- What a walk from one file adds to the files seen and the names found. -/
structure Walked (table : ExportTable) (file : String) (w w' : StarWalk) : Prop where
  grows : ∀ v ∈ w.visited, v ∈ w'.visited
  here : file ∈ w'.visited
  closed : ∀ v ∈ w'.visited, v ∉ w.visited → ∀ s, table.StarEdge v s → s ∈ w'.visited
  reached : ∀ v ∈ w'.visited, v ∉ w.visited → ReflTransGen table.StarEdge file v
  names : ∀ x, x ∈ w'.names ↔ x ∈ w.names ∨
    x ≠ defaultName ∧ ∃ v ∈ w'.visited, v ∉ w.visited ∧ table.HasOwn v x

/-- What some exports of a file add. -/
structure WalkedAll (table : ExportTable) (exports : List Export) (w w' : StarWalk) : Prop where
  grows : ∀ v ∈ w.visited, v ∈ w'.visited
  sources : ∀ s ∈ starOrigins exports, s ∈ w'.visited
  closed : ∀ v ∈ w'.visited, v ∉ w.visited → ∀ s, table.StarEdge v s → s ∈ w'.visited
  reached : ∀ v ∈ w'.visited, v ∉ w.visited →
    ∃ s ∈ starOrigins exports, ReflTransGen table.StarEdge s v
  names : ∀ x, x ∈ w'.names ↔ x ∈ w.names ∨
    x ≠ defaultName ∧ ((∃ e ∈ exports, e.isStar = false ∧ e.name = x) ∨
      ∃ v ∈ w'.visited, v ∉ w.visited ∧ table.HasOwn v x)

theorem Walked.of_visited {file : String} {w : StarWalk} (h : file ∈ w.visited) :
    table.Walked file w w :=
  ⟨fun _ hv => hv, h, fun _ hv hn => absurd hv hn, fun _ hv hn => absurd hv hn, fun x => by
    constructor
    · exact Or.inl
    · rintro (hx | ⟨-, v, hv, hn, -⟩)
      · exact hx
      · exact absurd hv hn⟩

/-- An export that leads nowhere adds at most its own name. -/
theorem WalkedAll.of_no_source {e : Export} {w w' : StarWalk} (hs : starOrigins [e] = [])
    (hv : w'.visited = w.visited)
    (hn : ∀ x, x ∈ w'.names ↔ x ∈ w.names ∨ x ≠ defaultName ∧ e.isStar = false ∧ e.name = x) :
    table.WalkedAll [e] w w' := by
  have new (v : String) (h : v ∈ w'.visited) : ¬ v ∉ w.visited := by
    rw [hv] at h
    exact not_not_intro h
  refine ⟨fun v h => hv ▸ h, fun s h => absurd h (by simp [hs]), fun v h hw => absurd hw (new v h),
    fun v h hw => absurd hw (new v h), fun x => ?_⟩
  rw [hn]
  constructor
  · rintro (h | ⟨hx, he⟩)
    · exact Or.inl h
    · exact Or.inr ⟨hx, Or.inl ⟨e, List.mem_singleton_self e, he⟩⟩
  · rintro (h | ⟨hx, ⟨e', he', he⟩ | ⟨v, h, hw, -⟩⟩)
    · exact Or.inl h
    · exact Or.inr ⟨hx, List.mem_singleton.1 he' ▸ he⟩
    · exact absurd hw (new v h)

theorem WalkedAll.of_walked {e : Export} {source : String} {w w' : StarWalk} (hstar : e.isStar = true)
    (horigin : e.origin = some source) (h : table.Walked source w w') : table.WalkedAll [e] w w' := by
  have hs : starOrigins [e] = [source] := by simp [starOrigins, hstar, horigin]
  refine ⟨h.grows, fun s mem => ?_, h.closed, fun v hv hn => ⟨source, by simp [hs], h.reached v hv hn⟩,
    fun x => ?_⟩
  · rw [hs, List.mem_singleton] at mem
    exact mem ▸ h.here
  · simp [h.names, hstar]

theorem WalkedAll.trans {l l' : List Export} {w w₁ w' : StarWalk} (h : table.WalkedAll l w w₁)
    (h' : table.WalkedAll l' w₁ w') : table.WalkedAll (l ++ l') w w' := by
  have origins : starOrigins (l ++ l') = starOrigins l ++ starOrigins l' := by simp [starOrigins]
  refine ⟨fun v hv => h'.grows v (h.grows v hv), fun s hs => ?_, fun v hv hn s hs => ?_,
    fun v hv hn => ?_, fun x => ?_⟩
  · rw [origins, List.mem_append] at hs
    rcases hs with hs | hs
    · exact h'.grows s (h.sources s hs)
    · exact h'.sources s hs
  · by_cases h₁ : v ∈ w₁.visited
    · exact h'.grows s (h.closed v h₁ hn s hs)
    · exact h'.closed v hv h₁ s hs
  · rw [origins]
    by_cases h₁ : v ∈ w₁.visited
    · obtain ⟨s, hs, hr⟩ := h.reached v h₁ hn
      exact ⟨s, List.mem_append_left _ hs, hr⟩
    · obtain ⟨s, hs, hr⟩ := h'.reached v hv h₁
      exact ⟨s, List.mem_append_right _ hs, hr⟩
  · rw [h'.names, h.names]
    constructor
    · rintro ((hx | ⟨hx, ⟨e, he, hk⟩ | ⟨v, hv, hn, ho⟩⟩) | ⟨hx, ⟨e, he, hk⟩ | ⟨v, hv, hn, ho⟩⟩)
      · exact Or.inl hx
      · exact Or.inr ⟨hx, Or.inl ⟨e, List.mem_append_left _ he, hk⟩⟩
      · exact Or.inr ⟨hx, Or.inr ⟨v, h'.grows v hv, hn, ho⟩⟩
      · exact Or.inr ⟨hx, Or.inl ⟨e, List.mem_append_right _ he, hk⟩⟩
      · exact Or.inr ⟨hx, Or.inr ⟨v, hv, fun hw => hn (h.grows v hw), ho⟩⟩
    · rintro (hx | ⟨hx, ⟨e, he, hk⟩ | ⟨v, hv, hn, ho⟩⟩)
      · exact Or.inl (Or.inl hx)
      · rcases List.mem_append.1 he with he | he
        · exact Or.inl (Or.inr ⟨hx, Or.inl ⟨e, he, hk⟩⟩)
        · exact Or.inr ⟨hx, Or.inl ⟨e, he, hk⟩⟩
      · by_cases h₁ : v ∈ w₁.visited
        · exact Or.inl (Or.inr ⟨hx, Or.inr ⟨v, h₁, hn, ho⟩⟩)
        · exact Or.inr ⟨hx, Or.inr ⟨v, hv, h₁, ho⟩⟩

/-- One export of a file on a walk. -/
theorem walkedAll_export {fuel : Nat} {e : Export} {w : StarWalk}
    (follow : ∀ source, e.isStar = true → e.origin = some source →
      table.Walked source w (walkStars table fuel source w)) :
    table.WalkedAll [e] w
      (if e.isStar then match e.origin with
          | some source => walkStars table fuel source w
          | none => w
        else if e.name == defaultName then w
        else { w with names := w.names.insert e.name }) := by
  cases hstar : e.isStar with
  | true =>
    cases horigin : e.origin with
    | some source =>
      rw [if_pos rfl]
      exact .of_walked hstar horigin (follow source hstar horigin)
    | none =>
      rw [if_pos rfl]
      exact .of_no_source (by simp [starOrigins, hstar, horigin]) rfl (by simp [hstar])
  | false =>
    have hs : starOrigins [e] = [] := by simp [starOrigins, hstar]
    rw [if_neg Bool.false_ne_true]
    by_cases hname : e.name = defaultName
    · rw [if_pos (by simpa using hname)]
      refine .of_no_source hs rfl fun x => ?_
      constructor
      · exact Or.inl
      · rintro (h | ⟨hx, -, rfl⟩)
        · exact h
        · exact absurd hname hx
    · rw [if_neg (by simpa using hname)]
      refine .of_no_source hs rfl fun x => ?_
      simp only [KeySet.mem_insert, hstar, true_and]
      constructor
      · rintro (rfl | h)
        · exact Or.inr ⟨hname, rfl⟩
        · exact Or.inl h
      · rintro (h | ⟨-, rfl⟩)
        · exact Or.inr h
        · exact Or.inl rfl

theorem walkedAll_foldl {fuel : Nat} {stack : List String} (l : List Export) {w : StarWalk}
    (hw : ∀ v ∈ stack, v ∈ w.visited)
    (follow : ∀ e ∈ l, ∀ source w, e.isStar = true → e.origin = some source →
      (∀ v ∈ stack, v ∈ w.visited) → table.Walked source w (walkStars table fuel source w)) :
    table.WalkedAll l w (l.foldl (fun w e =>
      if e.isStar then match e.origin with
          | some source => walkStars table fuel source w
          | none => w
        else if e.name == defaultName then w
        else { w with names := w.names.insert e.name }) w) := by
  induction l generalizing w with
  | nil =>
    refine ⟨fun _ h => h, fun s hs => ?_, fun _ h hn => absurd h hn, fun _ h hn => absurd h hn, fun x => ?_⟩
    · simp [starOrigins] at hs
    · constructor
      · exact Or.inl
      · rintro (h | ⟨-, ⟨e, he, -⟩ | ⟨v, hv, hn, -⟩⟩)
        · exact h
        · cases he
        · exact absurd hv hn
  | cons e rest ih =>
    have first := walkedAll_export fun source hstar horigin =>
      follow e List.mem_cons_self source w hstar horigin hw
    have hw' : ∀ v ∈ stack, v ∈ _ := fun v hv => first.grows v (hw v hv)
    exact first.trans (ih hw' fun e' he' => follow e' (List.mem_cons_of_mem e he'))

/-- A file is walked once all its exports are. -/
theorem WalkedAll.walked {file : String} {w w' : StarWalk} (fresh : file ∉ w.visited)
    (h : table.WalkedAll (table.exportsOf file) { w with visited := file :: w.visited } w') :
    table.Walked file w w' := by
  have here : file ∈ w'.visited := h.grows file List.mem_cons_self
  have other {v : String} (hv : v ≠ file) (hn : v ∉ w.visited) : v ∉ file :: w.visited := by
    rintro (_ | ⟨_, hmem⟩)
    · exact hv rfl
    · exact hn hmem
  refine ⟨fun v hv => h.grows v (List.mem_cons_of_mem file hv), here, fun v hv hn s hs => ?_,
    fun v hv hn => ?_, fun x => ?_⟩
  · by_cases hfile : v = file
    · subst hfile
      exact h.sources s hs
    · exact h.closed v hv (other hfile hn) s hs
  · by_cases hfile : v = file
    · subst hfile
      exact ReflTransGen.refl
    · obtain ⟨s, hs, hr⟩ := h.reached v hv (other hfile hn)
      exact ReflTransGen.head hs hr
  · rw [h.names]
    constructor
    · rintro (hx | ⟨hx, own | ⟨v, hv, hn, ho⟩⟩)
      · exact Or.inl hx
      · exact Or.inr ⟨hx, file, here, fresh, own⟩
      · exact Or.inr ⟨hx, v, hv, fun hw => hn (List.mem_cons_of_mem file hw), ho⟩
    · rintro (hx | ⟨hx, v, hv, hn, ho⟩)
      · exact Or.inl hx
      · by_cases hfile : v = file
        · subst hfile
          exact Or.inr ⟨hx, Or.inl ho⟩
        · exact Or.inr ⟨hx, Or.inr ⟨v, hv, other hfile hn, ho⟩⟩

/-- A walk sees all that star re-exports lead to. The stack holds the files on the way to `file`, the
last one first; together they are a chain of star re-exports, so that the steps suffice. -/
theorem walked_walkStars (bounded : table.BoundedStars) (fuel : Nat) {file : String}
    {stack : List String} {w : StarWalk}
    (chain : (file :: stack).IsChain (flip table.StarEdge)) (nodup : stack.Nodup)
    (hw : ∀ v ∈ stack, v ∈ w.visited) (hfuel : stack.length + fuel = maxDepth + 1) :
    table.Walked file w (walkStars table fuel file w) := by
  induction fuel generalizing file stack w with
  | zero =>
    by_cases seen : file ∈ w.visited
    · exact .of_visited seen
    · -- the stack is as long as chains may get, and this file would make it longer
      have fresh : (file :: stack).Nodup := List.nodup_cons.2 ⟨fun h => seen (hw file h), nodup⟩
      have short := bounded _ (List.isChain_reverse.2 chain) (List.nodup_reverse.2 fresh)
      rw [List.length_reverse, List.length_cons] at short
      omega
  | succ fuel ih =>
    rw [walkStars]
    by_cases seen : file ∈ w.visited
    · rw [if_pos (by simpa using seen)]
      exact .of_visited seen
    · rw [if_neg (by simpa using seen)]
      have fresh : (file :: stack).Nodup := List.nodup_cons.2 ⟨fun h => seen (hw file h), nodup⟩
      have hw' : ∀ v ∈ file :: stack, v ∈ file :: w.visited := by
        intro v hv
        rcases List.mem_cons.1 hv with rfl | hv
        · exact List.mem_cons_self
        · exact List.mem_cons_of_mem file (hw v hv)
      refine WalkedAll.walked seen (walkedAll_foldl _ hw' fun e he source w₁ hstar horigin hw₁ => ?_)
      have edge : table.StarEdge file source := mem_starOrigins.2 ⟨e, he, hstar, horigin⟩
      exact ih (List.isChain_cons_cons.2 ⟨edge, chain⟩) fresh hw₁ (by rw [List.length_cons]; omega)

/-- The names of a star re-export are those that its source offers. -/
theorem mem_starNames (bounded : table.BoundedStars) {file name : String} :
    name ∈ table.starNames file ↔ table.Offers file name := by
  have walked : table.Walked file {} (walkStars table (maxDepth + 1) file {}) :=
    walked_walkStars bounded _ (List.isChain_singleton file) List.nodup_nil
      (fun _ h => absurd h List.not_mem_nil) (by simp)
  have seen {v : String} : v ∈ (walkStars table (maxDepth + 1) file {}).visited ↔
      ReflTransGen table.StarEdge file v := by
    constructor
    · intro h
      exact walked.reached v h List.not_mem_nil
    · intro h
      induction h with
      | refl => exact walked.here
      | tail _ edge ih => exact walked.closed _ ih List.not_mem_nil _ edge
  rw [starNames, KeySet.mem_toList, walked.names]
  simp only [Offers, seen]
  constructor
  · rintro (h | ⟨hx, v, hv, -, ho⟩)
    · exact absurd h (KeySet.not_mem_empty name)
    · exact ⟨hx, v, hv, ho⟩
  · rintro ⟨hx, v, hv, ho⟩
    exact Or.inr ⟨hx, v, hv, List.not_mem_nil, ho⟩

/-! ## Star re-exports expanded -/

/-- Names found along star re-exports are no stars themselves. -/
theorem ne_starName_of_mem_walkStars (fuel : Nat) (file : String) (w : StarWalk)
    (h : ∀ x ∈ w.names, x ≠ starName) : ∀ x ∈ (walkStars table fuel file w).names, x ≠ starName := by
  induction fuel generalizing file w with
  | zero => exact h
  | succ fuel ih =>
    rw [walkStars]
    split_ifs
    · exact h
    · refine List.foldlRecOn (motive := fun w : StarWalk => ∀ x ∈ w.names, x ≠ starName) _ _ h ?_
      intro w hw e _
      split_ifs with hstar hdefault
      · split
        · exact ih _ w hw
        · exact hw
      · exact hw
      · intro x hx
        rcases KeySet.mem_insert.1 hx with rfl | hx
        · simpa [Export.isStar] using hstar
        · exact hw x hx

theorem ne_starName_of_mem_starNames {file name : String} (h : name ∈ table.starNames file) :
    name ≠ starName :=
  ne_starName_of_mem_walkStars _ file {} (fun _ hx => absurd hx (KeySet.not_mem_empty _)) name h

@[simp] theorem fill_name (e : Export) : (table.fill e).name = e.name := by
  unfold fill
  split_ifs
  · split <;> rfl
  · rfl

@[simp] theorem fill_file (e : Export) : (table.fill e).file = e.file := by
  unfold fill
  split_ifs
  · split <;> rfl
  · rfl

@[simp] theorem fill_line (e : Export) : (table.fill e).line = e.line := by
  unfold fill
  split_ifs
  · split <;> rfl
  · rfl

@[simp] theorem fill_isStar (e : Export) : (table.fill e).isStar = e.isStar := by
  rw [Export.isStar, fill_name, Export.isStar]

@[simp] theorem fill_key (e : Export) : (table.fill e).key = e.key := by
  rw [Export.key, fill_name, fill_file, Export.key]

@[simp] theorem starExport_name (file source : String) (line : Nat) (name : String) :
    (table.starExport file source line name).name = name := by
  unfold starExport
  split <;> rfl

@[simp] theorem starExport_file (file source : String) (line : Nat) (name : String) :
    (table.starExport file source line name).file = file := by
  unfold starExport
  split <;> rfl

theorem exists_split_cons {α : Type} {a : α} {l : List α} {P : List α → α → Prop} :
    (∃ before x after, a :: l = before ++ x :: after ∧ P before x) ↔
      P [] a ∨ ∃ before x after, l = before ++ x :: after ∧ P (a :: before) x := by
  constructor
  · rintro ⟨before, x, after, hl, h⟩
    cases before with
    | nil =>
      obtain ⟨rfl, -⟩ := List.cons.inj hl
      exact Or.inl h
    | cons b before =>
      obtain ⟨rfl, rfl⟩ := List.cons.inj hl
      exact Or.inr ⟨before, x, after, rfl, h⟩
  · rintro (h | ⟨before, x, after, rfl, h⟩)
    · exact ⟨[], a, l, rfl, h⟩
    · exact ⟨a :: before, x, after, rfl, h⟩

/-- Which names the star re-exports of a list add to those found before. -/
theorem mem_foldl_starExports {file : String} {own : List String} (l : List Export)
    (found : List (String × Export)) {p : String × Export} :
    p ∈ l.foldl (fun found e =>
        match e.origin with
        | none => found
        | some source =>
          let taken := own ++ found.map (·.2.name)
          found ++ ((table.starNames source).filter (!taken.contains ·)).map fun name =>
            (source, table.starExport file source e.line name)) found ↔
      p ∈ found ∨ p.2.name ∉ own ∧ p.2.name ∉ found.map (·.2.name) ∧
        ∃ before e after, l = before ++ e :: after ∧ e.origin = some p.1 ∧
          p.2.name ∈ table.starNames p.1 ∧ p.2 = table.starExport file p.1 e.line p.2.name ∧
          ∀ e' ∈ before, ∀ source, e'.origin = some source → p.2.name ∉ table.starNames source := by
  induction l generalizing found with
  | nil => simp
  | cons e rest ih =>
    rw [List.foldl_cons, ih, exists_split_cons]
    simp only [List.forall_mem_cons]
    cases horigin : e.origin with
    | none => simp
    | some source =>
      have added : p ∈ ((table.starNames source).filter
            (!(own ++ found.map (·.2.name)).contains ·)).map
              (fun name => (source, table.starExport file source e.line name)) ↔
          p.1 = source ∧ p.2.name ∈ table.starNames source ∧ p.2.name ∉ own ∧
            p.2.name ∉ found.map (·.2.name) ∧ p.2 = table.starExport file p.1 e.line p.2.name := by
        rw [List.mem_map]
        constructor
        · rintro ⟨name, hname, rfl⟩
          simpa [and_assoc] using hname
        · rintro ⟨rfl, hname, hown, hfound, heq⟩
          refine ⟨p.2.name, ?_, Prod.ext rfl heq.symm⟩
          simpa [hname, hown] using hfound
      have names : p.2.name ∈ (((table.starNames source).filter
            (!(own ++ found.map (·.2.name)).contains ·)).map
              (fun name => (source, table.starExport file source e.line name))).map (·.2.name) ↔
          p.2.name ∈ table.starNames source ∧ p.2.name ∉ own ∧ p.2.name ∉ found.map (·.2.name) := by
        simp [List.map_map, Function.comp_def]
      simp only [List.map_append, List.mem_append, added, names, Option.some_inj, forall_eq']
      constructor
      · rintro ((h | ⟨rfl, hname, hown, hfound, heq⟩) | ⟨hown, hnot, before, e₁, after, hl, h₁, h₂, h₃, none⟩)
        · exact Or.inl h
        · exact Or.inr ⟨hown, hfound, Or.inl ⟨rfl, hname, heq, fun _ h => absurd h List.not_mem_nil⟩⟩
        · have hfound : p.2.name ∉ found.map (·.2.name) := fun h => hnot (Or.inl h)
          refine Or.inr ⟨hown, hfound, Or.inr ⟨before, e₁, after, hl, h₁, h₂, h₃, ?_, none⟩⟩
          exact fun h => hnot (Or.inr ⟨h, hown, hfound⟩)
      · rintro (h | ⟨hown, hfound, ⟨rfl, hname, heq, -⟩ | ⟨before, e₁, after, hl, h₁, h₂, h₃, away, none⟩⟩)
        · exact Or.inl (Or.inl h)
        · exact Or.inl (Or.inr ⟨rfl, hname, hown, hfound, heq⟩)
        · refine Or.inr ⟨hown, ?_, before, e₁, after, hl, h₁, h₂, h₃, none⟩
          rintro (h | ⟨h, -⟩)
          · exact hfound h
          · exact away h

theorem mem_starExports {file : String} {exports : List Export} {p : String × Export} :
    p ∈ table.starExports file exports ↔ p.2.name ∉ (exports.filter (!·.isStar)).map (·.name) ∧
      ∃ before e after, (exports.filter fun e => e.isReExport && e.isStar) = before ++ e :: after ∧
        e.origin = some p.1 ∧ p.2.name ∈ table.starNames p.1 ∧
        p.2 = table.starExport file p.1 e.line p.2.name ∧
        ∀ e' ∈ before, ∀ source, e'.origin = some source → p.2.name ∉ table.starNames source := by
  refine (mem_foldl_starExports _ _).trans ?_
  constructor
  · rintro (h | ⟨hown, -, h⟩)
    · cases h
    · exact ⟨hown, h⟩
  · rintro ⟨hown, h⟩
    exact Or.inr ⟨hown, List.not_mem_nil, h⟩

/-- Of the sources in their order, `source` is the first that offers the name. -/
def FirstOffer (table : ExportTable) (sources : List String) (name source : String) : Prop :=
  ∃ before after, sources = before ++ source :: after ∧ table.Offers source name ∧
    ∀ s ∈ before, ¬ table.Offers s name

theorem FirstOffer.exists {sources : List String} {name s : String} (hs : s ∈ sources)
    (offers : table.Offers s name) : ∃ source, table.FirstOffer sources name source := by
  induction sources with
  | nil => cases hs
  | cons t rest ih =>
    by_cases first : table.Offers t name
    · exact ⟨t, [], rest, rfl, first, fun _ h => absurd h List.not_mem_nil⟩
    · have hrest : s ∈ rest := by
        rcases List.mem_cons.1 hs with rfl | hs
        · exact absurd offers first
        · exact hs
      obtain ⟨source, before, after, rfl, hsource, none⟩ := ih hrest
      refine ⟨source, t :: before, after, rfl, hsource, fun s' hs' => ?_⟩
      rcases List.mem_cons.1 hs' with rfl | hs'
      · exact first
      · exact none s' hs'

theorem FirstOffer.mem {sources : List String} {name source : String}
    (h : table.FirstOffer sources name source) : source ∈ sources := by
  obtain ⟨before, after, rfl, -⟩ := h
  simp

theorem FirstOffer.offers {sources : List String} {name source : String}
    (h : table.FirstOffer sources name source) : table.Offers source name := by
  obtain ⟨before, after, -, offers, -⟩ := h
  exact offers

/-- The origins of the star re-exports that are expanded. -/
def expandedOrigins (exports : List Export) : List String :=
  (exports.filter fun e => e.isReExport && e.isStar).filterMap (·.origin)

theorem Proper.starOrigins_eq (proper : table.Proper) (file : String) :
    starOrigins (table.exportsOf file) = expandedOrigins (table.exportsOf file) := by
  have h := proper.isReExport_of_origin file
  unfold starOrigins expandedOrigins
  rw [List.filterMap_filter, List.filterMap_filter]
  refine List.filterMap_congr fun e he => ?_
  cases horigin : e.origin with
  | none => simp
  | some source => simp [h e he source horigin]

theorem hasOwn_iff {file name : String} :
    table.HasOwn file name ↔ name ∈ ((table.exportsOf file).filter (!·.isStar)).map (·.name) := by
  simp [HasOwn, and_assoc]

instance (file name : String) : Decidable (table.HasOwn file name) :=
  decidable_of_iff _ hasOwn_iff.symm

/-- A file takes a name by a star re-export from the first source that offers it. -/
theorem exists_mem_starExports (bounded : table.BoundedStars) {file source name : String} :
    (∃ e, (source, e) ∈ table.starExports file (table.exportsOf file) ∧ e.name = name) ↔
      ¬ table.HasOwn file name ∧ table.FirstOffer (expandedOrigins (table.exportsOf file)) name source := by
  rw [hasOwn_iff]
  simp only [mem_starExports, mem_starNames bounded, expandedOrigins]
  constructor
  · rintro ⟨e, ⟨hown, before, e₁, after, hl, h₁, h₂, -, none⟩, rfl⟩
    refine ⟨hown, before.filterMap (·.origin), after.filterMap (·.origin), by simp [hl, h₁], h₂,
      fun s hs => ?_⟩
    obtain ⟨e', he', hs⟩ := List.mem_filterMap.1 hs
    exact none e' he' s hs
  · rintro ⟨hown, before, after, hl, offers, none⟩
    obtain ⟨l₁, l₂, hl, rfl, hl₂⟩ := List.filterMap_eq_append_iff.1 hl
    obtain ⟨m, e, rest, rfl, hm, he, -⟩ := List.filterMap_eq_cons_iff.1 hl₂
    refine ⟨table.starExport file source e.line name, ?_, starExport_name file source e.line name⟩
    simp only [starExport_name]
    refine ⟨hown, l₁ ++ m, e, rest, by simpa using hl, he, offers, rfl, fun e' he' s hs => ?_⟩
    rcases List.mem_append.1 he' with he' | he'
    · exact none s (List.mem_filterMap.2 ⟨e', he', hs⟩)
    · rw [hm e' he'] at hs
      cases hs

theorem Proper.exists_mem_starExports (proper : table.Proper) (bounded : table.BoundedChains)
    {file source name : String} :
    (∃ e, (source, e) ∈ table.starExports file (table.exportsOf file) ∧ e.name = name) ↔
      ¬ table.HasOwn file name ∧ table.FirstOffer (starOrigins (table.exportsOf file)) name source := by
  rw [proper.starOrigins_eq, ExportTable.exists_mem_starExports (proper.boundedStars bounded)]

theorem isStar_of_mem_starExports {file : String} {exports : List Export} {p : String × Export}
    (h : p ∈ table.starExports file exports) : p.2.isStar = false := by
  obtain ⟨-, _, _, _, -, -, hname, -, -⟩ := mem_starExports.1 h
  simpa [Export.isStar] using ne_starName_of_mem_starNames hname

theorem file_of_mem_starExports {file : String} {exports : List Export} {p : String × Export}
    (h : p ∈ table.starExports file exports) : p.2.file = file := by
  obtain ⟨-, _, _, _, -, -, -, heq, -⟩ := mem_starExports.1 h
  rw [heq, starExport_file]

/-! ## Links -/

/-- What the links record: `file` passes on a name under which `source` exports something. A named
re-export does so, a namespace does it for all names of its source, and a star re-export for the names
that no earlier one offers. -/
inductive PassesOn (table : ExportTable) : String × String → String × String → Prop
  | named {file source : String} {e : Export} : e ∈ table.exportsOf file → e.isReExport = true →
      e.isStar = false → e.origin = some source → e.sourceName ≠ starName →
      PassesOn table (file, e.name) (source, e.sourceName)
  | whole {file source name : String} {e : Export} : e ∈ table.exportsOf file → e.isReExport = true →
      e.isStar = false → e.origin = some source → e.sourceName = starName → table.Offers source name →
      PassesOn table (file, e.name) (source, name)
  | star {file source name : String} : ¬ table.HasOwn file name →
      table.FirstOffer (starOrigins (table.exportsOf file)) name source →
      PassesOn table (file, name) (source, name)

/-- The links on keys. -/
def Linked (table : ExportTable) (key source : String) : Prop :=
  ∃ s t : String × String, table.PassesOn s t ∧ symbolKey s.1 s.2 = key ∧ symbolKey t.1 t.2 = source

theorem mem_namedLinks (proper : table.Proper) (bounded : table.BoundedChains) {file : String}
    {e : Export} (he : e ∈ table.exportsOf file) {l : Link} :
    l ∈ table.namedLinks e ↔ e.isReExport = true ∧ e.isStar = false ∧ ∃ source, e.origin = some source ∧
      l.target = symbolKey file e.name ∧
      (e.sourceName ≠ starName ∧ l.source = symbolKey source e.sourceName ∨
        e.sourceName = starName ∧ ∃ name, table.Offers source name ∧ l.source = symbolKey source name) := by
  have key : e.key = symbolKey file e.name := by rw [Export.key, proper.file_eq file e he]
  unfold namedLinks
  by_cases h : e.isReExport = true ∧ e.isStar = false
  · rw [if_pos (by simp [h])]
    cases horigin : e.origin with
    | none => simp
    | some source =>
      by_cases hstar : e.sourceName = starName
      · simp only [hstar, beq_self_eq_true, ↓reduceIte, List.mem_map,
          mem_starNames (proper.boundedStars bounded), key, h, true_and, Option.some_inj, ne_eq, not_true, false_and, false_or]
        constructor
        · rintro ⟨name, offers, rfl⟩
          exact ⟨source, rfl, rfl, name, offers, rfl⟩
        · rintro ⟨_, rfl, target, name, offers, hsource⟩
          exact ⟨name, offers, by cases l; simp_all⟩
      · simp only [beq_iff_eq, hstar, ↓reduceIte, List.mem_singleton, key, h, true_and, Option.some_inj,
          ne_eq, not_false_eq_true, false_and, or_false]
        constructor
        · rintro rfl
          exact ⟨source, rfl, rfl, rfl⟩
        · rintro ⟨_, rfl, target, hsource⟩
          cases l
          simp_all
  · rw [if_neg (by simpa using h)]
    constructor
    · intro hl
      cases hl
    · rintro ⟨h₁, h₂, -⟩
      exact absurd ⟨h₁, h₂⟩ h

theorem mem_flatMap_namedLinks {l : Link} :
    l ∈ table.values.flatMap (fun exports => exports.flatMap table.namedLinks) ↔
      ∃ file, ∃ e ∈ table.exportsOf file, l ∈ table.namedLinks e := by
  simp only [List.mem_flatMap, KeyMap.mem_values]
  constructor
  · rintro ⟨exports, ⟨file, hfile⟩, e, he, hl⟩
    exact ⟨file, e, mem_exportsOf.2 ⟨exports, hfile, he⟩, hl⟩
  · rintro ⟨file, e, he, hl⟩
    obtain ⟨exports, hfile, he⟩ := mem_exportsOf.1 he
    exact ⟨exports, ⟨file, hfile⟩, e, he, hl⟩

theorem mem_flatMap_expansions {l : Link} :
    l ∈ table.expansions.values.flatMap
        (fun added => added.map fun (source, e) => Link.mk (symbolKey source e.name) e.key) ↔
      ∃ file source e, (source, e) ∈ table.starExports file (table.exportsOf file) ∧
        l = ⟨symbolKey source e.name, symbolKey file e.name⟩ := by
  simp only [List.mem_flatMap, KeyMap.mem_values, List.mem_map, expansions, KeyMap.get?_map,
    Option.map_eq_some_iff]
  constructor
  · rintro ⟨_, ⟨file, exports, hfile, rfl⟩, ⟨source, e⟩, he, rfl⟩
    refine ⟨file, source, e, by rwa [exportsOf, hfile], ?_⟩
    rw [Export.key, file_of_mem_starExports he]
  · rintro ⟨file, source, e, he, rfl⟩
    cases hfile : table.get? file with
    | none =>
      rw [exportsOf, hfile] at he
      cases he
    | some exports =>
      rw [exportsOf, hfile] at he
      refine ⟨_, ⟨file, exports, hfile, rfl⟩, (source, e), he, ?_⟩
      change Link.mk _ (symbolKey e.file e.name) = _
      rw [file_of_mem_starExports he]

/-- The links of a project are what its re-exports pass on. -/
theorem mem_links (proper : table.Proper) (bounded : table.BoundedChains) {key source : String} :
    key ∈ (table.links.get? source).getD .empty ↔ table.Linked key source := by
  refine (KeySet.mem_getD_foldl_upsert Link.source Link.target _ _ _ _).trans ?_
  simp only [KeyMap.get?_empty, Option.getD_none, KeySet.not_mem_empty, false_or, List.mem_append,
    mem_flatMap_namedLinks, mem_flatMap_expansions]
  constructor
  · rintro ⟨l, ⟨file, e, he, hl⟩ | ⟨file, from_, e, he, rfl⟩, rfl, rfl⟩
    · obtain ⟨h₁, h₂, from_, horigin, target, ⟨hname, hsource⟩ | ⟨hname, name, offers, hsource⟩⟩ :=
        (mem_namedLinks proper bounded he).1 hl
      · exact ⟨_, _, .named he h₁ h₂ horigin hname, target.symm, hsource.symm⟩
      · exact ⟨_, _, .whole he h₁ h₂ horigin hname offers, target.symm, hsource.symm⟩
    · obtain ⟨hown, first⟩ := (proper.exists_mem_starExports bounded).1 ⟨e, he, rfl⟩
      exact ⟨_, _, .star hown first, rfl, rfl⟩
  · rintro ⟨s, t, passes, rfl, rfl⟩
    cases passes with
    | named he h₁ h₂ horigin hname =>
      exact ⟨⟨_, _⟩, Or.inl ⟨_, _, he, (mem_namedLinks proper bounded he).2
        ⟨h₁, h₂, _, horigin, rfl, Or.inl ⟨hname, rfl⟩⟩⟩, rfl, rfl⟩
    | whole he h₁ h₂ horigin hname offers =>
      exact ⟨⟨_, _⟩, Or.inl ⟨_, _, he, (mem_namedLinks proper bounded he).2
        ⟨h₁, h₂, _, horigin, rfl, Or.inr ⟨hname, _, offers, rfl⟩⟩⟩, rfl, rfl⟩
    | star hown first =>
      obtain ⟨e, he, rfl⟩ := (proper.exists_mem_starExports bounded).2 ⟨hown, first⟩
      exact ⟨⟨_, _⟩, Or.inr ⟨_, _, e, he, rfl⟩, rfl, rfl⟩

/-! ## Following names -/

/-- The export by which a file gives a name itself. -/
def own? (table : ExportTable) (file name : String) : Option Export :=
  (table.exportsOf file).find? fun e => e.name == name && !e.isStar

theorem own?_eq_some {file name : String} {e : Export} (h : table.own? file name = some e) :
    e ∈ table.exportsOf file ∧ e.name = name ∧ e.isStar = false := by
  have found := List.find?_some h
  simp only [Bool.and_eq_true, beq_iff_eq, Bool.not_eq_true'] at found
  exact ⟨List.mem_of_find?_eq_some h, found⟩

theorem own?_eq_none {file name : String} : table.own? file name = none ↔ ¬ table.HasOwn file name := by
  simp only [own?, List.find?_eq_none, Bool.and_eq_true, beq_iff_eq, Bool.not_eq_true', HasOwn,
    not_exists, not_and]
  exact ⟨fun h e he hstar hname => h e he hname hstar, fun h e he hname hstar => h e he hstar hname⟩

/-- The names of other files that a name of a file may stand for: that of its own re-export, or the same
name in the sources of its star re-exports, which never pass on a default. -/
def hops (table : ExportTable) (s : String × String) : List (String × String) :=
  match table.own? s.1 s.2 with
  | some e =>
    if e.isReExport && e.sourceName != starName then e.origin.toList.map fun source => (source, e.sourceName)
    else []
  | none =>
    if s.2 == defaultName then []
    else (starOrigins (table.exportsOf s.1)).map fun source => (source, s.2)

def Hop (table : ExportTable) (s t : String × String) : Prop := t ∈ table.hops s

/-- The file itself declares the name, or makes it a namespace. -/
def declares (table : ExportTable) (s : String × String) : Bool :=
  (table.own? s.1 s.2).any fun e => !e.isReExport || e.sourceName == starName

theorem declares_iff {s : String × String} : table.declares s = true ↔
    ∃ e, table.own? s.1 s.2 = some e ∧ (e.isReExport = false ∨ e.sourceName = starName) := by
  unfold declares
  cases table.own? s.1 s.2 <;> simp

/-- Following a name of a file, for one step at least, leads to one declaration and to no other. -/
def SoleOrigin (table : ExportTable) (s t : String × String) : Prop :=
  ∀ t', TransGen table.Hop s t' ∧ table.declares t' = true ↔ t' = t

theorem hop_cases {s t : String × String} (h : table.Hop s t) :
    (∃ e, table.own? s.1 s.2 = some e ∧ e.isReExport = true ∧ e.sourceName ≠ starName ∧
      e.origin = some t.1 ∧ t.2 = e.sourceName) ∨
    ¬ table.HasOwn s.1 s.2 ∧ s.2 ≠ defaultName ∧ table.StarEdge s.1 t.1 ∧ t.2 = s.2 := by
  unfold Hop hops at h
  cases hown : table.own? s.1 s.2 with
  | some e =>
    rw [hown] at h
    change t ∈ (if _ then _ else _) at h
    split_ifs at h with hre
    · simp only [Bool.and_eq_true, bne_iff_ne, ne_eq] at hre
      obtain ⟨source, hsource, rfl⟩ := List.mem_map.1 h
      exact Or.inl ⟨e, rfl, hre.1, hre.2, Option.mem_toList.1 hsource, rfl⟩
    · cases h
  | none =>
    rw [hown] at h
    change t ∈ (if _ then _ else _) at h
    split_ifs at h with hdefault
    · cases h
    · obtain ⟨source, hsource, rfl⟩ := List.mem_map.1 h
      exact Or.inr ⟨own?_eq_none.1 hown, by simpa using hdefault, hsource, rfl⟩

theorem hop_star {file name source : String} (hown : ¬ table.HasOwn file name)
    (hdefault : name ≠ defaultName) (edge : table.StarEdge file source) :
    table.Hop (file, name) (source, name) := by
  unfold Hop hops
  rw [own?_eq_none.2 hown]
  change _ ∈ (if _ then _ else _)
  rw [if_neg (by simpa using hdefault)]
  exact List.mem_map.2 ⟨source, edge, rfl⟩

/-- A name that leads to a declaration is offered. -/
theorem offers_of_reaches {s t : String × String} (h : ReflTransGen table.Hop s t)
    (ht : table.declares t = true) (hs : s.2 ≠ defaultName) : table.Offers s.1 s.2 := by
  have own {s : String × String} {e : Export} (hs : s.2 ≠ defaultName)
      (he : table.own? s.1 s.2 = some e) : table.Offers s.1 s.2 := by
    obtain ⟨mem, hname, hstar⟩ := own?_eq_some he
    exact ⟨hs, s.1, ReflTransGen.refl, e, mem, hstar, hname⟩
  induction h using ReflTransGen.head_induction_on with
  | refl =>
    obtain ⟨e, he, -⟩ := declares_iff.1 ht
    exact own hs he
  | head hop _ ih =>
    rcases hop_cases hop with ⟨e, he, -⟩ | ⟨-, -, edge, hname⟩
    · exact own hs he
    · have offers := ih (by rwa [hname])
      rw [hname] at offers
      exact .of_starEdge edge offers

/-- Some names that are closed under following hold one declaration. -/
theorem soleOrigin_of_closed {s t : String × String} (found : List (String × String))
    (closed : ∀ x ∈ s :: found, ∀ y ∈ table.hops x, y ∈ found) (leads : TransGen table.Hop s t)
    (declared : table.declares t = true) (only : ∀ x ∈ found, table.declares x = true → x = t) :
    table.SoleOrigin s t := by
  have stays {x : String × String} (h : TransGen table.Hop s x) : x ∈ found := by
    induction h with
    | single hop => exact closed s List.mem_cons_self _ hop
    | tail _ hop ih => exact closed _ (List.mem_cons_of_mem s ih) _ hop
  intro x
  constructor
  · rintro ⟨h, hx⟩
    exact only x (stays h) hx
  · rintro rfl
    exact ⟨leads, declared⟩

/-- The name of stars stands for no symbol. -/
theorem SoleOrigin.ne_starName {s t : String × String} (h : table.SoleOrigin s t) : s.2 ≠ starName := by
  intro hs
  obtain ⟨leads, declared⟩ := (h t).2 rfl
  have nameless {s : String × String} (hs : s.2 = starName) : table.own? s.1 s.2 = none := by
    rw [own?_eq_none]
    rintro ⟨e, -, hstar, hname⟩
    simp [Export.isStar, hname, hs] at hstar
  have step {s t : String × String} (hop : table.Hop s t) (hs : s.2 = starName) : t.2 = starName := by
    rcases hop_cases hop with ⟨e, he, -⟩ | ⟨-, -, -, same⟩
    · rw [nameless hs] at he
      cases he
    · exact same.trans hs
  have stays {t : String × String} (leads : TransGen table.Hop s t) : t.2 = starName := by
    induction leads with
    | single hop => exact step hop hs
    | tail _ hop ih => exact step hop ih
  obtain ⟨e, he, -⟩ := declares_iff.1 declared
  rw [nameless (stays leads)] at he
  cases he

theorem nodup_of_acyclic (acyclic : ∀ file, ¬ TransGen table.ReExportEdge file file) {l : List String}
    (chain : l.IsChain table.ReExportEdge) : l.Nodup := by
  have far : l.Pairwise (TransGen table.ReExportEdge) :=
    (chain.imp fun _ _ h => TransGen.single h).pairwise
  refine far.imp fun {a b} h heq => ?_
  subst heq
  exact acyclic a h

/-- Where re-exports run in no circle and every name that a star source offers leads to a declaration,
all names are passed on from where they are declared. -/
theorem passesOn_of_acyclic (bounded : table.BoundedChains) (proper : table.Proper)
    (acyclic : ∀ file, ¬ TransGen table.ReExportEdge file file) {s t : String × String}
    (sole : table.SoleOrigin s t)
    (alive : ∀ file name source, ReflTransGen table.Hop s (file, name) → table.StarEdge file source →
      table.Offers source name → ∃ t', ReflTransGen table.Hop (source, name) t' ∧ table.declares t' = true) :
    ReflTransGen table.PassesOn s t := by
  obtain ⟨leads, declared⟩ := (sole t).2 rfl
  -- the files passed through are a chain, which leaves only so many steps
  have walk (steps : Nat) : ∀ (file name : String) (stack : List String),
      (file :: stack).IsChain (flip table.ReExportEdge) → stack.length + steps = maxDepth + 1 →
      ReflTransGen table.Hop s (file, name) → ReflTransGen table.Hop (file, name) t →
      ReflTransGen table.PassesOn (file, name) t := by
    induction steps with
    | zero =>
      intro file name stack chain hsteps _ _
      have forth : (file :: stack).reverse.IsChain table.ReExportEdge := List.isChain_reverse.2 chain
      have short := bounded _ forth (nodup_of_acyclic acyclic forth)
      rw [List.length_reverse, List.length_cons] at short
      omega
    | succ steps ih =>
      intro file name stack chain hsteps reached leads
      rcases ReflTransGen.cases_head leads with rfl | ⟨⟨source, name'⟩, hop, rest⟩
      · exact ReflTransGen.refl
      have hsteps' : (file :: stack).length + steps = maxDepth + 1 := by
        rw [List.length_cons]
        omega
      rcases hop_cases hop with ⟨e, he, hre, hname, horigin, rfl⟩ | ⟨hown, hdefault, edge, same⟩
      · obtain ⟨mem, rfl, hstar⟩ := own?_eq_some he
        have edge : table.ReExportEdge file source := ⟨e, mem, hre, horigin⟩
        exact ReflTransGen.head (.named mem hre hstar horigin hname) (ih source _ _
          (List.isChain_cons_cons.2 ⟨edge, chain⟩) hsteps' (reached.tail hop) rest)
      · -- another source may offer the name first, but that one leads to the same declaration
        obtain rfl : name = name' := same.symm
        have offered : table.Offers source name := offers_of_reaches rest declared hdefault
        obtain ⟨first, hfirst⟩ := FirstOffer.exists edge offered
        have firstHop : table.Hop (file, name) (first, name) := hop_star hown hdefault hfirst.mem
        obtain ⟨t', leads', declared'⟩ := alive file name first reached hfirst.mem hfirst.offers
        have far : TransGen table.Hop s t' := (TransGen.tail' reached firstHop).trans_left leads'
        obtain rfl : t' = t := (sole t').1 ⟨far, declared'⟩
        exact ReflTransGen.head (.star hown hfirst) (ih first name _
          (List.isChain_cons_cons.2 ⟨proper.reExportEdge hfirst.mem, chain⟩) hsteps'
          (reached.tail firstHop) leads')
  exact walk (maxDepth + 1) s.1 s.2 [] (List.isChain_singleton s.1) (Nat.zero_add _) ReflTransGen.refl
    leads.to_reflTransGen

end SymbolGraph.ExportTable
