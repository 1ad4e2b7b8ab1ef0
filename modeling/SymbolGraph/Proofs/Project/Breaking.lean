import SymbolGraph.Project.Breaking
import SymbolGraph.Proofs.Project.Build

/-!
# Exports compared with themselves

An export is compared with the last one of the same key. Where a file exports a name several times, as
with the overloads of a function, those before the last are held against the last one, so exports can
differ from themselves.
-/
namespace SymbolGraph

/-- Of the exports with one key the one that counts: no export with its key follows. -/
def IsLastOfKey (l : List Export) (e : Export) : Prop :=
  ∃ before after, l = before ++ e :: after ∧ e.isStar = false ∧
    ∀ f ∈ after, f.isStar = false → f.key ≠ e.key

/-- The exports have one kind, and one signature as far as both are known. -/
structure Export.Agrees (e f : Export) : Prop where
  kind_eq : e.kind = f.kind
  signature_eq : ∀ s t, e.signature = some s → f.signature = some t → s = t

/-- Every export agrees with the last one of its key. -/
def AgreeWithLast (l : List Export) : Prop :=
  ∀ e ∈ l, e.isStar = false → ∀ f, IsLastOfKey l f → f.key = e.key → e.Agrees f

theorem Export.changeTo_eq_none {e f : Export} : e.changeTo (some f) = none ↔ e.Agrees f := by
  rw [changeTo]
  split
  · rename_i ne
    exact iff_of_false (by simp) fun h => ne h.kind_eq
  · rename_i same
    have same : e.kind = f.kind := not_not.1 same
    split
    · rename_i old new hold hnew
      have one : e.Agrees f ↔ old = new :=
        ⟨fun h => h.signature_eq old new hold hnew, fun h => ⟨same, fun s t hs ht => by grind⟩⟩
      rw [one]
      split <;> simp_all
    · rename_i unknown
      exact iff_of_true rfl ⟨same, fun s t hs ht => (unknown s t hs ht).elim⟩

theorem get?_exportsByKey {l : List Export} {k : String} {f : Export} :
    (exportsByKey l).get? k = some f ↔ IsLastOfKey l f ∧ f.key = k := by
  have found : (exportsByKey l).get? k = l.reverse.find? fun e => !e.isStar && decide (e.key = k) := by
    simp [exportsByKey, KeyMap.get?_ofList, ← List.map_reverse, List.find?_map, List.find?_filter,
      ← List.filter_reverse, Function.comp_def]
  rw [found, List.find?_eq_some_iff_append]
  constructor
  · rintro ⟨hf, after, before, hl, hafter⟩
    simp only [Bool.and_eq_true, Bool.not_eq_true', decide_eq_true_eq] at hf
    obtain ⟨hstar, rfl⟩ := hf
    refine ⟨⟨before.reverse, after.reverse, by simpa using congrArg List.reverse hl, hstar, ?_⟩, rfl⟩
    intro e he hestar same
    simpa [hestar, same] using hafter e (List.mem_reverse.1 he)
  · rintro ⟨⟨before, after, rfl, hstar, last⟩, rfl⟩
    refine ⟨by simp [hstar], after.reverse, before.reverse, by simp, fun e he => ?_⟩
    cases hestar : e.isStar with
    | true => rfl
    | false => simpa [hestar] using last e (List.mem_reverse.1 he) hestar

theorem exists_get?_exportsByKey {l : List Export} {e : Export} (he : e ∈ l) (hstar : e.isStar = false) :
    ∃ f, (exportsByKey l).get? e.key = some f := by
  rw [← KeyMap.mem_keys, exportsByKey, KeyMap.mem_keys_ofList, List.map_map]
  exact List.mem_map.2 ⟨e, List.mem_filter.2 ⟨he, by simp [hstar]⟩, rfl⟩

theorem mem_compareExports {old new : List Export} {c : BreakingChange} : c ∈ compareExports old new ↔
    ∃ e ∈ old, e.isStar = false ∧ e.changeTo ((exportsByKey new).get? e.key) = some c := by
  simp [compareExports, List.mem_filterMap, and_assoc]

/-- What a list of exports compared with itself reports: how an export differs from the last one of
its key. -/
theorem mem_compareExports_self {l : List Export} {c : BreakingChange} : c ∈ compareExports l l ↔
    ∃ e ∈ l, e.isStar = false ∧ ∃ f, IsLastOfKey l f ∧ f.key = e.key ∧ e.changeTo (some f) = some c := by
  rw [mem_compareExports]
  constructor
  · rintro ⟨e, he, hstar, hc⟩
    obtain ⟨f, hf⟩ := exists_get?_exportsByKey he hstar
    rw [hf] at hc
    obtain ⟨last, hkey⟩ := get?_exportsByKey.1 hf
    exact ⟨e, he, hstar, f, last, hkey, hc⟩
  · rintro ⟨e, he, hstar, f, last, hkey, hc⟩
    refine ⟨e, he, hstar, ?_⟩
    rw [get?_exportsByKey.2 ⟨last, hkey⟩, hc]

theorem compareExports_self_eq_nil {l : List Export} : compareExports l l = [] ↔ AgreeWithLast l := by
  rw [List.eq_nil_iff_forall_not_mem]
  constructor
  · intro none e he hstar f last hkey
    refine Export.changeTo_eq_none.1 (Option.eq_none_iff_forall_ne_some.2 fun c hc => none c ?_)
    exact mem_compareExports_self.2 ⟨e, he, hstar, f, last, hkey, hc⟩
  · intro agree c hc
    obtain ⟨e, he, hstar, f, last, hkey, hc⟩ := mem_compareExports_self.1 hc
    rw [Export.changeTo_eq_none.2 (agree e he hstar f last hkey)] at hc
    cases hc

/-- Exports compared with themselves show how those that are not the last of their key differ from the
last one, and nothing else. So nothing is reported exactly if all exports agree with the last one of
their key. The same goes for an analysis, by the exports of all its files. -/
theorem self_comparison_shows_overloads (l : List Export) (a : ProjectAnalysis) :
    (∀ c, c ∈ compareExports l l ↔ ∃ e ∈ l, e.isStar = false ∧
      ∃ f, IsLastOfKey l f ∧ f.key = e.key ∧ e.changeTo (some f) = some c) ∧
    (compareExports l l = [] ↔ AgreeWithLast l) ∧
    (compareAnalyses a a = [] ↔ AgreeWithLast a.allExports) :=
  ⟨fun _ => mem_compareExports_self, compareExports_self_eq_nil, compareExports_self_eq_nil⟩

/-- The first two of three overloads count as changed into the third. -/
theorem overloads_differ_from_themselves :
    let text := "export function f(a: string): void;\nexport function f(a: number): void;\nexport function f(a: any) \x7b\x7d\n"
    let p := ProjectAnalysis.ofFiles { rootDir := "/r" } ["a.ts"] [.script "a.ts" text]
    compareAnalyses p p =
      [⟨.signatureChanged, "a.ts", "f", some "(a: string): void", some "(a: any)"⟩,
        ⟨.signatureChanged, "a.ts", "f", some "(a: number): void", some "(a: any)"⟩] := by
  decide +kernel

end SymbolGraph
