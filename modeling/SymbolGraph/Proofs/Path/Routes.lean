import SymbolGraph.Proofs.Path

/-!
# Routes of relative paths

Whatever directory it is seen from, a relative path goes a number of levels up and then down along
names. Its route says which; where it leads depends on the path through the route alone. So a path
that is joined of two can be walked in two parts, with a text in between.
-/
namespace SymbolGraph.Path
open Text

/-- Up by a number of levels, then down along names. -/
structure Route where
  climb : Nat
  names : List String
  proper : ∀ s ∈ names, s ∉ ["", ".", ".."]

namespace Route

def stay : Route := ⟨0, [], fun _ h => nomatch h⟩

/-- The route behind which one more segment is walked. -/
def step (r : Route) (segment : String) : Route :=
  if skipped : segment = "" ∨ segment = "." then r
  else if up : segment = ".." then
    if r.names = [] then { r with climb := r.climb + 1 }
    else ⟨r.climb, r.names.dropLast, fun s hs => r.proper s ((List.dropLast_sublist _).subset hs)⟩
  else ⟨r.climb, r.names ++ [segment], by
    intro s hs
    rcases List.mem_append.1 hs with hs | hs
    · exact r.proper s hs
    · obtain rfl := List.mem_singleton.1 hs
      simpa [up] using skipped⟩

/-- Where the route leads from a directory; none if it climbs above the root. -/
def from? (r : Route) (dir : List String) : Option (List String) :=
  if r.climb ≤ dir.length then some (dir.take (dir.length - r.climb) ++ r.names) else none

@[simp] theorem from?_stay (dir : List String) : stay.from? dir = some dir := by
  simp [from?, stay]

/-- Above a directory that lies `n` levels up there is one more level unless it is the root. -/
theorem step_take_up (dir : List String) {n : Nat} (h : n ≤ dir.length) :
    Path.step (dir.take (dir.length - n)) ".." =
      if n + 1 ≤ dir.length then some (dir.take (dir.length - (n + 1))) else none := by
  have up : Path.step (dir.take (dir.length - n)) ".." =
      if dir.take (dir.length - n) = [] then none else some (dir.take (dir.length - n)).dropLast := by
    simp [Path.step]
  have top : dir.take (dir.length - n) = [] ↔ ¬ n + 1 ≤ dir.length := by
    rw [← List.length_eq_zero_iff, List.length_take]
    omega
  rw [up, List.dropLast_eq_take, List.take_take, List.length_take]
  simp only [top, ite_not]
  congr 3
  omega

/-- One more segment does to the route what it does to the directory that the route leads to. -/
theorem from?_step (r : Route) (segment : String) (dir : List String) :
    (r.step segment).from? dir = (r.from? dir).bind (Path.step · segment) := by
  by_cases low : r.climb ≤ dir.length
  · have reached : r.from? dir = some (dir.take (dir.length - r.climb) ++ r.names) := if_pos low
    rw [reached, Option.bind_some]
    unfold step
    split_ifs with skipped up level
    · rw [reached, Path.step, if_pos skipped]
    · simp only [up, from?, level, List.append_nil, step_take_up dir low]
    · simp [from?, low, Path.step, up, level, List.dropLast_append_of_ne_nil level]
    · simp [from?, low, Path.step, up, not_or.1 skipped]
  · have high : r.climb ≤ (r.step segment).climb := by
      unfold step
      split_ifs <;> simp
    rw [from?, from?, if_neg low, if_neg (by omega), Option.bind_none]

theorem from?_foldl (r : Route) (l dir : List String) :
    (l.foldl step r).from? dir = (r.from? dir).bind (l.foldlM Path.step ·) := by
  induction l generalizing r with
  | nil => cases h : r.from? dir <;> simp [h]
  | cons segment l ih =>
    rw [List.foldl_cons, ih, from?_step]
    cases r.from? dir <;> simp

theorem names_foldl_sublist (r : Route) (l : List String) :
    (l.foldl step r).names.Sublist (r.names ++ l) := by
  induction l generalizing r with
  | nil => simp
  | cons segment l ih =>
    refine (ih (r.step segment)).trans ?_
    rw [List.append_cons]
    refine List.Sublist.append_right ?_ l
    unfold step
    split_ifs
    · exact List.sublist_append_left _ _
    · exact List.sublist_append_left _ _
    · exact (List.dropLast_sublist _).trans (List.sublist_append_left _ _)
    · exact List.Sublist.refl _

end Route

/-- The route that a relative path takes. -/
def route (rel : String) : Route := (split '/' rel).foldl Route.step .stay

theorem join?_eq (dir rel : String) :
    join? dir rel = ((route rel).from? (segments dir)).map (joinWith "/") := by
  rw [route, Route.from?_foldl, Route.from?_stay, Option.bind_some, join?]

theorem names_route_sublist (rel : String) : (route rel).names.Sublist (split '/' rel) :=
  Route.names_foldl_sublist .stay (split '/' rel)

theorem isSegment_of_mem_route {rel s : String} (h : s ∈ (route rel).names) : IsSegment s := by
  obtain ⟨cs, hcs, rfl⟩ := List.mem_map.1 ((names_route_sublist rel).subset h)
  refine ⟨fun empty => (route rel).proper _ h (by simp [empty]), ?_⟩
  simpa using not_mem_of_mem_splitChars hcs

/-- The segments of a joined path are where the route leads. -/
theorem segments_of_from? {dir rel : String} {place : List String}
    (h : (route rel).from? (segments dir) = some place) : segments (joinWith "/" place) = place := by
  refine segments_joinWith fun s hs => ?_
  unfold Route.from? at h
  split_ifs at h
  obtain rfl := Option.some_inj.1 h
  rcases List.mem_append.1 hs with hs | hs
  · exact isSegment_of_mem_segments (List.mem_of_mem_take hs)
  · exact isSegment_of_mem_route hs

theorem route_append (a b : String) :
    route (a ++ "/" ++ b) = (split '/' b).foldl Route.step (route a) := by
  rw [route, split_append, List.foldl_append]
  rfl

/-- A path of two parts can be walked in two parts: the segments in between are read back as they
were written. -/
theorem join?_append (dir a b : String) :
    join? dir (a ++ "/" ++ b) = (join? dir a).bind fun path => join? path b := by
  rw [join?_eq, join?_eq dir a, route_append, Route.from?_foldl]
  cases h : (route a).from? (segments dir) with
  | none => rfl
  | some place =>
    simp only [Option.map_some, Option.bind_some, join?, segments_of_from? h]

theorem join?_eq_some {dir rel path : String} : join? dir rel = some path ↔
    (route rel).climb ≤ (segments dir).length ∧
      path = joinWith "/" ((segments dir).take ((segments dir).length - (route rel).climb) ++
        (route rel).names) := by
  rw [join?_eq, Route.from?]
  split_ifs with low
  · simp [low, eq_comm]
  · simp [low]

/-- Joining is an action on directories: a path of two parts fails if and only if one of its parts
fails, and otherwise leads where they lead one after the other. What stays of a directory is a front
of it, and what a path adds to it are segments of its own, none of them empty, `.` or `..`. -/
theorem join?_acts_on_directories (dir a b : String) :
    (join? dir (a ++ "/" ++ b) = none ↔
      join? dir a = none ∨ ∃ half, join? dir a = some half ∧ join? half b = none) ∧
    (∀ path, join? dir (a ++ "/" ++ b) = some path ↔
      ∃ half, join? dir a = some half ∧ join? half b = some path) ∧
    ∃ (climb : Nat) (added : List String), added.Sublist (split '/' a) ∧
      (∀ s ∈ added, s ∉ ["", ".", ".."]) ∧
      ∀ d path, join? d a = some path ↔ climb ≤ (segments d).length ∧
        path = joinWith "/" ((segments d).take ((segments d).length - climb) ++ added) := by
  refine ⟨?_, fun path => ?_, (route a).climb, (route a).names, names_route_sublist a,
    (route a).proper, fun d path => join?_eq_some⟩
  · rw [join?_append, Option.bind_eq_none_iff]
    cases join? dir a <;> simp
  · rw [join?_append, Option.bind_eq_some_iff]

theorem join?_acts_on_directories_up_and_down :
    join? "src/a" "../b/../c" = some "src/c" ∧
    ∃ (climb : Nat) (added : List String), climb ≤ 2 ∧
      "src/b" = joinWith "/" (["src", "a"].take (2 - climb) ++ added) ∧
      ∀ s ∈ added, s ∉ ["", ".", ".."] := by
  obtain ⟨-, walked, climb, added, -, proper, leads⟩ := join?_acts_on_directories "src/a" "../b" "../c"
  have half : join? "src/a" "../b" = some "src/b" := by decide +kernel
  obtain ⟨low, joined⟩ := (leads "src/a" "src/b").1 half
  exact ⟨(walked "src/c").2 ⟨"src/b", half, by decide +kernel⟩, climb, added, low, joined, proper⟩

end SymbolGraph.Path
