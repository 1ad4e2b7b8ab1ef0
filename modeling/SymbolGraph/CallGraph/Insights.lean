import SymbolGraph.CallGraph.Cluster
import SymbolGraph.CallGraph.Coupling
import SymbolGraph.CallGraph.Extraction
import SymbolGraph.CallGraph.Hub
import SymbolGraph.Decimal.Fixed

/-!
# Recommendations

What a call graph suggests for the structure of a project.
-/
namespace SymbolGraph

structure Insights where
  hubs : List Hub
  clusters : List Cluster
  candidates : List ExtractionCandidate
  coupling : List FileCoupling
  /-- The share of impure functions, zero for an empty graph. -/
  impureRatio : Float
  recommendations : List String
  deriving Inhabited

namespace CallGraph

def impureRatio (g : CallGraph) : Float :=
  if g.stats.functions == 0 then 0
  else Float.ofNat g.stats.impureFunctions / Float.ofNat g.stats.functions

def hubAdvice (h : Hub) : String :=
  h.id ++ " has " ++ toString h.degree ++
    " connections; consider splitting it or narrowing its callers"

def extractionAdvice (c : ExtractionCandidate) : String :=
  "Extract " ++ toString c.functions.length ++ " functions from " ++ c.file ++
    " into a new file (score " ++ Decimal.fixed 2 c.score ++ ")"

def couplingAdvice (c : FileCoupling) : String :=
  c.file1 ++ " and " ++ c.file2 ++ " call each other (" ++ toString c.total ++
    " calls); consider merging them or extracting the shared part"

def purityAdvice (ratio : Float) : List String :=
  if 0.5 < ratio then
    [Decimal.fixed 0 (ratio * 100) ++
      "% of functions are impure; consider moving side effects to the edges"]
  else []

def insights (g : CallGraph) (hubThreshold : Nat) (t : Thresholds) : Insights :=
  let hubs := g.hubs hubThreshold
  let candidates := g.extractionCandidates t
  let coupling := g.coupling
  let impureRatio := g.impureRatio
  { hubs, clusters := g.clusters, candidates, coupling, impureRatio
    recommendations := (hubs.take 3).map hubAdvice ++ (candidates.take 3).map extractionAdvice ++
      (coupling.filter (·.direction == .bidirectional)).map couplingAdvice ++
      purityAdvice impureRatio }

end CallGraph
end SymbolGraph
