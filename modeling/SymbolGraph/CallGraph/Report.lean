import SymbolGraph.CallGraph.Diff
import SymbolGraph.CallGraph.Insights
import SymbolGraph.Json.Record

/-!
# Reports on call graphs

What the analyses of a call graph found, as text and as JSON.
-/
namespace SymbolGraph
open Text Json

/-! ## Text -/

/-- Lines that each end with a line feed. -/
def linesText (lines : List String) : String := String.join (lines.map (· ++ "\n"))

def Stats.render (s : Stats) : String :=
  linesText [toString s.functions ++ " functions (" ++ toString s.pureFunctions ++ " pure, " ++
    toString s.impureFunctions ++ " impure, " ++ toString s.unknownFunctions ++ " unknown, " ++
    toString s.exportedFunctions ++ " exported), " ++ toString s.edges ++ " call edges"]

/-- A heading with the number of what it stands above. -/
def countHeading (title : String) (n : Nat) : String := title ++ " (" ++ toString n ++ "):"

def Hub.render (h : Hub) : String := "- " ++ h.id ++ " (degree " ++ toString h.degree ++ ")"

def ExtractionCandidate.render (c : ExtractionCandidate) : String :=
  "- " ++ c.file ++ " [" ++ joinWith ", " c.functions ++ "] score " ++ Decimal.fixed 2 c.score

def FileCoupling.render (c : FileCoupling) : String :=
  "- " ++ c.file1 ++ " / " ++ c.file2 ++ ": " ++ c.direction.text ++ " (" ++ toString c.total ++ " calls)"

def Insights.render (i : Insights) : String :=
  linesText (
    [countHeading "HUBS" i.hubs.length] ++ i.hubs.map Hub.render ++
    ["CLUSTERS: " ++ toString i.clusters.length,
     countHeading "EXTRACTION CANDIDATES" i.candidates.length] ++
    i.candidates.map ExtractionCandidate.render ++
    [countHeading "FILE COUPLING" i.coupling.length] ++ i.coupling.map FileCoupling.render ++
    (if i.recommendations.isEmpty then []
      else "RECOMMENDATIONS:" :: i.recommendations.map ("- " ++ ·)))

def SignatureChange.render (c : SignatureChange) : String :=
  "- signature " ++ c.id ++ ": " ++ c.before.getD "?" ++ " -> " ++ c.after.getD "?"

def GraphDiff.render (d : GraphDiff) : String :=
  linesText (
    [(if d.isEquivalent then "EQUIVALENT" else "CHANGED") ++ ": " ++ d.summary] ++
    d.removed.map ("- removed " ++ ·) ++ d.signatureChanges.map SignatureChange.render ++
    d.added.map ("+ added " ++ ·))

/-! ## JSON -/

def Hub.toJson (h : Hub) : Json := .object [("id", .string h.id), ("degree", .nat h.degree)]

def Cluster.toJson (c : Cluster) : Json :=
  .object [("members", strings c.members), ("files", strings c.files)]

def ExtractionCandidate.toJson (c : ExtractionCandidate) : Json :=
  .object [("file", .string c.file), ("functions", strings c.functions),
    ("internalEdges", .nat c.internalEdges), ("externalDependencies", .nat c.externalDependencies),
    ("score", .ofFloat c.score)]

def FileCoupling.toJson (c : FileCoupling) : Json :=
  .object [("file1", .string c.file1), ("file2", .string c.file2),
    ("calls1To2", .nat c.forwardCalls), ("calls2To1", .nat c.backwardCalls),
    ("direction", .string c.direction.text)]

def Insights.toJson (i : Insights) : Json :=
  .object [("hubs", .array (i.hubs.map Hub.toJson)),
    ("clusters", .array (i.clusters.map Cluster.toJson)),
    ("extractionCandidates", .array (i.candidates.map ExtractionCandidate.toJson)),
    ("coupling", .array (i.coupling.map FileCoupling.toJson)),
    ("impureRatio", .ofFloat i.impureRatio), ("recommendations", strings i.recommendations)]

def SignatureChange.toJson (c : SignatureChange) : Json :=
  .object [("id", .string c.id), ("before", .ofOption .string c.before),
    ("after", .ofOption .string c.after)]

def GraphDiff.toJson (d : GraphDiff) : Json :=
  .object [("removed_functions", strings d.removed),
    ("signature_changes", .array (d.signatureChanges.map SignatureChange.toJson)),
    ("added_functions", strings d.added), ("summary", .string d.summary),
    ("is_equivalent", .bool d.isEquivalent)]

/-- The outcome of a check against a baseline. -/
def GraphDiff.verdictJson (d : GraphDiff) : Json :=
  .object [("valid", .bool d.isEquivalent), ("diff", d.toJson)]

end SymbolGraph
