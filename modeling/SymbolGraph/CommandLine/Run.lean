import SymbolGraph.CallGraph.Baseline
import SymbolGraph.CallGraph.Report
import SymbolGraph.CommandLine.Options
import SymbolGraph.Config.Load
import SymbolGraph.Json.Sorted
import SymbolGraph.Project.Report
import SymbolGraph.Project.Run

/-!
# Commands

A call reads the configuration, makes the reports it was asked for one after the other, and prints each
as text at once, or all together as one JSON object at the end. What was printed before a failure stays
printed.
-/
namespace SymbolGraph.CommandLine

/-- The name and version that the program prints. -/
def versionText : String := "symtrace-cli " ++ toolVersion

/-- The state of a call. -/
structure Session where
  /-- The files as they stand. -/
  tree : FileTree
  /-- What has been printed. -/
  output : String := ""
  /-- The reports for the JSON object at the end. -/
  reports : KeyMap Json := .empty
  exitCode : Nat := 0
  deriving Inhabited

/-- A step of a call; it can fail with a message. -/
abbrev Command := ExceptT String (StateM Session)

def print (text : String) : Command Unit := modify fun s => { s with output := s.output ++ text }

/-- A report in the form asked for. -/
def report (o : Options) (name : String) (json : Json) (text : String) : Command Unit :=
  if o.json then modify fun s => { s with reports := s.reports.insert name json.sorted }
  else print text

/-- Failures of the analysis are told with their own text. -/
def run (r : Except AnalysisError α) : Command α := liftExcept (r.mapError AnalysisError.message)
where
  liftExcept (r : Except String α) : Command α := ExceptT.mk (pure r)

/-- Exit codes other than zero tell that something was found. -/
def fail (found : Bool) : Command Unit := do
  if found then modify fun s => { s with exitCode := 1 }

def setTree (tree : FileTree) : Command Unit := modify fun s => { s with tree }

/-- The configuration of the project, overridden by the options. -/
def configOf (o : Options) : Command Config := do
  let tree := (← get).tree
  if !tree.isFolderAt o.path then throw ("not a directory: " ++ o.path)
  match Config.load o.path tree with
  | .error _ => throw ("Failed to load configuration from: " ++ o.path)
  | .ok c => return { c with
      cacheEnabled := c.cacheEnabled && !o.noCache, strict := c.strict || o.strict }

/-- The reports on symbols and imports. -/
def projectReports (now : Timestamp) (o : Options) (c : Config) : Command Unit := do
  let tree := (← get).tree
  let entryPoints ← run (EntryPoints.load c tree)
  let (analysis, tree) ← run (analyzeProject now c tree)
  setTree tree
  report o "summary" analysis.summary.toJson analysis.summary.render
  if o.wantsUnused then
    let unused := analysis.unused entryPoints c.strict
    fail !unused.isEmpty
    report o "unused" (.array (unused.map UnusedExport.toJson)) (renderUnused unused)
  if o.cycles then report o "cycles" (cyclesJson analysis.cycles) (renderCycles analysis.cycles)
  if let some file := o.impact then
    let dependents := analysis.impact file
    report o "impact" (.object [("file", .string file), ("dependents", Json.strings dependents)])
      (renderImpact file dependents)

/-- The reports on the call graph. Its drawing is always text. -/
def graphReports (now : Timestamp) (o : Options) (c : Config) : Command Unit := do
  let g ← run (CallGraph.ofProject now c (← get).tree)
  if o.callgraphDot then print g.dot
  if o.callgraph then report o "callgraph" g.toJson (g.stats.render ++ g.serialize ++ "\n")
  if o.insights then
    let insights := g.insights c.hubThreshold c.thresholds
    report o "insights" insights.toJson (g.stats.render ++ insights.render)

/-- The outcome of a check. -/
def verdict (o : Options) (name : String) (d : GraphDiff) : Command Unit := do
  fail !d.isEquivalent
  report o name d.verdictJson d.render

/-- Stores a baseline and checks against it. -/
def baselineReports (now : Timestamp) (o : Options) (c : Config) : Command Unit := do
  if o.saveGold then
    let (g, tree) ← run (CallGraph.saveBaseline now c (← get).tree)
    setTree tree
    let path := c.goldStandardPath
    report o "goldStandard"
      (.object [("path", .string path), ("functions", .nat g.nodes.size)])
      (linesText ["Gold standard saved to " ++ path ++ " (" ++ toString g.nodes.size ++ " functions)"])
  if o.verify then verdict o "verify" (← run (CallGraph.verify now c (← get).tree))
  if let (some file, some proposed) := (o.verifyFile, o.proposed) then
    let tree := (← get).tree
    match tree.readText proposed with
    | .error _ => throw ("Failed to read proposed file: " ++ proposed)
    | .ok content => verdict o "verifyFile" (← run (CallGraph.verifyFile now c tree file content))

/-- All that a call asks for. -/
def command (now : Timestamp) (o : Options) : Command Unit := do
  let c ← configOf o
  if o.needsAnalysis then projectReports now o c
  if o.needsGraph then graphReports now o c
  baselineReports now o c
  let reports := (← get).reports
  if o.json && !reports.isEmpty then print (linesText [(Json.object reports.toList).pretty])

/-- What a call leaves behind. -/
structure Outcome where
  tree : FileTree
  output : String := ""
  exitCode : Nat := 0
  error : Option String := none
  deriving Inhabited

/-- Carries out a call on a tree of files. -/
def execute (now : Timestamp) (args : List String) (tree : FileTree) : Outcome :=
  match Invocation.ofArguments args with
  | .refused => { tree, exitCode := 2 }
  | .showVersion => { tree, output := linesText [versionText] }
  | .showHelp => { tree }
  | .run o => match (command now o).run { tree } with
    | (.ok _, s) => { tree := s.tree, output := s.output, exitCode := s.exitCode }
    | (.error message, s) =>
      { tree := s.tree, output := s.output, exitCode := 1, error := some message }

end SymbolGraph.CommandLine
