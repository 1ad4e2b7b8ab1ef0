import SymbolGraph.Text.Split

/-!
# Options of the command line

Each option is given at most once. An option with a value takes it behind an equals sign or as the next
argument, and one argument that is no option names the project.
-/
namespace SymbolGraph.CommandLine
open Text

structure Options where
  /-- The root of the project. -/
  path : String := "."
  json : Bool := false
  strict : Bool := false
  noCache : Bool := false
  unused : Bool := false
  cycles : Bool := false
  impact : Option String := none
  callgraph : Bool := false
  callgraphDot : Bool := false
  insights : Bool := false
  saveGold : Bool := false
  verify : Bool := false
  verifyFile : Option String := none
  proposed : Option String := none
  prettyLogs : Bool := false
  deriving DecidableEq, Repr, Inhabited

namespace Options

/-- Whether no particular report is asked for. -/
def isDefault (o : Options) : Bool :=
  !(o.unused || o.cycles || o.impact.isSome || o.callgraph || o.callgraphDot || o.insights ||
    o.saveGold || o.verify || o.verifyFile.isSome)

def wantsUnused (o : Options) : Bool := o.unused || o.isDefault
def needsAnalysis (o : Options) : Bool := o.wantsUnused || o.cycles || o.impact.isSome
def needsGraph (o : Options) : Bool := o.callgraph || o.callgraphDot || o.insights

/-- A proposed content and the file it is for are given together. -/
def isComplete (o : Options) : Bool := o.verifyFile.isSome == o.proposed.isSome

end Options

/-- What the arguments ask for. -/
inductive Invocation
  | run (options : Options)
  | showVersion
  | showHelp
  /-- The arguments make no sense. -/
  | refused
  deriving DecidableEq, Repr, Inhabited

/-- The options without a value. -/
def flags : List (String × (Options → Options)) :=
  [("json", ({ · with json := true })), ("strict", ({ · with strict := true })),
   ("no-cache", ({ · with noCache := true })), ("unused", ({ · with unused := true })),
   ("cycles", ({ · with cycles := true })), ("callgraph", ({ · with callgraph := true })),
   ("callgraph-dot", ({ · with callgraphDot := true })),
   ("insights", ({ · with insights := true })), ("save-gold", ({ · with saveGold := true })),
   ("verify", ({ · with verify := true })), ("pretty-logs", ({ · with prettyLogs := true }))]

/-- The options with a value. -/
def settings : List (String × (Options → String → Options)) :=
  [("impact", fun o v => { o with impact := some v }),
   ("verify-file", fun o v => { o with verifyFile := some v }),
   ("proposed", fun o v => { o with proposed := some v })]

/-- The name of a long option and the value behind its equals sign. -/
def splitOption (arg : String) : String × Option String :=
  let cs := arg.toList
  match cs.dropWhile (· ≠ '=') with
  | [] => (arg, none)
  | _ :: value => (String.ofList (cs.takeWhile (· ≠ '=')), some (String.ofList value))

/-- Arguments that start with a dash are options, the dash alone is not. -/
def isOption (arg : String) : Bool := startsWith "-" arg && arg != "-"

/-- The options read so far with the names of those given; `path` counts as the name of the project. -/
structure Reading where
  options : Options := {}
  given : List String := []

namespace Reading

/-- Takes an option unless it was given before. -/
def take (r : Reading) (name : String) (set : Options → Options) : Option Reading :=
  if r.given.contains name then none else some ⟨set r.options, name :: r.given⟩

def takePath (r : Reading) (path : String) : Option Reading :=
  r.take "path" fun o => { o with path }

def finish (r : Reading) : Invocation := if r.options.isComplete then .run r.options else .refused

/-- Arguments behind two dashes are no options. -/
def takePaths (r : Reading) : List String → Invocation
  | [] => r.finish
  | path :: rest => match r.takePath path with
    | some r => r.takePaths rest
    | none => .refused

end Reading

/-- What one long option asks for: a change of the reading, a value to be read, or an answer at once. -/
inductive Step
  | taken (r : Reading)
  | needsValue (set : Options → String → Options)
  | answered (i : Invocation)

def longOption (r : Reading) (name : String) (value : Option String) : Step :=
  match flags.lookup name, settings.lookup name, value with
  | some set, _, none => match r.take name set with
    | some r => .taken r
    | none => .answered .refused
  | _, some set, some v => match r.take name (set · v) with
    | some r => .taken r
    | none => .answered .refused
  | _, some set, none => .needsValue set
  | _, _, none =>
    if name == "version" then .answered .showVersion
    else if name == "help" then .answered .showHelp
    else .answered .refused
  | _, _, some _ => .answered .refused

def readFrom (r : Reading) : List String → Invocation
  | [] => r.finish
  | arg :: rest =>
    if arg == "--" then r.takePaths rest
    else match dropStart? "--" arg with
      | some option =>
        let (name, value) := splitOption option
        match longOption r name value with
        | .taken r => readFrom r rest
        | .answered i => i
        | .needsValue set => match rest with
          | [] => .refused
          | v :: rest =>
            if isOption v then .refused
            else match r.take name (set · v) with
              | some r => readFrom r rest
              | none => .refused
      | none =>
        if startsWith "-V" arg then .showVersion
        else if startsWith "-h" arg then .showHelp
        else if isOption arg then .refused
        else match r.takePath arg with
          | some r => readFrom r rest
          | none => .refused

/-- Reads the arguments of a call. -/
def Invocation.ofArguments (args : List String) : Invocation := readFrom {} args

end SymbolGraph.CommandLine
