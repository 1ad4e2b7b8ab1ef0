import SymbolGraph.Ordered.KeyMap
import SymbolGraph.Path

/-!
# Configuration of an analysis
-/
namespace SymbolGraph

/-- The name of the configuration file of a project. -/
def configFile : String := "symtrace.toml"

/-- The directory for what is kept between runs. -/
def stateDirName : String := ".symtrace"

/-- When a group of functions is proposed to move to a file of its own. -/
structure Thresholds where
  /-- A group is smaller than this fraction of the functions of its file. -/
  maxFileFraction : Float := 0.7
  /-- The number of proposals that are kept. -/
  maxCandidates : Nat := 5
  minGroupSize : Nat := 2
  deriving Inhabited

structure Config where
  rootDir : String
  /-- Patterns of files and directories to leave out. -/
  ignore : List String := []
  /-- Patterns of files whose exports are meant for the outside. -/
  entryPoints : List String := []
  /-- Starts of specifiers with the directories they stand for. -/
  aliases : KeyMap (List String) := .empty
  /-- The directory in which specifiers without a path are looked for. -/
  baseDir : Option String := none
  cacheEnabled : Bool := true
  /-- Report also unused exports of entry points. -/
  strict : Bool := false
  thresholds : Thresholds := {}
  /-- Functions with more calls than this are hubs. -/
  hubThreshold : Nat := 5
  deriving Inhabited

def Config.stateDir (c : Config) : String := Path.under c.rootDir stateDirName

end SymbolGraph
