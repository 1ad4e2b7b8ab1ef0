import SymbolGraph.Config
import SymbolGraph.FileTree.Basic
import SymbolGraph.Toml.Reader

/-!
# Configuration files

The configuration of a project is a TOML file in its root. Every field may be absent, and unknown
fields do not count.
-/
namespace SymbolGraph
open Toml

/-- What the extraction section changes about the thresholds. -/
def Thresholds.ofToml? (t : Toml) : Option Thresholds := do
  match ← fields? ["max_file_fraction", "max_candidates"] t with
  | [fraction, candidates] =>
    let standard : Thresholds := {}
    return { standard with
      maxFileFraction := ← field? standard.maxFileFraction float? fraction
      maxCandidates := ← field? standard.maxCandidates nat? candidates }
  | _ => none

/-- The threshold of the section on hubs. -/
def hubThresholdOf? (standard : Nat) (t : Toml) : Option Nat := do
  match ← fields? ["threshold"] t with
  | [threshold] => field? standard nat? threshold
  | _ => none

namespace Config

def ofToml? (rootDir : String) (t : Toml) : Option Config := do
  match ← fields? ["ignore", "entry_points", "paths", "base_url", "cache", "strict", "extraction",
      "hubs"] t with
  | [ignore, entryPoints, aliases, baseDir, cache, strict, extraction, hubs] =>
    let standard : Config := { rootDir }
    return {
      rootDir
      ignore := ← field? [] (listOf? text?) ignore
      entryPoints := ← field? [] (listOf? text?) entryPoints
      aliases := ← field? .empty (mapOf? (listOf? text?)) aliases
      baseDir := ← field? none (fun t => t.text?.map some) baseDir
      cacheEnabled := ← field? true flag? cache
      strict := ← field? false flag? strict
      thresholds := ← field? standard.thresholds Thresholds.ofToml? extraction
      hubThreshold := ← field? standard.hubThreshold (hubThresholdOf? standard.hubThreshold) hubs }
  | _ => none

/-- The configuration of the project in `rootDir`, the standard one if it has no file for it. -/
def load (rootDir : String) (tree : FileTree) : Except AnalysisError Config :=
  let path := Path.under rootDir configFile
  if tree.contains path then
    match tree.readText path with
    | .error fault => .error (.io path fault.message)
    | .ok content => match (Toml.read? content).bind (ofToml? rootDir) with
      | some c => .ok c
      | none => .error (.config path ("invalid " ++ configFile))
  else .ok { rootDir }

end Config
end SymbolGraph
