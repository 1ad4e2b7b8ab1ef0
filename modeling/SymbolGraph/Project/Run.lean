import SymbolGraph.Cache
import SymbolGraph.FileTree.Sources
import SymbolGraph.Project.Build

/-!
# Running an analysis

The files of a project are found, read and analysed. With the cache enabled, files that have not changed
since an earlier run are not parsed again.
-/
namespace SymbolGraph

/-- Reads the files of a project, with the facts of an earlier run where they still hold. -/
def loadSources (cache : Option Cache) (tree : FileTree) (root : String) (paths : List String) :
    List SourceFile :=
  let known (path hash : String) : Option Facts := cache.bind (·.lookup? path hash)
  paths.map (SourceFile.load known (Language.factsOf Language.all) tree root)

/-- Analyses a project, and gives the tree with the facts for the next run. -/
def analyzeProject (now : Timestamp) (c : Config) (tree : FileTree) :
    Except AnalysisError (ProjectAnalysis × FileTree) := do
  let paths ← c.sourceFiles tree
  if c.cacheEnabled then
    let (cache, tree) := Cache.load c.stateDir tree
    let sources := loadSources cache tree c.rootDir paths
    return (.ofFiles c paths sources, (Cache.ofSources now sources).save c.stateDir tree)
  else return (.ofFiles c paths (loadSources none tree c.rootDir paths), tree)

end SymbolGraph
