import SymbolGraph.Main
import SymbolGraph.Proofs.CallGraph.Baseline
import SymbolGraph.Proofs.CallGraph.Edges
import SymbolGraph.Proofs.CallGraph.Functions
import SymbolGraph.Proofs.CallGraph.Infection
import SymbolGraph.Proofs.CallGraph.Purity
import SymbolGraph.Proofs.CallGraph.Snapshot
import SymbolGraph.Proofs.FileTree
import SymbolGraph.Proofs.Json.RoundTrip
import SymbolGraph.Proofs.Ordered
import SymbolGraph.Proofs.Project.Build
import SymbolGraph.Proofs.Project.ReExports
import SymbolGraph.Proofs.Project.Unused
import SymbolGraph.Proofs.Timestamp
import SymbolGraph.Proofs.Traversal
import SymbolGraph.Proofs.Project.Cache
import SymbolGraph.Proofs.Project.Impact
import SymbolGraph.Proofs.Project.WellFormed
import SymbolGraph.Proofs.CallGraph.Origins
import SymbolGraph.Proofs.Crate.References
import SymbolGraph.Proofs.Script.Calls
import SymbolGraph.Proofs.Script.References
import SymbolGraph.Proofs.Walks
import SymbolGraph.Proofs.CallGraph.Explanations
import SymbolGraph.Proofs.Project.CycleSearch
import SymbolGraph.Proofs.Project.Cycles
import SymbolGraph.Proofs.Project.Dependents
import SymbolGraph.Proofs.Project.UnusedReport
import SymbolGraph.Proofs.Project.StarExpansion
import SymbolGraph.Proofs.Project.OriginChains
import SymbolGraph.Proofs.CallGraph.ForwardChains
import SymbolGraph.Proofs.Script.Attribution
import SymbolGraph.Proofs.Crate.OwnPaths
import SymbolGraph.Proofs.Project.Breaking
import SymbolGraph.Proofs.Script.Mutations
import SymbolGraph.Proofs.CallGraph.Equivalence
import SymbolGraph.Proofs.CallGraph.Searches
import SymbolGraph.Proofs.Traversal.ShortestPath
import SymbolGraph.Proofs.CallGraph.Clusters
import SymbolGraph.Proofs.CallGraph.Extraction
import SymbolGraph.Proofs.CallGraph.Coupling
import SymbolGraph.Proofs.Tracing
import SymbolGraph.Proofs.Crate.ModulePaths
import SymbolGraph.Proofs.Crate.ModuleFiles
import SymbolGraph.Proofs.Bindings
import SymbolGraph.Proofs.FileTree.Sources
import SymbolGraph.Proofs.Resolver.Roots
import SymbolGraph.Proofs.Text.Layout
import SymbolGraph.Proofs.Text.Places
