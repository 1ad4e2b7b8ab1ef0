/-!
# Errors

What can go wrong, and the text that reports it.
-/
namespace SymbolGraph

inductive AnalysisError
  /-- A file or directory could not be read or written. -/
  | io (path message : String)
  /-- A source file is no program of its language. -/
  | parse (path message : String) (place : Option (Nat × Nat))
  | cache (message : String)
  | config (path message : String)
  /-- A check was asked for before a baseline was saved. -/
  | goldStandardMissing (path : String)
  | serialization (message : String)
  | invalidArgument (message : String)
  | internal (message : String)
  deriving DecidableEq, Repr, Inhabited

namespace AnalysisError

def message : AnalysisError → String
  | .io path m => "I/O error at " ++ path ++ ": " ++ m
  | .parse path m _ => "Parse error in " ++ path ++ ": " ++ m
  | .cache m => "Cache error: " ++ m
  | .config path m => "Config error at " ++ path ++ ": " ++ m
  | .goldStandardMissing path =>
    "No gold standard found at " ++ path ++ "; run an initial scan first"
  | .serialization m => "Serialization error: " ++ m
  | .invalidArgument m => "Invalid argument: " ++ m
  | .internal m => "Internal error: " ++ m

/-- Whether an analysis can go on without the thing that failed. -/
def isRecoverable : AnalysisError → Bool
  | .parse .. => true
  | .cache _ => true
  | .serialization _ => true
  | _ => false

def path? : AnalysisError → Option String
  | .io path _ => some path
  | .parse path _ _ => some path
  | .config path _ => some path
  | .goldStandardMissing path => some path
  | _ => none

/-- The line and column of a syntax error, where known. -/
def place? : AnalysisError → Option (Nat × Nat)
  | .parse _ _ place => place
  | _ => none

end AnalysisError
end SymbolGraph
