import SymbolGraph.CommandLine.Run
import Std.Time.DateTime.Timestamp

/-!
# The program

Reads the files that a call may look at, carries the call out on them, and stores what it has changed.
-/
namespace SymbolGraph.CommandLine

/-- The files that are read whatever their extension. -/
def namedFiles : List String :=
  [configFile, EntryPoints.manifestFile, cacheFile, goldStandardFile, stateDirName]

def isRead (name : String) : Bool :=
  namedFiles.contains name || (Path.extension? name).any sourceExtensions.contains

/-- Folders that are left out. What earlier runs have stored is read. -/
def isSkipped (name : String) : Bool := name != stateDirName && excludedFolders.contains name

/-- The files below a folder, links aside. -/
partial def readFolder (path : String) : IO FileTree := do
  let here : IO.FS.DirEntry := { root := path, fileName := "" }
  let mut entries : List (String × FileTree) := []
  for entry in ← here.path.readDir do
    let name := entry.fileName
    match (← entry.path.symlinkMetadata).type with
    | .dir => if !isSkipped name then entries := (name, ← readFolder (Path.under path name)) :: entries
    | .file => if isRead name then entries := (name, .file (← IO.FS.readBinFile entry.path)) :: entries
    | _ => pure ()
  return .folder entries

/-- Adds what stands at a path; what cannot be read is left out. -/
def addPath (tree : FileTree) (path : String) (read : IO FileTree) : IO FileTree := do
  try
    return (FileTree.put (← read) (FileTree.placeOf path) tree).toOption.getD tree
  catch _ => return tree

/-- The files that a call with these options may look at. -/
def readFiles (o : Options) : IO FileTree := do
  let mut tree ← addPath (.folder []) o.path (readFolder o.path)
  if let some path := o.proposed then
    tree ← addPath tree path (do return .file (← IO.FS.readBinFile path))
  return tree

/-- Makes a file of the state directory what it has become. -/
def storeFile (dir name : String) (old new : FileTree) : IO Unit := do
  let path := Path.under dir name
  match (old.readBytes path).toOption, (new.readBytes path).toOption with
  | some _, none => IO.FS.removeFile path
  | before, some content =>
    if before != some content then
      let draft := path ++ ".tmp"
      IO.FS.createDirAll dir
      IO.FS.writeBinFile draft content
      IO.FS.rename draft path
  | none, none => pure ()

def now : IO Timestamp := do
  let nanos := (← Std.Time.Timestamp.now).toNanosecondsSinceUnixEpoch.val
  return ⟨nanos.fdiv 1000000000, (nanos.fmod 1000000000).toNat⟩

end SymbolGraph.CommandLine

open SymbolGraph SymbolGraph.CommandLine in
def main (args : List String) : IO UInt32 := do
  let (dir, tree) ← match Invocation.ofArguments args with
    | .run o => do pure ({ rootDir := o.path : Config }.stateDir, ← readFiles o)
    | _ => pure ("", .folder [])
  let outcome := execute (← now) args tree
  for name in [cacheFile, goldStandardFile] do
    storeFile dir name tree outcome.tree
  IO.print outcome.output
  if let some message := outcome.error then IO.eprintln ("Error: " ++ message)
  return outcome.exitCode.toUInt32
