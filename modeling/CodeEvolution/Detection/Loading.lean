import CodeEvolution.Detection.Snapshot
import CodeEvolution.FilePattern.OfText
import CodeEvolution.FileTree
/-!
# Loading a snapshot

The snapshot of a directory holds the files whose path matches one of some patterns. Files that are
too large and files whose bytes are no text are left out.
-/
namespace CodeEvolution.Snapshot

def fits (limit : Option Nat) (bytes : ByteArray) : Bool :=
  limit.all fun most => bytes.size ≤ most

def loadFile? (patterns : List FilePattern) (limit : Option Nat)
    (file : List String × ByteArray) : Option SourceFile :=
  let path := String.intercalate "/" file.1
  if patterns.any (fun pattern => pattern.accepts path) && fits limit file.2 then
    (String.fromUTF8? file.2).map fun text => { path, text }
  else none

def ofDirectory (tree : FileTree) (path : String) (patterns : List String) (limit : Option Nat) :
    Except Failure Snapshot :=
  match (tree.find? path).filter tree.isDirectory with
  | some directory => do
    let patterns ← patterns.mapM FilePattern.ofText
    return ofFiles ((tree.below directory).filterMap (loadFile? patterns limit))
  | none => .error (.notFound path)

end CodeEvolution.Snapshot
