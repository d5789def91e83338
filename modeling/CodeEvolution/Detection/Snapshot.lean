/-!
# Snapshots

A snapshot is one version of a program: the texts of its files by path, in the order of the
paths, at most one for each path.
-/
namespace CodeEvolution

structure SourceFile where
  path : String
  text : String
deriving DecidableEq, Repr

structure Snapshot where
  files : List SourceFile := []
deriving DecidableEq, Repr

namespace Snapshot

/-- A list of files in order of path with one file more; a file of the same path gives way. -/
def insertFile (file : SourceFile) : List SourceFile → List SourceFile
  | [] => [file]
  | other :: rest =>
    if file.path = other.path then file :: rest
    else if file.path < other.path then file :: other :: rest
    else other :: insertFile file rest

def insert (snapshot : Snapshot) (file : SourceFile) : Snapshot :=
  ⟨insertFile file snapshot.files⟩

def ofFiles (files : List SourceFile) : Snapshot :=
  files.foldl insert {}

def get? (snapshot : Snapshot) (path : String) : Option String :=
  (snapshot.files.find? fun file => file.path == path).map SourceFile.text

end Snapshot

end CodeEvolution
