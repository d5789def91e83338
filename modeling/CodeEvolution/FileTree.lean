import CodeEvolution.Failure
import CodeEvolution.Path
/-!
# File trees

Directories and files as they are stored. A place is given by the names from the root to it. A path
leads to a place from directory to directory: each of its segments is looked for in a directory that
exists, `..` leads back to the directory around it, and an empty segment or `.` stays where it is.
-/
namespace CodeEvolution

structure FileTree where
  workingDirectory : List String := []
  directories : List (List String) := []
  files : List (List String × ByteArray) := []

variable (tree : FileTree) (place : List String) (path : String)

namespace FileTree

def enter (segment : String) : List String :=
  if Path.isIdle segment then place
  else if segment = ".." then place.dropLast
  else place ++ [segment]

def origin : List String :=
  if Path.isAbsolute path then [] else tree.workingDirectory

def workingPath : String :=
  "/" ++ String.intercalate "/" tree.workingDirectory

def bytes? : Option ByteArray :=
  (tree.files.find? fun file => file.1 == place).map Prod.snd

def isDirectory : Bool :=
  place.isEmpty || tree.directories.any place.isPrefixOf
    || tree.files.any fun file => place.isPrefixOf file.1 && file.1 != place

def contains : Bool :=
  (tree.bytes? place).isSome || tree.isDirectory place

def walk? (tree : FileTree) (place : List String) : List String → Option (List String)
  | [] => some place
  | segment :: rest =>
    if tree.isDirectory place then tree.walk? (enter place segment) rest else none

def find? : Option (List String) :=
  if path = "" then none
  else (tree.walk? (tree.origin path) (Path.pieces path)).filter tree.contains

def route (place : List String) : List String → List (List String)
  | [] => [place]
  | segment :: rest => place :: route (enter place segment) rest

def makeDirectory : FileTree :=
  { tree with directories := route (tree.origin path) (Path.pieces path) ++ tree.directories }

def write (bytes : ByteArray) : FileTree :=
  let places := route (tree.origin path) (Path.pieces path)
  let place := places.getLastD []
  { tree with
    directories := places.dropLast ++ tree.directories
    files := (tree.files.filter fun file => file.1 != place) ++ [(place, bytes)] }

def readText : Except Failure String :=
  match (tree.bytes? place).bind String.fromUTF8? with
  | some text => .ok text
  | none => .error .unreadable

def below (directory : List String) : List (List String × ByteArray) :=
  tree.files.filterMap fun file =>
    if directory.isPrefixOf file.1 then some (file.1.drop directory.length, file.2) else none

end FileTree

end CodeEvolution
