import CodeEvolution.Config.OfDocument
import CodeEvolution.FileTree
/-!
# Finding the configuration

The configuration of a directory is the first configuration file on the way from it to the root,
else the one in the home directory of the user, else the default.
-/
namespace CodeEvolution.Config

def fileNames : List String :=
  ["refminer.yml", "refminer.yaml"]

def userPath : String :=
  ".refminer/config.yml"

def ofFile (tree : FileTree) (path : String) : Except Failure Config :=
  match tree.find? path with
  | some place => tree.readText place >>= ofText
  | none => .error (.notFound path)

def candidates (start : String) : List String :=
  (start :: Path.ancestors start).flatMap fun directory => fileNames.map (Path.join directory)

def discover? (tree : FileTree) (start : String) : Option String :=
  (candidates start).find? fun path => (tree.find? path).isSome

def load (tree home : FileTree) (start : String) : Except Failure Config :=
  match discover? tree start with
  | some path => ofFile tree path
  | none => if (home.find? userPath).isSome then ofFile home userPath else .ok {}

end CodeEvolution.Config
