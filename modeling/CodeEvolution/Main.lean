import CodeEvolution.CommandLine.Run
import CodeEvolution.Syntax.OfDocument
/-!
# The program

Reads the two directories, the configuration files and the outlines that a call needs, makes the
call, prints what it leaves behind and exits with its code. Syntax trees are made by the parsers of
the languages, outside of this program: the outline of the tree of a file is expected beside it, in a
file of the same name with `.outline` appended.
-/
namespace CodeEvolution.CommandLine

variable (tree : FileTree) (place : List String) (path : String)

def outlineSuffix : String := ".outline"

def holdsOutline : Bool :=
  place.getLast?.any fun name => outlineSuffix.toList.isSuffixOf name.toList

def outlineBeside? : Option Syntax.Outline := do
  let name ← place.getLast?
  let text ← (tree.readText (place.dropLast ++ [name ++ outlineSuffix])).toOption
  Syntax.Outline.ofText? text

def grammarOf : Grammar := fun language text =>
  let shown := tree.files.findSome? fun file =>
    let path := String.intercalate "/" file.1
    if Language.ofPath? path = some language && String.fromUTF8? file.2 = some text then
      outlineBeside? tree file.1
    else none
  shown.getD .erroneous

def sourcesOf : FileTree :=
  { tree with files := tree.files.filter fun file => !holdsOutline file.1 }

def configPaths (arguments : Arguments) : List String :=
  match arguments.config with
  | some path => [path]
  | none => Config.candidates tree.workingPath

def readPath : IO FileTree := do
  let place := (← IO.currentDir) / path
  if ← place.isDir then return tree.makeDirectory path
  else if ← place.pathExists then return tree.write path (← IO.FS.readBinFile place)
  else return tree

def readDirectory : IO FileTree := do
  let place := (← IO.currentDir) / path
  if ← place.isDir then
    (← place.walkDir).foldlM (fun tree entry => readPath tree entry.toString)
      (tree.makeDirectory path)
  else return tree

def readTree (arguments : List String) : IO FileTree := do
  let path := (← IO.currentDir).toString
  let tree := { workingDirectory := Path.segments path : FileTree }.makeDirectory path
  match Arguments.ofList? arguments with
  | none => return tree
  | some arguments =>
    let tree ← readDirectory tree arguments.before
    let tree ← readDirectory tree arguments.after
    (configPaths tree arguments).foldlM readPath tree

def readHome : IO FileTree := do
  match ← IO.getEnv "HOME" with
  | none => return {}
  | some home =>
    let tree := { workingDirectory := Path.segments home : FileTree }.makeDirectory home
    readPath tree (Path.join home Config.userPath)

end CodeEvolution.CommandLine

def main (arguments : List String) : IO UInt32 := do
  let tree ← CodeEvolution.CommandLine.readTree arguments
  let home ← CodeEvolution.CommandLine.readHome
  let outcome := CodeEvolution.CommandLine.run (CodeEvolution.CommandLine.grammarOf tree)
    (CodeEvolution.CommandLine.sourcesOf tree) home arguments
  IO.print outcome.output
  IO.eprint outcome.errors
  return UInt32.ofNat outcome.exitCode
