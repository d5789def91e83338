import CodeEvolution.Number.Decimal
/-!
# Arguments of the command line

Two directories and options in any order. An option is given once, with its value in the next
argument or attached to it; only patterns may be given again. A value does not look like an option.
After two hyphens nothing is an option.
-/
namespace CodeEvolution.CommandLine

inductive Format where
  | text
  | json
deriving DecidableEq, Repr

structure Arguments where
  before : String
  after : String
  config : Option String := none
  format : Format := .text
  patterns : List String := []
  maxConcurrency : Option Nat := none
  maxFileSize : Option Nat := none
  unexplained : Bool := false
deriving DecidableEq, Repr

inductive Setting where
  | config
  | format
  | pattern
  | maxConcurrency
  | maxFileSize
deriving DecidableEq, Repr

def Setting.ofName? : String → Option Setting
  | "config" => some .config
  | "format" => some .format
  | "include" => some .pattern
  | "max-concurrency" => some .maxConcurrency
  | "max-file-size" => some .maxFileSize
  | _ => none

def Format.ofName? : String → Option Format
  | "text" => some .text
  | "json" => some .json
  | _ => none

inductive Spelling where
  | positional
  | option (setting : Setting) (attached : Option String)
  | unexplained
  | endOfOptions
  | unknown
deriving DecidableEq, Repr

def Spelling.ofLong (body : List Char) : Spelling :=
  let name := String.ofList (body.takeWhile (· != '='))
  let attached := (body.dropWhile (· != '=')).tail?.map String.ofList
  match Setting.ofName? name with
  | some setting => .option setting attached
  | none => if name = "unexplained" ∧ attached = none then .unexplained else .unknown

def Spelling.of (argument : String) : Spelling :=
  match argument.toList with
  | ['-', '-'] => .endOfOptions
  | '-' :: '-' :: body => .ofLong body
  | ['-'] => .positional
  | ['-', 'c'] => .option .config none
  | '-' :: 'c' :: '=' :: value => .option .config (some (String.ofList value))
  | '-' :: 'c' :: value => .option .config (some (String.ofList value))
  | '-' :: _ => .unknown
  | _ => .positional

structure Draft where
  directories : List String := []
  config : Option String := none
  format : Option Format := none
  patterns : List String := []
  maxConcurrency : Option Nat := none
  maxFileSize : Option Nat := none
  unexplained : Bool := false
deriving DecidableEq, Repr

def count? (text : String) : Option Nat :=
  (Decimal.natural? text.toList).filter (· < Nat.pow 2 64)

def path? (text : String) : Option String :=
  if text = "" then none else some text

namespace Draft

def once {α : Type} (place value : Option α) : Option (Option α) :=
  match place, value with
  | none, some value => some (some value)
  | _, _ => none

def set? (draft : Draft) (setting : Setting) (value : String) : Option Draft :=
  match setting with
  | .config => (once draft.config (path? value)).map fun config => { draft with config }
  | .format => (once draft.format (Format.ofName? value)).map fun format => { draft with format }
  | .pattern => some { draft with patterns := draft.patterns ++ [value] }
  | .maxConcurrency =>
    (once draft.maxConcurrency (count? value)).map fun maxConcurrency =>
      { draft with maxConcurrency }
  | .maxFileSize =>
    (once draft.maxFileSize (count? value)).map fun maxFileSize => { draft with maxFileSize }

def addDirectory (draft : Draft) (path : String) : Draft :=
  { draft with directories := draft.directories ++ [path] }

def read? (draft : Draft) : List String → Option Draft
  | [] => some draft
  | argument :: rest =>
    match Spelling.of argument with
    | .positional => (draft.addDirectory argument).read? rest
    | .endOfOptions => some { draft with directories := draft.directories ++ rest }
    | .unexplained => if draft.unexplained then none else { draft with unexplained := true }.read? rest
    | .unknown => none
    | .option setting (some value) => do (← draft.set? setting value).read? rest
    | .option setting none =>
      match rest with
      | value :: rest =>
        if Spelling.of value = .positional then do (← draft.set? setting value).read? rest
        else none
      | [] => none

def finish? (draft : Draft) : Option Arguments :=
  match draft.directories.mapM path? with
  | some [before, after] =>
    some
      { before
        after
        config := draft.config
        format := draft.format.getD .text
        patterns := draft.patterns
        maxConcurrency := draft.maxConcurrency
        maxFileSize := draft.maxFileSize
        unexplained := draft.unexplained }
  | _ => none

end Draft

def Arguments.ofList? (arguments : List String) : Option Arguments :=
  (({} : Draft).read? arguments).bind Draft.finish?

end CodeEvolution.CommandLine
