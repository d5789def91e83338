import CodeEvolution.Syntax.Tree
import CodeEvolution.Yaml.Document
/-!
# Outlines from documents

An outline is written as nested sequences: the kind of a node, its flags, its start and stop, the
fields under which its parent holds it, and its children. The flags are one for a named node and two
for a missing one, added up.
-/
namespace CodeEvolution.Syntax.Outline

def scalarText? : Yaml.Node → Option String
  | .scalar _ _ text _ => some text
  | _ => none

def scalarNumber? (node : Yaml.Node) : Option Nat :=
  (scalarText? node).bind fun text => Decimal.natural? text.toList

mutual

def ofNode? : Yaml.Node → Option Outline
  | .sequence _ (kind :: flags :: start :: stop :: fields :: children) => do
    let flags ← scalarNumber? flags
    return {
      kind := ← scalarText? kind
      isNamed := flags % 2 == 1
      isMissing := flags / 2 % 2 == 1
      start := ← scalarNumber? start
      stop := ← scalarNumber? stop
      fields := ((← scalarText? fields).splitOn ",").filter (· != "")
      children := ← ofNodes? children }
  | _ => none

def ofNodes? : List Yaml.Node → Option (List Outline)
  | [] => some []
  | node :: rest => do return (← ofNode? node) :: (← ofNodes? rest)

end

def ofText? (text : String) : Option Outline :=
  ((Yaml.document? text).bind id).bind ofNode?

def erroneous : Outline :=
  { kind := "ERROR", isNamed := true, isMissing := false, start := 0, stop := 0, fields := [],
    children := [] }

end CodeEvolution.Syntax.Outline
