/-!
# Dotted names

A qualified name is written with a point before its last part.
-/
namespace CodeEvolution.Text

def splitLastPoint (text : String) : Option String × String :=
  let reversed := text.toList.reverse
  let last := reversed.takeWhile (· != '.')
  match reversed.drop last.length with
  | [] => (none, text)
  | _ :: qualifier => (some (String.ofList qualifier.reverse), String.ofList last.reverse)

def splitFirstPoint? (text : String) : Option (String × String) :=
  let first := text.toList.takeWhile (· != '.')
  match text.toList.drop first.length with
  | [] => none
  | _ :: rest => some (String.ofList first, String.ofList rest)

def simpleName (text : String) : String :=
  (splitLastPoint text).2

def qualified (qualifier name : String) : String :=
  if qualifier.isEmpty then name else qualifier ++ "." ++ name

end CodeEvolution.Text
