import CodeEvolution.Number.Decimal
/-!
# JSON texts

A JSON value whose objects keep the order of their fields, and its two written forms: compact,
and indented by two spaces with empty lists and objects on one line. In strings the quote, the
backslash and the control characters are escaped and everything else stands for itself.
-/
namespace CodeEvolution

inductive Json where
  | null
  | bool (value : Bool)
  | num (value : Nat)
  | int (value : Int)
  | str (value : String)
  | arr (items : List Json)
  | obj (fields : List (String × Json))
deriving Repr, Inhabited

namespace Json

def hexDigit (n : Nat) : Char :=
  if n < 10 then Char.ofNat (48 + n) else Char.ofNat (87 + n)

def escapeChar (c : Char) : List Char :=
  let n := c.toNat
  if n = 34 then ['\\', '\x22']
  else if n = 92 then ['\\', '\\']
  else if n = 8 then ['\\', 'b']
  else if n = 9 then ['\\', 't']
  else if n = 10 then ['\\', 'n']
  else if n = 12 then ['\\', 'f']
  else if n = 13 then ['\\', 'r']
  else if n < 32 then ['\\', 'u', '0', '0', hexDigit (n / 16), hexDigit (n % 16)]
  else [c]

def quote (text : String) : String :=
  "\"" ++ String.ofList (text.toList.flatMap escapeChar) ++ "\""

def intText : Int → String
  | .ofNat n => Decimal.ofNat n
  | .negSucc n => "-" ++ Decimal.ofNat (n + 1)

mutual

def compact : Json → String
  | .null => "null"
  | .bool true => "true"
  | .bool false => "false"
  | .num n => Decimal.ofNat n
  | .int i => intText i
  | .str s => quote s
  | .arr items => "[" ++ String.intercalate "," (compactItems items) ++ "]"
  | .obj fields => "\x7b" ++ String.intercalate "," (compactFields fields) ++ "\x7d"

def compactItems : List Json → List String
  | [] => []
  | item :: rest => compact item :: compactItems rest

def compactFields : List (String × Json) → List String
  | [] => []
  | (name, value) :: rest => (quote name ++ ":" ++ compact value) :: compactFields rest

end

def lineBreak (depth : Nat) : String :=
  String.ofList ('\n' :: List.replicate (2 * depth) ' ')

mutual

def prettyAt (depth : Nat) : Json → String
  | .arr [] => "[]"
  | .obj [] => "\x7b\x7d"
  | .arr items =>
    "[" ++ lineBreak (depth + 1) ++
      String.intercalate ("," ++ lineBreak (depth + 1)) (prettyItems (depth + 1) items) ++
      lineBreak depth ++ "]"
  | .obj fields =>
    "\x7b" ++ lineBreak (depth + 1) ++
      String.intercalate ("," ++ lineBreak (depth + 1)) (prettyFields (depth + 1) fields) ++
      lineBreak depth ++ "\x7d"
  | .null => "null"
  | .bool true => "true"
  | .bool false => "false"
  | .num n => Decimal.ofNat n
  | .int i => intText i
  | .str s => quote s

def prettyItems (depth : Nat) : List Json → List String
  | [] => []
  | item :: rest => prettyAt depth item :: prettyItems depth rest

def prettyFields (depth : Nat) : List (String × Json) → List String
  | [] => []
  | (name, value) :: rest =>
    (quote name ++ ": " ++ prettyAt depth value) :: prettyFields depth rest

end

def pretty (value : Json) : String :=
  prettyAt 0 value

def strings (items : List String) : Json :=
  .arr (items.map .str)

def nums (items : List Nat) : Json :=
  .arr (items.map .num)

def option {α : Type} (encode : α → Json) : Option α → Json
  | none => .null
  | some a => encode a

end Json

end CodeEvolution
