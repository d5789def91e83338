/-!
# Blank characters

Blank is the Unicode property `White_Space`. A text falls into words, the longest runs of
characters that are not blank; collapsing a text keeps its words and puts one space between
neighbours, so two texts with the same words collapse to the same text.
-/
namespace CodeEvolution.Text

variable (p : Char → Bool) (text : String)

def isBlank (c : Char) : Bool :=
  let n := c.toNat
  (decide (9 ≤ n) && decide (n ≤ 13)) || n == 0x20 || n == 0x85 || n == 0xA0 || n == 0x1680 ||
    (decide (0x2000 ≤ n) && decide (n ≤ 0x200A)) || n == 0x2028 || n == 0x2029 ||
    n == 0x202F || n == 0x205F || n == 0x3000

def wordsFrom (current : List Char) : List Char → List (List Char)
  | [] => if current.isEmpty then [] else [current.reverse]
  | c :: rest =>
    if isBlank c then
      (if current.isEmpty then [] else [current.reverse]) ++ wordsFrom [] rest
    else wordsFrom (c :: current) rest

def words (text : List Char) : List (List Char) :=
  wordsFrom [] text

def collapse : String :=
  String.ofList (List.intercalate [' '] (words text.toList))

def trimStartWhile : String :=
  String.ofList (text.toList.dropWhile p)

def trimEndWhile : String :=
  String.ofList (text.toList.reverse.dropWhile p).reverse

def trimStart : String :=
  trimStartWhile isBlank text

def trimEnd : String :=
  trimEndWhile isBlank text

def trim : String :=
  trimEnd (trimStart text)

end CodeEvolution.Text
