import CodeEvolution.Text.Alphabet
import CodeEvolution.Text.Blank
/-!
# Tokens of a line of code

The tokens of a text are ASCII identifiers, numbers, quoted strings and single characters;
blanks stand between tokens and belong to none. A quoted string runs to the next quote of its
kind that is not escaped, and a quote without such a partner is a token of one character.
-/
namespace CodeEvolution.Text

def isNameStart (c : Char) : Bool :=
  isAsciiLetter c || c == '_'

def isNameChar (c : Char) : Bool :=
  isAsciiLetter c || isAsciiDigit c || c == '_'

def doubleQuote : Char := '\x22'

def singleQuote : Char := '\x27'

/-- The rest of a string literal up to and including the closing quote. A backslash takes the
character after it along, unless that is a line feed. -/
def quotedTail (quote : Char) : List Char → Option (List Char)
  | [] => none
  | c :: rest =>
    if c = quote then some [c]
    else if c = '\\' then
      match rest with
      | [] => none
      | d :: rest' =>
        if d = '\n' then none else (quotedTail quote rest').map fun tail => c :: d :: tail
    else (quotedTail quote rest).map fun tail => c :: tail

def fraction : List Char → List Char
  | '.' :: rest =>
    let digits := rest.takeWhile isDigit
    if digits.isEmpty then [] else '.' :: digits
  | _ => []

def lexeme (c : Char) (rest : List Char) : List Char :=
  if isNameStart c then c :: rest.takeWhile isNameChar
  else if isDigit c then
    c :: (rest.takeWhile isDigit ++ fraction (rest.dropWhile isDigit))
  else if c = doubleQuote ∨ c = singleQuote then
    match quotedTail c rest with
    | some tail => c :: tail
    | none => [c]
  else [c]

/-- The tokens of a text of which the first `skip` characters belong to a token already
listed. -/
def tokensAfter : Nat → List Char → List (List Char)
  | _, [] => []
  | skip + 1, _ :: rest => tokensAfter skip rest
  | 0, c :: rest =>
    if isBlank c then tokensAfter 0 rest
    else
      let token := lexeme c rest
      token :: tokensAfter (token.length - 1) rest

def tokens (text : List Char) : List (List Char) :=
  tokensAfter 0 text

def tokenize (text : String) : List String :=
  (tokens text.toList).map String.ofList

def isIdentifier (token : List Char) : Bool :=
  match token with
  | [] => false
  | c :: _ => isAlphabetic c || c == '_'

def identifiers (text : String) : List String :=
  ((tokens text.toList).filter isIdentifier).map String.ofList

/-- The last identifier of a text: `email` for `self.profile.email`. -/
def lastIdentifier? (text : String) : Option String :=
  (identifiers text).getLast?

end CodeEvolution.Text
