/-!
# Places in a document text

A cursor is the rest of a text together with the number of bytes before it, the line and the column
that it has reached; a column is a character wide. Lines end with a line feed, a carriage return, both in this order, a next-line mark, a line
separator or a paragraph separator. All but the last two are read as a line feed.
-/
namespace CodeEvolution.Yaml

structure Cursor where
  rest : List Char
  offset : Nat := 0
  line : Nat := 0
  column : Nat := 0
deriving DecidableEq, Repr

variable (c : Char) (cursor : Cursor) (p : Char → Bool)

def isAllowed : Bool :=
  let n := c.toNat
  n == 0x9 || n == 0xA || n == 0xD || (0x20 ≤ n && n ≤ 0x7E) || n == 0x85
    || (0xA0 ≤ n && n ≤ 0xFFFD) || 0x10000 ≤ n

def isBreak : Bool :=
  c == '\n' || c == '\r' || c == '\u0085' || c == '\u2028' || c == '\u2029'

def isSpaceOrTab : Bool :=
  c == ' ' || c == '\t'

def isNameChar : Bool :=
  c.isAlphanum || c == '_' || c == '-'

def atBreakOrEnd : List Char → Bool
  | [] => true
  | c :: _ => isBreak c

def atBlankOrEnd : List Char → Bool
  | [] => true
  | c :: _ => isBreak c || isSpaceOrTab c

def atMark (mark : Char) : List Char → Bool
  | a :: b :: c :: rest => a == mark && b == mark && c == mark && atBlankOrEnd rest
  | _ => false

def byteCount (text : List Char) : Nat :=
  text.foldl (fun count c => count + c.utf8Size) 0

namespace Cursor

def skip (count : Nat) : Cursor :=
  { cursor with
    rest := cursor.rest.drop count
    offset := cursor.offset + byteCount (cursor.rest.take count)
    column := cursor.column + count }

def readWhile : List Char × Cursor :=
  let run := cursor.rest.takeWhile p
  (run, cursor.skip run.length)

def skipWhile : Cursor :=
  (cursor.readWhile p).2

/-- A line end as it is read, and the cursor after it. Elsewhere nothing is read. -/
def readBreak : List Char × Cursor :=
  let next (ending rest : List Char) : Cursor :=
    { rest, offset := cursor.offset + byteCount ending, line := cursor.line + 1, column := 0 }
  match cursor.rest with
  | '\r' :: '\n' :: rest => (['\n'], next ['\r', '\n'] rest)
  | c :: rest =>
    if c == '\u2028' || c == '\u2029' then ([c], next [c] rest)
    else if isBreak c then (['\n'], next [c] rest)
    else ([], cursor)
  | [] => ([], cursor)

def skipComment : Cursor :=
  if cursor.rest.head? == some '#' then cursor.skipWhile fun c => !isBreak c else cursor

def finishLine? : Option Cursor :=
  let cursor := (cursor.skipWhile isSpaceOrTab).skipComment
  if atBreakOrEnd cursor.rest then some cursor.readBreak.2 else none

def atDocumentMark : Bool :=
  cursor.column == 0 && (atMark '-' cursor.rest || atMark '.' cursor.rest)

end Cursor

end CodeEvolution.Yaml
