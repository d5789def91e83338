import CodeEvolution.Yaml.Token
/-!
# Scalars

Readers of the five ways to write a scalar. Within quotes and in plain scalars a line end between
two words is read as a space and an empty line as a line feed. A block scalar keeps its lines, or
folds them, and its header says what becomes of the line ends after the last line.
-/
namespace CodeEvolution.Yaml

variable (c : Char) (cursor : Cursor)

structure Gap where
  blanks : List Char := []
  broken : Bool := false
  first : List Char := []
  more : List Char := []
deriving DecidableEq, Repr

namespace Gap

def text (gap : Gap) : List Char :=
  if gap.broken then
    if gap.first == ['\n'] then (if gap.more.isEmpty then [' '] else gap.more)
    else gap.first ++ gap.more
  else gap.blanks.reverse

/-- Reads blanks and line ends. A tab before the column `least` of a later line is refused. -/
def read? (least : Nat) : Nat → Gap → Cursor → Option (Gap × Cursor)
  | 0, _, _ => none
  | fuel + 1, gap, cursor =>
    match cursor.rest with
    | c :: _ =>
      if isSpaceOrTab c then
        if gap.broken && cursor.column < least && c == '\t' then none
        else if gap.broken then read? least fuel gap (cursor.skip 1)
        else read? least fuel { gap with blanks := c :: gap.blanks } (cursor.skip 1)
      else if isBreak c then
        let (text, after) := cursor.readBreak
        if gap.broken then read? least fuel { gap with more := gap.more ++ text } after
        else read? least fuel { gap with blanks := [], broken := true, first := text } after
      else some (gap, cursor)
    | [] => some (gap, cursor)

end Gap

def hexValue? : Option Nat :=
  if '0' ≤ c && c ≤ '9' then some (c.toNat - 48)
  else if 'a' ≤ c && c ≤ 'f' then some (c.toNat - 87)
  else if 'A' ≤ c && c ≤ 'F' then some (c.toNat - 55)
  else none

def hexNumber? (digits : List Char) : Option Nat :=
  digits.foldl (fun value? c => do return (← value?) * 16 + (← hexValue? c)) (some 0)

def charOfNat? (n : Nat) : Option Char :=
  if n < 0xD800 || (0xDFFF < n && n ≤ 0x10FFFF) then some (Char.ofNat n) else none

def simpleEscape? : Char → Option Char
  | '0' => some '\x00'
  | 'a' => some '\x07'
  | 'b' => some '\x08'
  | 't' => some '\t'
  | '\t' => some '\t'
  | 'n' => some '\n'
  | 'v' => some '\x0b'
  | 'f' => some '\x0c'
  | 'r' => some '\r'
  | 'e' => some '\x1b'
  | ' ' => some ' '
  | '\x22' => some '\x22'
  | '/' => some '/'
  | '\\' => some '\\'
  | 'N' => some '\u0085'
  | '_' => some '\u00a0'
  | 'L' => some '\u2028'
  | 'P' => some '\u2029'
  | _ => none

def escapeWidth? : Char → Option Nat
  | 'x' => some 2
  | 'u' => some 4
  | 'U' => some 8
  | _ => none

def readEscape? : Option (Char × Cursor) :=
  match cursor.rest with
  | [] => none
  | c :: rest =>
    match simpleEscape? c, escapeWidth? c with
    | some meaning, _ => some (meaning, cursor.skip 1)
    | none, some width =>
      if rest.length < width then none
      else do
        let number ← hexNumber? (rest.take width)
        let meaning ← charOfNat? number
        return (meaning, cursor.skip (width + 1))
    | none, none => none

def quotationMark (single : Bool) : Char :=
  if single then '\x27' else '\x22'

/-- Reads a word of a quoted scalar, up to a blank, a line end or the closing mark. The result tells
whether the word ended with an escaped line end. The word is collected in reverse. -/
def readQuotedWord? (single : Bool) :
    Nat → List Char → Cursor → Option (List Char × Bool × Cursor)
  | 0, _, _ => none
  | fuel + 1, word, cursor =>
    match cursor.rest with
    | [] => some (word, false, cursor)
    | c :: rest =>
      if isBreak c || isSpaceOrTab c then some (word, false, cursor)
      else if single && c == '\x27' && rest.head? == some '\x27' then
        readQuotedWord? single fuel (c :: word) (cursor.skip 2)
      else if c == quotationMark single then some (word, false, cursor)
      else if !single && c == '\\' then
        match rest with
        | next :: _ =>
          if isBreak next then some (word, true, (cursor.skip 1).readBreak.2)
          else do
            let (meaning, after) ← readEscape? (cursor.skip 1)
            readQuotedWord? single fuel (meaning :: word) after
        | [] => none
      else readQuotedWord? single fuel (c :: word) (cursor.skip 1)

def readQuoted? (single : Bool) : Nat → List Char → Cursor → Option (String × Cursor)
  | 0, _, _ => none
  | fuel + 1, text, cursor =>
    if cursor.atDocumentMark || cursor.rest.isEmpty then none
    else do
      let (text, escaped, cursor) ← readQuotedWord? single (fuel + 1) text cursor
      if cursor.rest.head? == some (quotationMark single) then
        return (String.ofList text.reverse, cursor.skip 1)
      else
        let (gap, cursor) ← Gap.read? 0 (fuel + 1) { broken := escaped } cursor
        readQuoted? single fuel (gap.text.reverse ++ text) cursor

def isFlowMark : Bool :=
  c == ',' || c == '[' || c == ']' || c == '\x7b' || c == '\x7d'

def readPlainWord? (inFlow : Bool) : List Char → List Char → Option (List Char)
  | word, [] => some word
  | word, c :: rest =>
    if isBreak c || isSpaceOrTab c then some word
    else if inFlow && c == ':' && rest.head?.any (fun n => isFlowMark n || n == '?') then none
    else if (c == ':' && atBlankOrEnd rest) || (inFlow && isFlowMark c) then some word
    else readPlainWord? inFlow (c :: word) rest

/-- Reads a plain scalar whose further lines start at column `least` or later. The result tells
whether it is followed by a line end. The text is collected in reverse; the gap is the one before the
place reached. -/
def readPlain? (inFlow : Bool) (least : Nat) :
    Nat → List Char → Gap → Cursor → Option (String × Bool × Cursor)
  | 0, _, _, _ => none
  | fuel + 1, text, gap, cursor =>
    if cursor.atDocumentMark || cursor.rest.head? == some '#' then
      some (String.ofList text.reverse, gap.broken, cursor)
    else do
      let word ← readPlainWord? inFlow [] cursor.rest
      let (text, gap, cursor) :=
        if word.isEmpty then (text, gap, cursor)
        else (word ++ (gap.text.reverse ++ text), ({} : Gap), cursor.skip word.length)
      if !cursor.rest.head?.any (fun c => isBreak c || isSpaceOrTab c) then
        return (String.ofList text.reverse, gap.broken, cursor)
      else
        let (gap, cursor) ← Gap.read? least (fuel + 1) gap cursor
        if !inFlow && cursor.column < least then
          return (String.ofList text.reverse, gap.broken, cursor)
        else readPlain? inFlow least fuel text gap cursor

inductive Chomping where
  | strip
  | clip
  | keep
deriving DecidableEq, Repr

def Chomping.ofMark? : Char → Option Chomping
  | '+' => some .keep
  | '-' => some .strip
  | _ => none

def readIncrement? : Option (Nat × Cursor) :=
  match cursor.rest with
  | c :: _ =>
    if c == '0' then none
    else if c.isDigit then some (c.toNat - 48, cursor.skip 1)
    else some (0, cursor)
  | [] => some (0, cursor)

def readChomping : Option Chomping × Cursor :=
  match cursor.rest.head?.bind Chomping.ofMark? with
  | some chomping => (some chomping, cursor.skip 1)
  | none => (none, cursor)

def readHeader? : Option (Chomping × Nat × Cursor) := do
  let (first, cursor) := readChomping cursor
  let (increment, cursor) ← readIncrement? cursor
  let (second, cursor) :=
    if first.isNone && increment != 0 then readChomping cursor else (none, cursor)
  let cursor ← cursor.finishLine?
  return ((first.or second).getD .clip, increment, cursor)

/-- Reads empty lines and the indentation of the next line. With `indent` zero, any indentation is
read and its greatest width is the last result. -/
def readIndentation? (indent : Nat) :
    Nat → List Char → Nat → Cursor → Option (List Char × Nat × Cursor)
  | 0, _, _, _ => none
  | fuel + 1, breaks, widest, cursor =>
    let spaces := (cursor.rest.takeWhile (· == ' ')).length
    let cursor := cursor.skip (if indent == 0 then spaces else min spaces (indent - cursor.column))
    let widest := max widest cursor.column
    if (indent == 0 || cursor.column < indent) && cursor.rest.head? == some '\t' then none
    else if cursor.rest.head?.any isBreak then
      let (text, after) := cursor.readBreak
      readIndentation? indent fuel (breaks ++ text) widest after
    else some (breaks, widest, cursor)

structure BlockLines where
  text : List Char := []
  lineEnd : List Char := []
  breaks : List Char := []
  blankStart : Bool := false
deriving DecidableEq, Repr

namespace BlockLines

variable (lines : BlockLines) (folded : Bool)

/-- The line ends before a further line. A folded scalar joins two lines by a space, unless one of
them starts with a blank or empty lines stand between. -/
def separator (blankNext : Bool) : List Char :=
  if folded && lines.lineEnd == ['\n'] && !lines.blankStart && !blankNext then
    (if lines.breaks.isEmpty then [' '] else []) ++ lines.breaks
  else lines.lineEnd ++ lines.breaks

def read? (folded : Bool) (indent : Nat) : Nat → BlockLines → Cursor → Option (BlockLines × Cursor)
  | 0, _, _ => none
  | fuel + 1, lines, cursor =>
    if cursor.column != indent || cursor.rest.isEmpty then some (lines, cursor)
    else do
      let blank := cursor.rest.head?.any isSpaceOrTab
      let (line, cursor) := cursor.readWhile fun c => !isBreak c
      let (lineEnd, cursor) := cursor.readBreak
      let (breaks, _, after) ← readIndentation? indent (fuel + 1) [] 0 cursor
      read? folded indent fuel
        { text := line.reverse ++ ((lines.separator folded blank).reverse ++ lines.text)
          lineEnd
          breaks
          blankStart := blank } after

def chomped : Chomping → String
  | .strip => String.ofList lines.text.reverse
  | .clip => String.ofList (lines.text.reverse ++ lines.lineEnd)
  | .keep => String.ofList (lines.text.reverse ++ lines.lineEnd ++ lines.breaks)

end BlockLines

/-- Reads a block scalar, after its mark. It is indented deeper than `parent`, the column of the
collection around it. -/
def readBlock? (folded : Bool) (parent : Int) (fuel : Nat) (cursor : Cursor) :
    Option (String × Cursor) := do
  let (chomping, increment, cursor) ← readHeader? cursor
  let given := if increment == 0 then 0 else increment + parent.toNat
  let (breaks, widest, cursor) ← readIndentation? given fuel [] 0 cursor
  let indent := if given == 0 then max (max widest (parent + 1).toNat) 1 else given
  let (lines, cursor) ← BlockLines.read? folded indent fuel { breaks } cursor
  return (lines.chomped chomping, cursor)

end CodeEvolution.Yaml
