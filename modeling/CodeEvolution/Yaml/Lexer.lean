import CodeEvolution.Yaml.Tag
/-!
# From text to tokens

A document text is read token by token. Outside of brackets the column of a token decides which
block collections start and end before it. Whether a word is a mapping key shows only when a colon
follows it, so the place of a word that may be a key is kept, and the key token is put there when
the colon comes. Such a key stands on one line and is at most 1024 bytes long.
-/
namespace CodeEvolution.Yaml

structure PendingKey where
  /-- Whether a colon has to follow, because the word stands where only a key may stand. -/
  required : Bool
  position : Nat
  offset : Nat
  line : Nat
  column : Nat
deriving DecidableEq, Repr

def PendingKey.isStale (key : PendingKey) (cursor : Cursor) : Bool :=
  key.line < cursor.line || key.offset + 1024 < cursor.offset

structure Lexer where
  cursor : Cursor
  tokens : List Token := []
  /-- The column of the innermost block collection; `-1` outside of all. -/
  indent : Int := -1
  outer : List Int := []
  pending : Option PendingKey := none
  /-- For each open bracket, the innermost first, the word around it that may be a key. -/
  brackets : List (Option PendingKey) := []
  keyAllowed : Bool := true
deriving DecidableEq, Repr

variable (lexer : Lexer) (fuel : Nat) (token : Token)

namespace Lexer

def inFlow : Bool :=
  !lexer.brackets.isEmpty

def emit : Lexer :=
  { lexer with tokens := token :: lexer.tokens }

def emitAt (position : Nat) (token : Token) : Lexer :=
  let later := lexer.tokens.length - position
  { lexer with tokens := lexer.tokens.take later ++ token :: lexer.tokens.drop later }

def skip (lexer : Lexer) (count : Nat) : Lexer :=
  { lexer with cursor := lexer.cursor.skip count }

/-- Skips blanks, comments and line ends up to the next token. A tab counts as a blank only where
no key may start. A byte order mark at the start of a line is skipped and takes up a column. -/
def toNextToken (lexer : Lexer) : Nat → Lexer
  | 0 => lexer
  | fuel + 1 =>
    let cursor := lexer.cursor
    let cursor :=
      if cursor.column == 0 && cursor.rest.head? == some '\ufeff' then cursor.skip 1 else cursor
    let cursor := cursor.skipWhile fun c =>
      c == ' ' || (c == '\t' && (lexer.inFlow || !lexer.keyAllowed))
    let cursor := cursor.skipComment
    if cursor.rest.head?.any isBreak then
      let keyAllowed := lexer.keyAllowed || !lexer.inFlow
      { lexer with cursor := cursor.readBreak.2, keyAllowed }.toNextToken fuel
    else { lexer with cursor }

/-- A pending key after the words up to a place; a required one must not go stale. -/
def refresh? (cursor : Cursor) : Option PendingKey → Option (Option PendingKey)
  | none => some none
  | some key =>
    if key.isStale cursor then (if key.required then none else some none) else some (some key)

def dropStale? : Option Lexer := do
  let pending ← refresh? lexer.cursor lexer.pending
  let brackets ← lexer.brackets.mapM (refresh? lexer.cursor)
  return { lexer with pending, brackets }

def dropPending? : Option Lexer :=
  match lexer.pending with
  | some key => if key.required then none else some { lexer with pending := none }
  | none => some lexer

def savePending? : Option Lexer :=
  if lexer.keyAllowed then do
    let lexer ← lexer.dropPending?
    return { lexer with
      pending := some
        { required := !lexer.inFlow && lexer.indent == (lexer.cursor.column : Int)
          position := lexer.tokens.length
          offset := lexer.cursor.offset
          line := lexer.cursor.line
          column := lexer.cursor.column } }
  else some lexer

def unrollTo (column : Int) (lexer : Lexer) : List Int → Lexer
  | [] => lexer
  | around :: rest =>
    if lexer.indent > column then
      unrollTo column { lexer.emit .blockEnd with indent := around, outer := rest } rest
    else lexer

def unroll (column : Int) : Lexer :=
  if lexer.inFlow then lexer else unrollTo column lexer lexer.outer

/-- Starts a block collection at a column, unless one is open there or the place is between
brackets. Its token is put in after the first `position` ones. -/
def roll (column position : Nat) (token : Token) : Lexer :=
  if !lexer.inFlow && lexer.indent < (column : Int) then
    { lexer.emitAt position token with indent := column, outer := lexer.indent :: lexer.outer }
  else lexer

def leaveBlocks? : Option Lexer := do
  let lexer ← (lexer.unroll (-1)).dropPending?
  return { lexer with keyAllowed := false }

def documentMark? : Option Lexer := do
  let lexer ← lexer.leaveBlocks?
  return (lexer.skip 3).emit token

def directive? : Option Lexer := do
  let lexer ← lexer.leaveBlocks?
  let (token, cursor) ← readDirective? fuel (lexer.cursor.skip 1)
  return { lexer.emit token with cursor }

def openBracket? : Option Lexer := do
  let lexer ← lexer.savePending?
  return { (lexer.skip 1).emit token with
    brackets := lexer.pending :: lexer.brackets, pending := none, keyAllowed := true }

def closeBracket? : Option Lexer := do
  let lexer ← lexer.dropPending?
  let lexer := { (lexer.skip 1).emit token with keyAllowed := false }
  match lexer.brackets with
  | around :: brackets => return { lexer with pending := around, brackets }
  | [] => return lexer

def flowEntry? : Option Lexer := do
  let lexer ← lexer.dropPending?
  return { (lexer.skip 1).emit .flowEntry with keyAllowed := true }

/-- Starts a block collection at this place, if a key may start here. Between brackets nothing is
started. -/
def rollHere? : Option Lexer :=
  if lexer.inFlow then some lexer
  else if lexer.keyAllowed then
    some (lexer.roll lexer.cursor.column lexer.tokens.length token)
  else none

def blockEntry? : Option Lexer := do
  let lexer ← lexer.rollHere? .blockSequenceStart
  let lexer ← lexer.dropPending?
  return { (lexer.skip 1).emit .blockEntry with keyAllowed := true }

def explicitKey? : Option Lexer := do
  let lexer ← lexer.rollHere? .blockMappingStart
  let lexer ← lexer.dropPending?
  return { (lexer.skip 1).emit .key with keyAllowed := !lexer.inFlow }

def value? : Option Lexer :=
  match lexer.pending with
  | some key =>
    let lexer := lexer.emitAt key.position .key
    let lexer := lexer.roll key.column key.position .blockMappingStart
    some { (lexer.skip 1).emit .value with pending := none, keyAllowed := false }
  | none => do
    let lexer ← lexer.rollHere? .blockMappingStart
    return { (lexer.skip 1).emit .value with keyAllowed := !lexer.inFlow }

def word? (read : Cursor → Option (Token × Cursor)) : Option Lexer := do
  let lexer ← lexer.savePending?
  let (token, cursor) ← read lexer.cursor
  return { lexer.emit token with cursor, keyAllowed := false }

def name? (token : String → Token) : Option Lexer :=
  lexer.word? fun cursor => do
    let (name, cursor) ← readName? (cursor.skip 1)
    return (token name, cursor)

def quoted? (single : Bool) (style : ScalarStyle) : Option Lexer :=
  lexer.word? fun cursor => do
    let (text, cursor) ← readQuoted? single fuel [] (cursor.skip 1)
    return (.scalar text style, cursor)

def block? (folded : Bool) (style : ScalarStyle) : Option Lexer := do
  let lexer ← lexer.dropPending?
  let (text, cursor) ← readBlock? folded lexer.indent fuel (lexer.cursor.skip 1)
  return { lexer.emit (.scalar text style) with cursor, keyAllowed := true }

def plain? : Option Lexer := do
  let lexer ← lexer.savePending?
  let least := (lexer.indent + 1).toNat
  let (text, broken, cursor) ← readPlain? lexer.inFlow least fuel [] {} lexer.cursor
  return { lexer.emit (.scalar text .plain) with cursor, keyAllowed := broken }

def startsPlain (inFlow : Bool) : List Char → Bool
  | [] => false
  | c :: rest =>
    if c == '-' then !rest.head?.any isSpaceOrTab
    else if c == '?' || c == ':' then !inFlow && !atBlankOrEnd rest
    else !(isBreak c || isSpaceOrTab c || ",[]\x7b\x7d#&*!|>\x27\x22%@\x60".toList.contains c)

def readToken? (c : Char) (rest : List Char) : Option Lexer :=
  let apart := lexer.inFlow || atBlankOrEnd rest
  let lineStart := lexer.cursor.column == 0
  if lineStart && c == '%' then lexer.directive? fuel
  else if lineStart && atMark '-' (c :: rest) then lexer.documentMark? .documentStart
  else if lineStart && atMark '.' (c :: rest) then lexer.documentMark? .documentEnd
  else if c == '[' then lexer.openBracket? .flowSequenceStart
  else if c == '\x7b' then lexer.openBracket? .flowMappingStart
  else if c == ']' then lexer.closeBracket? .flowSequenceEnd
  else if c == '\x7d' then lexer.closeBracket? .flowMappingEnd
  else if c == ',' then lexer.flowEntry?
  else if c == '-' && atBlankOrEnd rest then lexer.blockEntry?
  else if c == '?' && apart then lexer.explicitKey?
  else if c == ':' && apart then lexer.value?
  else if c == '*' then lexer.name? .reference
  else if c == '&' then lexer.name? .anchor
  else if c == '!' then lexer.word? (readTag? lexer.inFlow fuel)
  else if c == '|' && !lexer.inFlow then lexer.block? fuel false .literal
  else if c == '>' && !lexer.inFlow then lexer.block? fuel true .folded
  else if c == '\x27' then lexer.quoted? fuel true .singleQuoted
  else if c == '\x22' then lexer.quoted? fuel false .doubleQuoted
  else if startsPlain lexer.inFlow (c :: rest) then lexer.plain? fuel
  else none

def run? (lexer : Lexer) : Nat → Option (List Token)
  | 0 => none
  | fuel + 1 => do
    let lexer ← (lexer.toNextToken (fuel + 1)).dropStale?
    let lexer := lexer.unroll lexer.cursor.column
    match lexer.cursor.rest with
    | [] => return (← lexer.leaveBlocks?).tokens.reverse
    | c :: rest => (← lexer.readToken? (fuel + 1) c rest).run? fuel

end Lexer

def tokens? (text : String) : Option (List Token) :=
  let chars := text.toList
  if chars.all isAllowed then ({ cursor := { rest := chars } } : Lexer).run? (chars.length + 2)
  else none

end CodeEvolution.Yaml
