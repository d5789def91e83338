import CodeEvolution.FilePattern.Basic
import CodeEvolution.Failure
/-!
# Reading file patterns

In the text of a pattern `?` is a byte, `*` a run of bytes, `[…]` a class of bytes and `{…,…}`
a choice; a backslash takes away the meaning of the character after it. Two stars that fill a
segment of the path stand for any number of directories.
-/
namespace CodeEvolution.FilePattern

structure OpenChoice where
  branches : List (List Piece)
  outer : List Piece
deriving Repr

structure Draft where
  pieces : List Piece := []
  choices : List OpenChoice := []
deriving Repr

variable (draft : Draft) (piece : Piece)

namespace Draft

def push : Draft :=
  { draft with pieces := piece :: draft.pieces }

def literal (draft : Draft) (c : Char) : Draft :=
  draft.push (.literal (String.singleton c).toUTF8.toList)

def twoRuns : Draft :=
  (draft.push .anyRun).push .anyRun

/-- Replaces the last piece by one that stands for directories. Directories absorb directories at
the start and at the end of a pattern. -/
def directories : Draft :=
  match draft.pieces with
  | .leadingDirectories :: _ => draft
  | .trailingPath :: _ => draft
  | _ :: before => { draft with pieces := piece :: before }
  | [] => draft.push piece

def openChoice : Draft :=
  { pieces := [], choices := ⟨[], draft.pieces⟩ :: draft.choices }

def endBranch : Draft :=
  match draft.choices with
  | choice :: outer =>
    { pieces := []
      choices := { choice with branches := draft.pieces.reverse :: choice.branches } :: outer }
  | [] => draft.literal ','

def closeChoice? : Option Draft :=
  match draft.choices with
  | choice :: outer =>
    let branches := (draft.pieces.reverse :: choice.branches).reverse
    some { pieces := .choice branches :: choice.outer, choices := outer }
  | [] => none

/-- Adds two stars and tells how many characters after them are used up. They stand for directories
if nothing of their segment comes before them and nothing of it after them. -/
def twoStars (previous : Option Char) (rest : List Char) : Draft × Nat :=
  let inChoice := !draft.choices.isEmpty
  if draft.pieces.isEmpty then
    match rest with
    | [] => (draft.push .leadingDirectories, 0)
    | '/' :: _ => (draft.push .leadingDirectories, 1)
    | _ => (draft.twoRuns, 0)
  else if previous != some '/' && !(inChoice && (previous == some ',' || previous == some '\x7b'))
  then (draft.twoRuns, 0)
  else
    match rest with
    | [] => (draft.directories .trailingPath, 0)
    | '/' :: _ => (draft.directories .innerDirectories, 1)
    | c :: _ =>
      if inChoice && (c == ',' || c == '\x7d') then (draft.directories .trailingPath, 0)
      else (draft.twoRuns, 0)

end Draft

structure ClassDraft where
  ranges : List (Char × Char) := []
  joining : Bool := false
deriving Repr

namespace ClassDraft

/-- Adds a character: as the end of a range after a hyphen, else by itself. A range that runs
backwards is refused. -/
def add? (draft : ClassDraft) (c : Char) : Option ClassDraft :=
  match draft.joining, draft.ranges with
  | true, (low, _) :: ranges => if c < low then none else some { ranges := (low, c) :: ranges }
  | _, ranges => some { ranges := (c, c) :: ranges }

def finish (draft : ClassDraft) : List (Char × Char) :=
  (if draft.joining then ('-', '-') :: draft.ranges else draft.ranges).reverse

/-- Reads a class after its opening bracket and negation. A bracket or a hyphen that comes first
stands for itself. -/
def read? (first : Bool) (draft : ClassDraft) : List Char → Option (List (Char × Char) × List Char)
  | [] => none
  | c :: rest =>
    if c = ']' ∧ !first then some (draft.finish, rest)
    else if c = '-' ∧ !first ∧ !draft.joining then read? false { draft with joining := true } rest
    else
      match draft.add? c with
      | some draft => read? false draft rest
      | none => none

end ClassDraft

def bytesOf (c : Char) : List UInt8 :=
  (String.singleton c).toUTF8.toList

def single (byte : UInt8) : UInt8 × UInt8 :=
  (byte, byte)

/-- The ranges of bytes for a range of characters: the bytes of both ends, and a range from the last
byte of the lower to the first byte of the upper end, which must not run backwards. -/
def byteRanges? (range : Char × Char) : Option (List (UInt8 × UInt8)) :=
  if range.1 = range.2 then some ((bytesOf range.1).map single)
  else
    match (bytesOf range.1).reverse, bytesOf range.2 with
    | low :: before, high :: after =>
      if high < low then none
      else some (before.reverse.map single ++ (low, high) :: after.map single)
    | _, _ => none

def readClass? (text : List Char) : Option (Piece × List Char) := do
  let (negated, text) :=
    match text with
    | '!' :: rest => (true, rest)
    | '^' :: rest => (true, rest)
    | _ => (false, text)
  let (ranges, rest) ← ClassDraft.read? true {} text
  let bytes ← ranges.mapM byteRanges?
  return (.byteClass negated bytes.flatten, rest)

def read? : Nat → Draft → Option Char → List Char → Option Draft
  | 0, _, _, _ => none
  | _ + 1, draft, _, [] => some draft
  | fuel + 1, draft, previous, c :: rest =>
    match c with
    | '?' => read? fuel (draft.push .anyByte) c rest
    | '*' =>
      match rest with
      | '*' :: rest =>
        let (draft, used) := draft.twoStars previous rest
        read? fuel draft (if used = 0 then '*' else '/') (rest.drop used)
      | _ => read? fuel (draft.push .anyRun) c rest
    | '[' => do
      let (piece, rest) ← readClass? rest
      read? fuel (draft.push piece) (some ']') rest
    | '\x7b' => read? fuel draft.openChoice c rest
    | '\x7d' => do read? fuel (← draft.closeChoice?) c rest
    | ',' => read? fuel draft.endBranch c rest
    | '\\' =>
      match rest with
      | escaped :: rest => read? fuel (draft.literal escaped) escaped rest
      | [] => none
    | _ => read? fuel (draft.literal c) c rest

def maxNesting : Nat := 250

/-- The pattern of a text. All classes and choices have to be closed, and they must not stand in each
other too deeply. -/
def ofText (text : String) : Except Failure FilePattern :=
  match read? (text.toList.length + 1) {} none text.toList with
  | some ⟨pieces, []⟩ =>
    let pattern : FilePattern := ⟨pieces.reverse⟩
    if pattern.nesting ≤ maxNesting then .ok pattern else .error .malformedPattern
  | _ => .error .malformedPattern

end CodeEvolution.FilePattern
