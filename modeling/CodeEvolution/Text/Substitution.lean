import CodeEvolution.Text.Alphabet
/-!
# Substitution that respects identifiers

Every occurrence of a text is replaced unless it is part of a longer identifier or the member
part of a qualified name. Occurrences are taken from left to right without overlap, the
rejected ones included.
-/
namespace CodeEvolution.Text

/-- Whether an occurrence that follows `previous` does not cut an identifier at its start. -/
def freeBefore (old : List Char) (previous : Option Char) : Bool :=
  match old with
  | [] => true
  | c :: _ =>
    !isWordChar c || match previous with
      | none => true
      | some p => !isWordChar p && p != '.'

/-- Whether an occurrence followed by `rest` does not cut an identifier at its end. -/
def freeAfter (old rest : List Char) : Bool :=
  match old.getLast? with
  | none => true
  | some c =>
    !isWordChar c || match rest with
      | [] => true
      | n :: _ => !isWordChar n

def isFree (old : List Char) (previous : Option Char) (text : List Char) : Bool :=
  freeBefore old previous && freeAfter old (text.drop old.length)

/-- A text with its free occurrences of `old` replaced, and whether there were any. The first
`skip` characters belong to an occurrence already written. -/
def substituteFrom (old new : List Char) : Nat → Option Char → List Char → List Char × Bool
  | _, _, [] => ([], false)
  | skip + 1, _, c :: rest => substituteFrom old new skip (some c) rest
  | 0, previous, c :: rest =>
    if old.isPrefixOf (c :: rest) then
      let tail := substituteFrom old new (old.length - 1) (some c) rest
      if isFree old previous (c :: rest) then (new ++ tail.1, true)
      else (old ++ tail.1, tail.2)
    else
      let tail := substituteFrom old new 0 (some c) rest
      (c :: tail.1, tail.2)

def substitute? (old new text : List Char) : Option (List Char) :=
  if old.isEmpty || old == new then none
  else
    let result := substituteFrom old new 0 none text
    if result.2 then some result.1 else none

def replaceIdentifier? (text old new : String) : Option String :=
  (substitute? old.toList new.toList text.toList).map String.ofList

def containsWord (text word : String) : Bool :=
  (replaceIdentifier? text word "\x00").isSome

def occursIn (part : List Char) : List Char → Bool
  | [] => part.isEmpty
  | c :: rest => part.isPrefixOf (c :: rest) || occursIn part rest

def contains (text part : String) : Bool :=
  occursIn part.toList text.toList

end CodeEvolution.Text
