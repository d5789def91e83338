import CodeEvolution.Yaml.Scalar
/-!
# Names, tags and directives

Readers of the words that start with a mark of their own: anchors and aliases, tags, and the
directives that may stand before a document.
-/
namespace CodeEvolution.Yaml

variable (wide : Bool) (fuel : Nat) (cursor : Cursor)

def readName? : Option (String × Cursor) :=
  let (name, after) := cursor.readWhile isNameChar
  let ended := atBlankOrEnd after.rest || after.rest.head?.any "?:,]\x7d%@\x60".toList.contains
  if name.isEmpty || !ended then none else some (String.ofList name, after)

/-- Whether a character may stand in the address of a tag. Commas and square brackets may only
between angle brackets and in directives. -/
def isAddressChar (c : Char) : Bool :=
  isNameChar c || ";/?:@&=+$.%!~*\x27()".toList.contains c
    || (wide && (c == ',' || c == '[' || c == ']'))

def readPercent? : Option (Nat × Cursor) :=
  match cursor.rest with
  | '%' :: a :: b :: _ => do return (← hexNumber? [a, b], cursor.skip 3)
  | _ => none

def leadingByte? (byte : Nat) : Option (Nat × Nat) :=
  if byte < 0x80 then some (0, byte)
  else if 0xC0 ≤ byte && byte < 0xE0 then some (1, byte - 0xC0)
  else if 0xE0 ≤ byte && byte < 0xF0 then some (2, byte - 0xE0)
  else if 0xF0 ≤ byte && byte < 0xF8 then some (3, byte - 0xF0)
  else none

def readTrailing? : Nat → Nat → Cursor → Option (Nat × Cursor)
  | 0, value, cursor => some (value, cursor)
  | count + 1, value, cursor => do
    let (byte, cursor) ← readPercent? cursor
    if 0x80 ≤ byte && byte < 0xC0 then readTrailing? count (value * 64 + (byte - 0x80)) cursor
    else none

/-- Reads a character that is written by its bytes. A character that is not written with as many
bytes as it takes is replaced. -/
def readAddressEscape? : Option (Char × Cursor) := do
  let (byte, cursor) ← readPercent? cursor
  let (count, bits) ← leadingByte? byte
  let (value, cursor) ← readTrailing? count bits cursor
  let meant := (charOfNat? value).filter fun c => c.utf8Size == count + 1
  return (meant.getD '\ufffd', cursor)

def readAddress? (wide : Bool) : Nat → List Char → Cursor → Option (List Char × Cursor)
  | 0, _, _ => none
  | fuel + 1, address, cursor =>
    match cursor.rest with
    | [] => some (address, cursor)
    | c :: _ =>
      if c == '%' then do
        let (meaning, cursor) ← readAddressEscape? cursor
        readAddress? wide fuel (meaning :: address) cursor
      else if isAddressChar wide c then readAddress? wide fuel (c :: address) (cursor.skip 1)
      else some (address, cursor)

/-- The text of an address, given in reverse. It ends before a null character. -/
def addressText (reversed : List Char) : String :=
  String.ofList (reversed.reverse.takeWhile (· != '\x00'))

def readFullAddress? : Option (String × Cursor) := do
  let (address, cursor) ← readAddress? wide fuel [] cursor
  if address.isEmpty then none else return (addressText address, cursor)

def readHandle? : Option (List Char × Cursor) :=
  if cursor.rest.head? == some '!' then
    let (name, cursor) := (cursor.skip 1).readWhile isNameChar
    if cursor.rest.head? == some '!' then some ('!' :: (name ++ ['!']), cursor.skip 1)
    else some ('!' :: name, cursor)
  else none

def readShorthand? : Option (Token × Cursor) := do
  let (handle, cursor) ← readHandle? cursor
  if 1 < handle.length && handle.getLast? == some '!' then
    let (suffix, cursor) ← readFullAddress? false fuel cursor
    return (.tag (String.ofList handle) suffix, cursor)
  else
    let (address, cursor) ← readAddress? false fuel (handle.drop 1).reverse cursor
    let suffix := addressText address
    if suffix = "" then return (.tag "" "!", cursor) else return (.tag "!" suffix, cursor)

def readVerbatim? : Option (Token × Cursor) := do
  let (address, cursor) ← readFullAddress? true fuel (cursor.skip 2)
  if cursor.rest.head? == some '>' then return (.tag "" address, cursor.skip 1) else none

def readTag? (inFlow : Bool) (fuel : Nat) (cursor : Cursor) : Option (Token × Cursor) := do
  let (token, cursor) ←
    if (cursor.rest.drop 1).head? == some '<' then readVerbatim? fuel cursor
    else readShorthand? fuel cursor
  if (inFlow && cursor.rest.head? == some ',') || atBlankOrEnd cursor.rest then
    return (token, cursor)
  else none

def readVersionNumber? : Option (Nat × Cursor) :=
  let (digits, cursor) := cursor.readWhile Char.isDigit
  if digits.isEmpty || 9 < digits.length then none
  else some (digits.foldl (fun value c => value * 10 + (c.toNat - 48)) 0, cursor)

def readVersion? : Option (Token × Cursor) := do
  let (major, cursor) ← readVersionNumber? (cursor.skipWhile isSpaceOrTab)
  if cursor.rest.head? == some '.' then
    let (minor, cursor) ← readVersionNumber? (cursor.skip 1)
    return (.versionDirective major minor, cursor)
  else none

def readTagDirective? : Option (Token × Cursor) := do
  let (handle, cursor) ← readHandle? (cursor.skipWhile isSpaceOrTab)
  if handle != ['!'] && !(1 < handle.length && handle.getLast? == some '!') then none
  else if !cursor.rest.head?.any isSpaceOrTab then none
  else
    let (scope, cursor) ← readFullAddress? true fuel (cursor.skipWhile isSpaceOrTab)
    if atBlankOrEnd cursor.rest then
      return (.tagDirective (String.ofList handle) scope, cursor)
    else none

def readDirective? : Option (Token × Cursor) := do
  let (name, cursor) := cursor.readWhile isNameChar
  if !atBlankOrEnd cursor.rest then none
  else
    let (token, cursor) ←
      if name == "YAML".toList then readVersion? cursor
      else if name == "TAG".toList then readTagDirective? fuel cursor
      else none
    return (token, ← cursor.finishLine?)

end CodeEvolution.Yaml
