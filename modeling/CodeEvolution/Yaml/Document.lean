import CodeEvolution.Yaml.Lexer
import CodeEvolution.Yaml.Node
/-!
# Documents

A document is read from its tokens by one function for each kind of collection. Where a key or a
value is missing, an empty plain scalar stands. A text holds at most one document, and an alias
needs an anchor of its name before it.
-/
namespace CodeEvolution.Yaml

structure Reader where
  tokens : List Token
  handles : List (String × String)
  /-- The anchors by name. A name takes as its number the count of the names known. -/
  anchors : List (String × Nat) := []
deriving Repr

variable (reader : Reader)

namespace Reader

def peek : Option Token :=
  reader.tokens.head?

def next : Reader :=
  { reader with tokens := reader.tokens.drop 1 }

/-- Makes an anchor known under a name. A later anchor takes over the name of an earlier one. -/
def register : Option String → Option Nat × Reader
  | none => (none, reader)
  | some name =>
    let number := reader.anchors.length
    let others := reader.anchors.filter fun entry => entry.1 != name
    (some number, { reader with anchors := others ++ [(name, number)] })

def readAnchor : Option String × Reader :=
  match reader.peek with
  | some (.anchor name) => (some name, reader.next)
  | _ => (none, reader)

def readTag : Option (String × String) × Reader :=
  match reader.peek with
  | some (.tag handle suffix) => (some (handle, suffix), reader.next)
  | _ => (none, reader)

def readProperties : Option String × Option (String × String) × Reader :=
  match reader.readAnchor with
  | (some name, reader) =>
    let (tag, reader) := reader.readTag
    (some name, tag, reader)
  | (none, reader) =>
    match reader.readTag with
    | (some tag, reader) =>
      let (name, reader) := reader.readAnchor
      (name, some tag, reader)
    | (none, reader) => (none, none, reader)

def fullTag? : Option (String × String) → Option (Option String)
  | none => some none
  | some (handle, suffix) =>
    if handle == "" then some (some suffix)
    else (reader.handles.find? fun entry => entry.1 == handle).map fun entry =>
      some (entry.2 ++ suffix)

mutual

/-- Reads a node. `block` tells whether block collections may stand here, `indentless` whether a
sequence may whose hyphens stand in the column of the mapping around it. -/
def node? (block indentless : Bool) : Nat → Reader → Option (Node × Reader)
  | 0, _ => none
  | fuel + 1, reader =>
    match reader.peek with
    | some (.reference name) => do
      let (_, target) ← reader.anchors.find? fun entry => entry.1 == name
      return (.reference target, reader.next)
    | _ => do
      let (name, properTag, reader) := reader.readProperties
      let tag ← reader.fullTag? properTag
      let (anchor, known) := reader.register name
      match reader.peek with
      | some .blockEntry =>
        if indentless then
          let (items, reader) ← indentlessItems? fuel known
          return (.sequence anchor items, reader)
        else if name.isSome || tag.isSome then return (.scalar anchor tag "" .plain, known)
        else none
      | some (.scalar text style) => return (.scalar anchor tag text style, known.next)
      | some .flowSequenceStart =>
        let (items, reader) ← flowItems? true fuel known.next
        return (.sequence anchor items, reader)
      | some .flowMappingStart =>
        let (entries, reader) ← flowEntries? true fuel known.next
        return (.mapping anchor entries, reader)
      | some .blockSequenceStart =>
        if block then
          let (items, reader) ← blockItems? fuel known.next
          return (.sequence anchor items, reader)
        else if name.isSome || tag.isSome then return (.scalar anchor tag "" .plain, known)
        else none
      | some .blockMappingStart =>
        if block then
          let (entries, reader) ← blockEntries? fuel known.next
          return (.mapping anchor entries, reader)
        else if name.isSome || tag.isSome then return (.scalar anchor tag "" .plain, known)
        else none
      | _ =>
        if name.isSome || tag.isSome then return (.scalar anchor tag "" .plain, known)
        else none

def nodeUnless? (stops : List Token) (block indentless : Bool) :
    Nat → Reader → Option (Node × Reader)
  | 0, _ => none
  | fuel + 1, reader =>
    if reader.peek.any stops.contains then some (.empty, reader)
    else node? block indentless fuel reader

def blockItems? : Nat → Reader → Option (List Node × Reader)
  | 0, _ => none
  | fuel + 1, reader =>
    match reader.peek with
    | some .blockEntry => do
      let (item, reader) ← nodeUnless? [.blockEntry, .blockEnd] true false fuel reader.next
      let (items, reader) ← blockItems? fuel reader
      return (item :: items, reader)
    | some .blockEnd => some ([], reader.next)
    | _ => none

def indentlessItems? : Nat → Reader → Option (List Node × Reader)
  | 0, _ => none
  | fuel + 1, reader =>
    match reader.peek with
    | some .blockEntry => do
      let stops := [.blockEntry, .key, .value, .blockEnd]
      let (item, reader) ← nodeUnless? stops true false fuel reader.next
      let (items, reader) ← indentlessItems? fuel reader
      return (item :: items, reader)
    | _ => some ([], reader)

def blockEntries? : Nat → Reader → Option (List (Node × Node) × Reader)
  | 0, _ => none
  | fuel + 1, reader =>
    match reader.peek with
    | some .blockEnd => some ([], reader.next)
    | some .key => do
      let (key, reader) ← nodeUnless? [.key, .value, .blockEnd] true true fuel reader.next
      let (value, reader) ← blockValue? fuel reader
      let (entries, reader) ← blockEntries? fuel reader
      return ((key, value) :: entries, reader)
    | _ => none

def blockValue? : Nat → Reader → Option (Node × Reader)
  | 0, _ => none
  | fuel + 1, reader =>
    match reader.peek with
    | some .value => nodeUnless? [.key, .value, .blockEnd] true true fuel reader.next
    | _ => some (.empty, reader)

def flowItems? (first : Bool) : Nat → Reader → Option (List Node × Reader)
  | 0, _ => none
  | fuel + 1, reader =>
    match reader.peek with
    | some .flowSequenceEnd => some ([], reader.next)
    | token =>
      if !first && token != some .flowEntry then none
      else
        let reader := if first then reader else reader.next
        match reader.peek with
        | some .flowSequenceEnd => some ([], reader.next)
        | some .key => do
          let (entry, reader) ← flowPair? fuel reader.next
          let (items, reader) ← flowItems? false fuel reader
          return (.mapping none [entry] :: items, reader)
        | _ => do
          let (item, reader) ← node? false false fuel reader
          let (items, reader) ← flowItems? false fuel reader
          return (item :: items, reader)

/-- Reads a mapping of one entry, after its key token. A token that takes the place of the key is
passed over. -/
def flowPair? : Nat → Reader → Option ((Node × Node) × Reader)
  | 0, _ => none
  | fuel + 1, reader => do
    let stops := [.value, .flowEntry, .flowSequenceEnd]
    let (key, reader) ←
      if reader.peek.any stops.contains then some (Node.empty, reader.next)
      else node? false false fuel reader
    let (value, reader) ← flowValue? .flowSequenceEnd fuel reader
    return ((key, value), reader)

def flowValue? (close : Token) : Nat → Reader → Option (Node × Reader)
  | 0, _ => none
  | fuel + 1, reader =>
    match reader.peek with
    | some .value => nodeUnless? [.flowEntry, close] false false fuel reader.next
    | _ => some (.empty, reader)

def flowEntries? (first : Bool) : Nat → Reader → Option (List (Node × Node) × Reader)
  | 0, _ => none
  | fuel + 1, reader =>
    match reader.peek with
    | some .flowMappingEnd => some ([], reader.next)
    | token =>
      if !first && token != some .flowEntry then none
      else
        let reader := if first then reader else reader.next
        match reader.peek with
        | some .flowMappingEnd => some ([], reader.next)
        | some .key => do
          let stops := [.value, .flowEntry, .flowMappingEnd]
          let (key, reader) ← nodeUnless? stops false false fuel reader.next
          let (value, reader) ← flowValue? .flowMappingEnd fuel reader
          let (entries, reader) ← flowEntries? false fuel reader
          return ((key, value) :: entries, reader)
        | _ => do
          let (key, reader) ← node? false false fuel reader
          let (entries, reader) ← flowEntries? false fuel reader
          return ((key, .empty) :: entries, reader)

end

def standardHandles : List (String × String) :=
  [("!", "!"), ("!!", "tag:yaml.org,2002:")]

/-- Reads the directives before a document: at most one version, which has to be 1.1 or 1.2, and
each tag handle at most once. The result is the handles, and what follows the directives. -/
def directives? (versioned : Bool) (handles : List (String × String)) :
    List Token → Option (List (String × String) × List Token)
  | .versionDirective major minor :: rest =>
    if !versioned && major == 1 && (minor == 1 || minor == 2) then directives? true handles rest
    else none
  | .tagDirective handle scope :: rest =>
    if handles.any fun entry => entry.1 == handle then none
    else directives? versioned (handles ++ [(handle, scope)]) rest
  | rest => some (handles, rest)

def content? (mayBeEmpty : Bool) : Option Node := do
  let fuel := 4 * reader.tokens.length + 4
  let (node, reader) ←
    if mayBeEmpty && reader.peek.all [.documentStart, .documentEnd].contains then
      some (.empty, reader)
    else node? true false fuel reader
  if reader.tokens.all (· == .documentEnd) then return node else none

end Reader

/-- The document of a text: `none` if the text is malformed, `some none` if it holds no document. -/
def document? (text : String) : Option (Option Node) := do
  let tokens ← tokens? text
  match tokens with
  | [] => return none
  | first :: rest =>
    match first with
    | .documentStart =>
      return some (← Reader.content? { tokens := rest, handles := Reader.standardHandles } true)
    | .versionDirective _ _ | .tagDirective _ _ =>
      let (handles, rest) ← Reader.directives? false [] tokens
      match rest with
      | .documentStart :: rest =>
        let handles := handles ++ Reader.standardHandles
        return some (← Reader.content? { tokens := rest, handles } true)
      | _ => none
    | _ => return some (← Reader.content? { tokens, handles := Reader.standardHandles } false)

end CodeEvolution.Yaml
