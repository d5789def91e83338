import CodeEvolution.Failure
import CodeEvolution.Span
import CodeEvolution.Text.Blank
/-!
# Syntax trees of a grammar

A parser hands over an outline: node kinds, flags, field names and byte offsets. Resolved
against the text of the file, every node carries its own text and its span in lines, columns
and offsets. A tree with an erroneous or a missing node is refused.
-/
namespace CodeEvolution.Syntax

structure Outline where
  kind : String
  isNamed : Bool
  isMissing : Bool
  start : Nat
  stop : Nat
  fields : List String
  children : List Outline
deriving Inhabited

structure Tree where
  kind : String
  isNamed : Bool
  isMissing : Bool
  span : Span
  text : String
  fields : List String
  children : List Tree
deriving Inhabited

structure Source where
  text : String
  positions : Array (Nat × Nat)

variable (source : Source) (s tree : Tree) (start : Nat) (name : String) (stop : Nat)

def positionsFrom (line column : Nat) (found : Array (Nat × Nat)) : List Char → Array (Nat × Nat)
  | [] => found.push (line, column)
  | c :: rest =>
    let found := (List.range c.utf8Size).foldl (fun a _ => a.push (line, column)) found
    if c = '\n' then positionsFrom (line + 1) 0 found rest
    else positionsFrom line (column + 1) found rest

namespace Source

def ofText (text : String) : Source :=
  ⟨text, positionsFrom 0 0 #[] text.toList⟩

def position (offset : Nat) : Nat × Nat :=
  source.positions.getD offset (0, 0)

def span : Span :=
  let first := source.position start
  let last := source.position stop
  ⟨first.1, first.2, last.1, last.2, start, stop⟩

def slice : String :=
  String.Pos.Raw.extract source.text ⟨start⟩ ⟨stop⟩

end Source

mutual

def Outline.resolve (source : Source) : Outline → Tree
  | ⟨kind, isNamed, isMissing, start, stop, fields, children⟩ =>
    ⟨kind, isNamed, isMissing, source.span start stop, source.slice start stop, fields,
      Outline.resolveAll source children⟩

def Outline.resolveAll (source : Source) : List Outline → List Tree
  | [] => []
  | outline :: rest => Outline.resolve source outline :: Outline.resolveAll source rest

end

namespace Tree

/-- The named children, nodes of kind `comment` left out. -/
def named : List Tree :=
  tree.children.filter fun child => child.isNamed && child.kind != "comment"

def statements : List Tree :=
  tree.children.filter fun child => child.isNamed

def namedOf (kind : String) : List Tree :=
  tree.named.filter fun child => child.kind == kind

def field? : Option Tree :=
  tree.children.find? fun child => child.fields.contains name

def fieldText : String :=
  ((tree.field? name).map Tree.text).getD ""

def hasToken (token : String) : Bool :=
  tree.children.any fun child => !child.isNamed && child.kind == token

def collapsed : String :=
  Text.collapse tree.text

def sameRange (t : Tree) : Bool :=
  s.span.startOffset == t.span.startOffset && s.span.endOffset == t.span.endOffset

def sameRangeAs (t : Option Tree) : Bool :=
  match t with
  | some t => s.sameRange t
  | none => false

mutual

def depth : Tree → Nat
  | ⟨_, _, _, _, _, _, children⟩ => depthAll children + 1

def depthAll : List Tree → Nat
  | [] => 0
  | tree :: rest => max (depth tree) (depthAll rest)

end

def fault? : Option (Nat × String) :=
  if tree.kind = "ERROR" then
    let snippet := String.ofList (tree.text.toList.take 40)
    some (tree.span.startLine, "unexpected syntax near `" ++ Text.collapse snippet ++ "`")
  else if tree.isMissing then some (tree.span.startLine, "missing `" ++ tree.kind ++ "`")
  else none

mutual

/-- The first fault of a tree: a node before its children, the last child first. -/
def firstFault? : Tree → Option (Nat × String)
  | ⟨kind, isNamed, isMissing, span, text, fields, children⟩ =>
    match fault? ⟨kind, isNamed, isMissing, span, text, fields, children⟩ with
    | some fault => some fault
    | none => lastFault? children

def lastFault? : List Tree → Option (Nat × String)
  | [] => none
  | tree :: rest =>
    match lastFault? rest with
    | some fault => some fault
    | none => firstFault? tree

end

def check (file : String) (tree : Tree) : Except Failure Unit :=
  match tree.firstFault? with
  | some fault => .error (.parse file fault.1 fault.2)
  | none => .ok ()

end Tree

end CodeEvolution.Syntax
