import CodeEvolution.Node.Basic
import CodeEvolution.Syntax.Tree
/-!
# Lowering rules

A language is lowered by rules, one for every kind of grammar node it knows, kept in tables. A
rule builds one node of the language-neutral tree and may call for the lowering of the nodes
below its own; the entry points it may call are handed to it, and tying the knot gives them
with a bound on the length of a chain of calls. A rule has no answer when a call below it has
none, so a chain of calls that would never end has no answer for any bound.
-/
namespace CodeEvolution.Lowering

open Syntax (Tree)

variable (kind : NodeKind) (call : Tree → Option Node) (tree : Tree) (children : List Node)

structure Calls where
  expression : Tree → Option Node
  statement : Tree → Option Node
  typeRef : Tree → Option Node
  declaration : Tree → Option Node

abbrev Rule := Calls → Tree → Option Node

abbrev RuleTable := List (String × Rule)

def Calls.silent : Calls :=
  ⟨fun _ => none, fun _ => none, fun _ => none, fun _ => none⟩

def RuleTable.apply (table : RuleTable) (otherwise : Rule) : Rule := fun calls tree =>
  ((table.lookup tree.kind).getD otherwise) calls tree

def tie (step : Calls → Calls) : Nat → Calls
  | 0 => Calls.silent
  | bound + 1 => step (tie step bound)

def nodeOf : Node :=
  ⟨kind, tree.span, children⟩

def absentAfter : Node :=
  Node.absentAt tree.span.endPoint

def absentBefore : Node :=
  Node.absentAt tree.span.startPoint

def otherNode : Node :=
  nodeOf (.other tree.kind tree.collapsed) tree children

def nameNode : Node :=
  nodeOf (.simpleName tree.text) tree []

def commentNode : Node :=
  nodeOf (.comment tree.text) tree []

def literalNode (sort : LiteralSort) (tree : Tree) : Node :=
  nodeOf (.literal sort tree.text) tree []

def emptyList (span : Span) : Node :=
  Node.leaf .expressionList span

def slot (tree : Option Tree) (fallback : Node) : Option Node :=
  match tree with
  | some tree => call tree
  | none => some fallback

def fieldSlot (name : String) (fallback : Node) : Option Node :=
  slot call (tree.field? name) fallback

def spanning (trees : List Tree) (children : List Node) (fallback : Node) : Node :=
  match trees.head?, trees.getLast? with
  | some first, some last => ⟨kind, first.span.through last.span, children⟩
  | _, _ => fallback

/-! ## Rules of both languages -/

def binary : Rule := fun calls tree => do
  let left ← fieldSlot calls.expression tree "left" (absentBefore tree)
  let right ← fieldSlot calls.expression tree "right" (absentAfter tree)
  return nodeOf (.binary (tree.fieldText "operator")) tree [left, right]

def parenthesized : Rule := fun calls tree => do
  return nodeOf .parenthesized tree [← slot calls.expression tree.named.head? (absentAfter tree)]

def otherExpression : Rule := fun calls tree => do
  return otherNode tree (← tree.named.mapM calls.expression)

def asserting : Rule := fun calls tree => do
  let test ← slot calls.expression tree.named[0]? (absentAfter tree)
  let message ← slot calls.expression tree.named[1]? (absentAfter tree)
  return nodeOf .assertStatement tree [test, message]

end CodeEvolution.Lowering
