import CodeEvolution.Node.Render
/-!
# Facts about the expressions of a fragment

The parts of a statement that a replacement may exchange, each kind in source order. Type
references are not looked into: a type name is no variable.
-/
namespace CodeEvolution

def firstOccurrences [BEq α] : List α → List α
  | [] => []
  | a :: rest => a :: (firstOccurrences rest).filter fun b => !(b == a)

structure Invocation where
  text : String
  name : String
  receiver? : Option String
  arguments : List String
deriving DecidableEq, Repr

structure MemberAccess where
  text : String
  receiver : String
  name : String
deriving DecidableEq, Repr

structure Choice where
  text : String
  condition : String
  whenTrue : String
  whenFalse : String
deriving DecidableEq, Repr

structure Facts where
  names : List String := []
  invocations : List Invocation := []
  accesses : List MemberAccess := []
  literals : List String := []
  choices : List Choice := []
  creations : List String := []
  subscripts : List String := []
  arguments : List String := []
deriving DecidableEq, Repr

variable (node : Node) (nodes : List Node) (facts : Facts)

namespace Node

mutual

def expressions : Node → List Node
  | ⟨.typeRef name, span, children⟩ => [⟨.typeRef name, span, children⟩]
  | ⟨kind, span, children⟩ => ⟨kind, span, children⟩ :: expressionsOf children

def expressionsOf : List Node → List Node
  | [] => []
  | node :: rest => expressions node ++ expressionsOf rest

end

def identifier? : Option String :=
  match node.kind with
  | .simpleName identifier => some identifier
  | _ => none

def presentTexts : List String :=
  (nodes.filter fun node => !node.isAbsent).map render

def argumentTexts : List String :=
  match node.kind with
  | .invocation _ => presentTexts (node.children.drop 1)
  | .creation _ => presentTexts node.children
  | _ => []

def slotText (index : Nat) : String :=
  ((node.present? index).map render).getD ""

def invocation? : Option Invocation :=
  match node.kind with
  | .invocation name =>
    some ⟨node.render, name, (node.present? 0).map render, node.argumentTexts⟩
  | _ => none

def memberAccess? : Option MemberAccess :=
  match node.kind with
  | .fieldAccess name =>
    (node.present? 0).map fun receiver => ⟨node.render, receiver.render, name⟩
  | _ => none

def literal? : Option String :=
  match node.kind with
  | .literal _ text => some text
  | _ => none

def choice? : Option Choice :=
  match node.kind with
  | .ternary => some ⟨node.render, node.slotText 0, node.slotText 1, node.slotText 2⟩
  | _ => none

def creation? : Option String :=
  match node.kind with
  | .creation _ => some node.render
  | _ => none

def subscript? : Option String :=
  match node.kind with
  | .subscript => some node.render
  | _ => none

end Node

namespace Facts

def ofNodes : Facts :=
  let all := Node.expressionsOf nodes
  { names := firstOccurrences (all.filterMap Node.identifier?)
    invocations := all.filterMap Node.invocation?
    accesses := all.filterMap Node.memberAccess?
    literals := firstOccurrences (all.filterMap Node.literal?)
    choices := all.filterMap Node.choice?
    creations := firstOccurrences (all.filterMap Node.creation?)
    subscripts := firstOccurrences (all.filterMap Node.subscript?)
    arguments := firstOccurrences (all.flatMap Node.argumentTexts) }

def mentions (name : String) : Bool :=
  facts.names.contains name

def accessesMember (receiver name : String) : Bool :=
  facts.accesses.any fun access => access.receiver == receiver && access.name == name

def expressions : List String :=
  facts.invocations.map Invocation.text ++ facts.accesses.map MemberAccess.text ++
    facts.creations ++ facts.subscripts ++ facts.choices.map Choice.text ++
    facts.arguments ++ facts.literals

end Facts

end CodeEvolution
