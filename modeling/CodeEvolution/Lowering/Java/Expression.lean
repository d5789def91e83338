import CodeEvolution.Lowering.Basic
import CodeEvolution.Node.Render
/-!
# Java expressions and types

The rules for expressions, parameters and types.
-/
namespace CodeEvolution.Lowering.Java

open Syntax (Tree)

variable (calls : Calls) (tree : Tree)

def typeRef : Rule := fun calls tree =>
  match tree.kind with
  | "generic_type" => do
    let base := tree.named.find? fun part => part.kind != "type_arguments"
    let base := (base.map Tree.collapsed).getD ""
    let arguments ← ((tree.namedOf "type_arguments").flatMap Tree.named).mapM calls.typeRef
    return nodeOf (.typeRef base) tree arguments
  | "array_type" => do
    let element ← fieldSlot calls.typeRef tree "element" (absentBefore tree)
    return nodeOf (.typeRef (element.render ++ "[]")) tree []
  | _ => some (nodeOf (.typeRef tree.collapsed) tree [])

def parameterNode (name : String) (sort : ParameterSort) (type : Node) : Node :=
  nodeOf (.variable name sort) tree [type, absentAfter tree]

def parameter : Option (List Node) :=
  match tree.kind with
  | "formal_parameter" => do
    let type ← fieldSlot calls.typeRef tree "type" (absentBefore tree)
    return [parameterNode tree (tree.fieldText "name") .regular type]
  | "spread_parameter" => do
    let type := tree.named.find? fun part =>
      part.kind != "modifiers" && part.kind != "variable_declarator"
    let type ← slot calls.typeRef type (absentBefore tree)
    let name := match (tree.namedOf "variable_declarator").head? with
      | some declarator => declarator.fieldText "name"
      | none => ""
    return [parameterNode tree name .varArgs type]
  | "identifier" => some [parameterNode tree tree.text .regular (absentBefore tree)]
  | _ => some []

def parameters : Option (List Node) := do
  return (← tree.named.mapM (parameter calls)).flatten

def arguments : Option (List Node) :=
  tree.named.mapM calls.expression

def argumentsOf (tree : Option Tree) : Option (List Node) :=
  match tree with
  | some list => arguments calls list
  | none => some []

def fieldAccess : Rule := fun calls tree => do
  let receiver ← fieldSlot calls.expression tree "object" (absentBefore tree)
  return nodeOf (.fieldAccess (tree.fieldText "field")) tree [receiver]

def invocation : Rule := fun calls tree => do
  let anchor := (tree.field? "name").getD tree
  let receiver ← fieldSlot calls.expression tree "object" (absentBefore anchor)
  let arguments ← argumentsOf calls (tree.field? "arguments")
  return nodeOf (.invocation (tree.fieldText "name")) tree (receiver :: arguments)

def creation : Rule := fun calls tree => do
  let typeName := ((tree.field? "type").map Tree.collapsed).getD ""
  return nodeOf (.creation typeName) tree (← argumentsOf calls (tree.field? "arguments"))

def assignmentAt (span : Span) : Rule := fun calls tree => do
  let operator := ((tree.field? "operator").map Tree.text).getD "="
  let target ← fieldSlot calls.expression tree "left" (absentBefore tree)
  let value ← fieldSlot calls.expression tree "right" (absentAfter tree)
  return ⟨.assignment operator, span, [target, Node.absentAt target.span.endPoint, value]⟩

def assignment : Rule := fun calls tree =>
  assignmentAt tree.span calls tree

def typeTest : Rule := fun calls tree => do
  let left ← fieldSlot calls.expression tree "left" (absentBefore tree)
  let right ← fieldSlot calls.typeRef tree "right" (absentAfter tree)
  return nodeOf (.binary "instanceof") tree [left, right]

def unary : Rule := fun calls tree => do
  let operand ← fieldSlot calls.expression tree "operand" (absentAfter tree)
  return nodeOf (.unary (tree.fieldText "operator") true) tree [operand]

def update : Rule := fun calls tree => do
  let leading := match tree.children.head? with
    | some first => !first.isNamed
    | none => false
  let operator := tree.children.find? fun child => !child.isNamed
  let operator := (operator.map Tree.text).getD ""
  let operand ← slot calls.expression tree.named.head? (absentAfter tree)
  return nodeOf (.unary operator leading) tree [operand]

def ternary : Rule := fun calls tree => do
  let condition ← fieldSlot calls.expression tree "condition" (absentAfter tree)
  let consequence ← fieldSlot calls.expression tree "consequence" (absentAfter tree)
  let alternative ← fieldSlot calls.expression tree "alternative" (absentAfter tree)
  return nodeOf .ternary tree [condition, consequence, alternative]

def subscript : Rule := fun calls tree => do
  let array ← fieldSlot calls.expression tree "array" (absentBefore tree)
  let index ← fieldSlot calls.expression tree "index" (absentAfter tree)
  return nodeOf .subscript tree [array, index]

def lambda : Rule := fun calls tree => do
  let parameters ← match tree.field? "parameters" with
    | some list =>
      if list.kind == "identifier" then
        pure [parameterNode list list.text .regular (absentBefore list)]
      else parameters calls list
    | none => pure []
  let body ← match tree.field? "body" with
    | some body =>
      if body.kind == "block" then pure (otherNode body []) else calls.expression body
    | none => pure (absentAfter tree)
  return nodeOf .lambda tree (parameters ++ [body])

def arrayDisplay : Rule := fun calls tree => do
  return nodeOf (.collection .array) tree (← arguments calls tree)

def expressionRules : RuleTable := [
  ("identifier", fun _ tree => some (nameNode tree)),
  ("this", fun _ tree => some (nameNode tree)),
  ("super", fun _ tree => some (nameNode tree)),
  ("scoped_identifier", fun _ tree => some (nameNode tree)),
  ("field_access", fieldAccess),
  ("method_invocation", invocation),
  ("object_creation_expression", creation),
  ("assignment_expression", assignment),
  ("binary_expression", binary),
  ("instanceof_expression", typeTest),
  ("unary_expression", unary),
  ("update_expression", update),
  ("ternary_expression", ternary),
  ("array_access", subscript),
  ("parenthesized_expression", parenthesized),
  ("lambda_expression", lambda),
  ("array_initializer", arrayDisplay),
  ("decimal_integer_literal", fun _ tree => some (literalNode .number tree)),
  ("hex_integer_literal", fun _ tree => some (literalNode .number tree)),
  ("octal_integer_literal", fun _ tree => some (literalNode .number tree)),
  ("binary_integer_literal", fun _ tree => some (literalNode .number tree)),
  ("decimal_floating_point_literal", fun _ tree => some (literalNode .number tree)),
  ("hex_floating_point_literal", fun _ tree => some (literalNode .number tree)),
  ("string_literal", fun _ tree => some (literalNode .string tree)),
  ("text_block", fun _ tree => some (literalNode .string tree)),
  ("character_literal", fun _ tree => some (literalNode .char tree)),
  ("true", fun _ tree => some (literalNode .boolean tree)),
  ("false", fun _ tree => some (literalNode .boolean tree)),
  ("null_literal", fun _ tree => some (literalNode .null tree)),
  ("type_identifier", typeRef),
  ("generic_type", typeRef),
  ("scoped_type_identifier", typeRef),
  ("array_type", typeRef),
  ("integral_type", typeRef),
  ("floating_point_type", typeRef),
  ("boolean_type", typeRef)]

def expression : Rule :=
  expressionRules.apply otherExpression

end CodeEvolution.Lowering.Java
