import CodeEvolution.Lowering.Basic
/-!
# Python expressions and types

The rules for expressions, patterns in expression position, parameters and type expressions.
-/
namespace CodeEvolution.Lowering.Python

open Syntax (Tree)

variable (calls : Calls) (tree : Tree)

def unquoted (text : String) : String :=
  let isQuote := fun c : Char => c == '\x22' || c == '\x27'
  Text.trimEndWhile isQuote (Text.trimStartWhile isQuote text)

/-- A type expression, lowered structurally: subscripts become type arguments and alternatives
become a `Union`. -/
def typeRef : Rule := fun calls tree =>
  let inner := if tree.kind == "type" then tree.named.head? else some tree
  match inner with
  | none => some (nodeOf (.typeRef tree.collapsed) tree [])
  | some inner =>
    match inner.kind with
    | "none" => some (nodeOf (.typeRef "None") tree [])
    | "string" => some (nodeOf (.typeRef (unquoted inner.text)) tree [])
    | "generic_type" => do
      let base := (inner.named.head?.map Tree.collapsed).getD ""
      let arguments ← ((inner.namedOf "type_parameter").flatMap Tree.named).mapM calls.typeRef
      return nodeOf (.typeRef base) tree arguments
    | "subscript" => do
      let base := ((inner.field? "value").map Tree.collapsed).getD ""
      let arguments ← (inner.named.drop 1).mapM calls.typeRef
      return nodeOf (.typeRef base) tree arguments
    | "binary_operator" => do
      return nodeOf (.typeRef "Union") tree (← inner.named.mapM calls.typeRef)
    | "union_type" => do
      return nodeOf (.typeRef "Union") tree (← inner.named.mapM calls.typeRef)
    | _ => some (nodeOf (.typeRef inner.collapsed) tree [])

def splat : String × ParameterSort :=
  let sort := if tree.kind == "dictionary_splat_pattern" then .kwArgs else .varArgs
  match tree.named.head? with
  | some inner => (inner.text, sort)
  | none => (Text.trimStartWhile (· == '*') tree.text, sort)

def parameterNode (name : String) (sort : ParameterSort) (type default : Node) : Node :=
  nodeOf (.variable name sort) tree [type, default]

/-- The parameter that a node of a parameter list declares, if it declares one: separators such
as `*` and `/` do not. -/
def parameter : Option (List Node) :=
  match tree.kind with
  | "identifier" =>
    some [parameterNode tree tree.text .regular (absentAfter tree) (absentAfter tree)]
  | "list_splat_pattern" =>
    some [parameterNode tree (splat tree).1 (splat tree).2 (absentAfter tree) (absentAfter tree)]
  | "dictionary_splat_pattern" =>
    some [parameterNode tree (splat tree).1 (splat tree).2 (absentAfter tree) (absentAfter tree)]
  | "typed_parameter" =>
    let type := tree.field? "type"
    match tree.named.find? fun child => !child.sameRangeAs type with
    | none => some []
    | some inner => do
      let named := if inner.kind == "identifier" then (inner.text, .regular) else splat inner
      let type ← slot calls.typeRef type (absentAfter inner)
      return [parameterNode tree named.1 named.2 type (absentAfter tree)]
  | "default_parameter" => withDefault
  | "typed_default_parameter" => withDefault
  | _ => some []
where
  withDefault : Option (List Node) :=
    match tree.field? "name" with
    | none => some []
    | some name => do
      let type ← fieldSlot calls.typeRef tree "type" (absentAfter name)
      let default ← fieldSlot calls.expression tree "value" (absentAfter tree)
      return [parameterNode tree name.text .regular type default]

def parameters : Option (List Node) := do
  return (← tree.named.mapM (parameter calls)).flatten

def parametersOf (tree : Option Tree) : Option (List Node) :=
  match tree with
  | some list => parameters calls list
  | none => some []

def arguments : Option (List Node) :=
  if tree.kind == "argument_list" then tree.named.mapM calls.expression
  else do return [← calls.expression tree]

def argumentsOf (tree : Option Tree) : Option (List Node) :=
  match tree with
  | some list => arguments calls list
  | none => some []

def memberAccess : Rule := fun calls tree => do
  let receiver ← fieldSlot calls.expression tree "object" (absentBefore tree)
  return nodeOf (.fieldAccess (tree.fieldText "attribute")) tree [receiver]

/-- A call. Only the callee `receiver.name` has a receiver; any other callee is a name by its
collapsed text. -/
def call : Rule := fun calls tree => do
  let arguments ← argumentsOf calls (tree.field? "arguments")
  match tree.field? "function" with
  | none => return otherNode tree arguments
  | some function =>
    match function.kind with
    | "attribute" =>
      let receiver ← fieldSlot calls.expression function "object" (absentBefore function)
      return nodeOf (.invocation (function.fieldText "attribute")) tree (receiver :: arguments)
    | "identifier" =>
      return nodeOf (.invocation function.text) tree (absentBefore function :: arguments)
    | _ =>
      return nodeOf (.invocation function.collapsed) tree (absentBefore function :: arguments)

def comparison : Rule := fun calls tree => do
  let operators := (tree.children.filter fun child => !child.isNamed).map Tree.collapsed
  match tree.named, operators with
  | [left, right], [operator] =>
    let left ← calls.expression left
    let right ← calls.expression right
    return nodeOf (.binary operator) tree [left, right]
  | operands, _ => return otherNode tree (← operands.mapM calls.expression)

def unary (operator : String) (operand : Option Tree) : Rule := fun calls tree => do
  let operand ← slot calls.expression operand (absentAfter tree)
  return nodeOf (.unary operator true) tree [operand]

def conditionalExpression : Rule := fun calls tree =>
  match tree.named with
  | [thenBranch, condition, otherwise] => do
    let condition ← calls.expression condition
    let thenBranch ← calls.expression thenBranch
    let otherwise ← calls.expression otherwise
    return nodeOf .ternary tree [condition, thenBranch, otherwise]
  | parts => do return otherNode tree (← parts.mapM calls.expression)

/-- Several expressions as one: none is an empty slot, one stands for itself, more are a
tuple. -/
def tupled (trees : List Tree) (fallback : Node) : Option Node :=
  match trees with
  | [] => some fallback
  | [single] => calls.expression single
  | several => do
    return spanning (.collection .tuple) several (← several.mapM calls.expression) fallback

def subscript : Rule := fun calls tree => do
  let value := tree.field? "value"
  let indices := tree.named.filter fun child => !child.sameRangeAs value
  let value ← slot calls.expression value (absentBefore tree)
  let index ← tupled calls indices (absentAfter tree)
  return nodeOf .subscript tree [value, index]

def collection (sort : CollectionSort) : Rule := fun calls tree => do
  return nodeOf (.collection sort) tree (← tree.named.mapM calls.expression)

def pair : Rule := fun calls tree => do
  let key ← fieldSlot calls.expression tree "key" (absentBefore tree)
  let value ← fieldSlot calls.expression tree "value" (absentAfter tree)
  return nodeOf .pair tree [key, value]

def lambda : Rule := fun calls tree => do
  let parameters ← parametersOf calls (tree.field? "parameters")
  let body ← fieldSlot calls.expression tree "body" (absentAfter tree)
  return nodeOf .lambda tree (parameters ++ [body])

def yielding : Rule := fun calls tree => do
  let value ← slot calls.expression tree.named.head? (absentAfter tree)
  return nodeOf (.yield (tree.hasToken "from")) tree [value]

def keywordArgument : Rule := fun calls tree => do
  let value ← fieldSlot calls.expression tree "value" (absentAfter tree)
  return nodeOf (.keywordArgument (tree.fieldText "name")) tree [value]

/-- An assignment, over the given span. Only an augmented one has an operator of its own. -/
def assignmentAt (span : Span) : Rule := fun calls tree => do
  let operator :=
    if tree.kind == "augmented_assignment" then
      ((tree.field? "operator").map Tree.text).getD "="
    else "="
  let target ← fieldSlot calls.expression tree "left" (absentBefore tree)
  let type ← fieldSlot calls.typeRef tree "type" (Node.absentAt target.span.endPoint)
  let value ← fieldSlot calls.expression tree "right" (absentAfter tree)
  return ⟨.assignment operator, span, [target, type, value]⟩

def assignment : Rule := fun calls tree =>
  assignmentAt tree.span calls tree

def patternTarget : Rule := fun calls tree =>
  match tree.named.head? with
  | some inner => calls.expression inner
  | none => some (otherNode tree [])

def expressionRules : RuleTable := [
  ("identifier", fun _ tree => some (nameNode tree)),
  ("attribute", memberAccess),
  ("call", call),
  ("binary_operator", binary),
  ("boolean_operator", binary),
  ("comparison_operator", comparison),
  ("not_operator", fun calls tree => unary "not" (tree.field? "argument") calls tree),
  ("unary_operator", fun calls tree =>
    unary (tree.fieldText "operator") (tree.field? "argument") calls tree),
  ("await", fun calls tree => unary "await" tree.named.head? calls tree),
  ("list_splat", fun calls tree => unary "*" tree.named.head? calls tree),
  ("list_splat_pattern", fun calls tree => unary "*" tree.named.head? calls tree),
  ("dictionary_splat", fun calls tree => unary "**" tree.named.head? calls tree),
  ("dictionary_splat_pattern", fun calls tree => unary "**" tree.named.head? calls tree),
  ("conditional_expression", conditionalExpression),
  ("subscript", subscript),
  ("integer", fun _ tree => some (literalNode .number tree)),
  ("float", fun _ tree => some (literalNode .number tree)),
  ("string", fun _ tree => some (literalNode .string tree)),
  ("concatenated_string", fun _ tree => some (literalNode .string tree)),
  ("true", fun _ tree => some (literalNode .boolean tree)),
  ("false", fun _ tree => some (literalNode .boolean tree)),
  ("none", fun _ tree => some (literalNode .null tree)),
  ("list", collection .list),
  ("list_pattern", collection .list),
  ("tuple", collection .tuple),
  ("expression_list", collection .tuple),
  ("pattern_list", collection .tuple),
  ("tuple_pattern", collection .tuple),
  ("set", collection .set),
  ("dictionary", collection .dict),
  ("pair", pair),
  ("parenthesized_expression", parenthesized),
  ("lambda", lambda),
  ("yield", yielding),
  ("keyword_argument", keywordArgument),
  ("assignment", assignment),
  ("augmented_assignment", assignment),
  ("as_pattern_target", patternTarget),
  ("type", typeRef)]

def expression : Rule :=
  expressionRules.apply otherExpression

end CodeEvolution.Lowering.Python
