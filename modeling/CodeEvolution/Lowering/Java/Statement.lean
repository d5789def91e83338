import CodeEvolution.Lowering.Java.Declaration
/-!
# Java statements

The rules for statements and whole files. A type declared among statements follows the rule of
its declaration. The grammar's name for a local class has no declaration of its own: the rule
for statements hands it to the one for declarations, and that one hands it back, so it has no
answer.
-/
namespace CodeEvolution.Lowering.Java

open Syntax (Tree)

variable (calls : Calls) (tree : Tree)

/-- The body of a statement: a block is kept, a single statement is wrapped, and a missing one
is empty and stands at the anchor. -/
def bodyAt (tree : Option Tree) (anchor : Span) : Option Node :=
  match tree with
  | some body =>
    if body.kind == "block" || body.kind == "constructor_body" then block calls body
    else do return nodeOf .block body [← calls.statement body]
  | none => some (Node.leaf .block anchor)

def condition : Option Node :=
  match tree.field? "condition" with
  | some test =>
    if test.kind == "parenthesized_expression" then
      slot calls.expression test.named.head? (absentAfter test)
    else calls.expression test
  | none => some (absentBefore tree)

def expressionStatement : Rule := fun calls tree =>
  match tree.named.head? with
  | none => some (otherNode tree [])
  | some inner =>
    if inner.kind == "assignment_expression" then assignmentAt tree.span calls inner
    else do return nodeOf .expressionStatement tree [← calls.expression inner]

def constructorCall : Rule := fun calls tree => do
  let name := ((tree.field? "constructor").map Tree.text).getD "super"
  let receiver ← fieldSlot calls.expression tree "object" (absentBefore tree)
  let arguments ← argumentsOf calls (tree.field? "arguments")
  let call := nodeOf (.invocation name) tree (receiver :: arguments)
  return nodeOf .expressionStatement tree [call]

def conditional : Rule := fun calls tree => do
  let test ← condition calls tree
  let consequence ← bodyAt calls (tree.field? "consequence") tree.span.endPoint
  let alternative ← match tree.field? "alternative" with
    | some alternative =>
      if alternative.kind == "if_statement" then calls.statement alternative
      else bodyAt calls (some alternative) tree.span.endPoint
    | none => pure (Node.absentAt consequence.span.endPoint)
  return nodeOf .conditional tree [test, consequence, alternative]

def whileLoop : Rule := fun calls tree => do
  let test ← condition calls tree
  let body ← bodyAt calls (tree.field? "body") tree.span.endPoint
  return nodeOf (.whileLoop false) tree [test, body, Node.absentAt body.span.endPoint]

def doLoop : Rule := fun calls tree => do
  let body ← bodyAt calls (tree.field? "body") tree.span.startPoint
  let test ← condition calls tree
  return nodeOf (.whileLoop true) tree [test, body, absentAfter tree]

def forEach : Rule := fun calls tree => do
  let type ← fieldSlot calls.typeRef tree "type" (absentBefore tree)
  let span := match tree.field? "name" with
    | some name => type.span.through name.span
    | none => type.span
  let target : Node :=
    ⟨.variable (tree.fieldText "name") .regular, span, [type, Node.absentAt span.endPoint]⟩
  let iterable ← fieldSlot calls.expression tree "value" (Node.absentAt span.endPoint)
  let body ← bodyAt calls (tree.field? "body") tree.span.endPoint
  return nodeOf (.forLoop .each) tree
    [target, iterable, body, Node.absentAt body.span.endPoint]

/-- The parts of the head of a `for` loop found so far. Stage 0 is the initialization, 1 the
condition, 2 the update and 3 the body. -/
structure ForParts where
  stage : Nat := 0
  init : List Node := []
  condition : Option Node := none
  update : List Node := []
  body : Option Tree := none
  separators : List Span := []

/-- One more child of a `for` loop. Separators move on to the next stage, and so does a
declaration, which includes its own separator. -/
def ForParts.add (parts : ForParts) (child : Tree) : Option ForParts :=
  if !child.isNamed then
    if child.kind == ";" then
      some { parts with
        stage := parts.stage + 1, separators := parts.separators ++ [child.span] }
    else if child.kind == ")" then
      some { parts with stage := 3, separators := parts.separators ++ [child.span] }
    else some parts
  else if child.kind == "line_comment" || child.kind == "block_comment" then some parts
  else
    match parts.stage with
    | 0 =>
      if child.kind == "local_variable_declaration" then do
        let declared ← variableDeclaration calls child
        return { parts with init := parts.init ++ [declared], stage := 1 }
      else do return { parts with init := parts.init ++ [← calls.expression child] }
    | 1 => do return { parts with condition := some (← calls.expression child) }
    | 2 => do return { parts with update := parts.update ++ [← calls.expression child] }
    | _ => some { parts with body := some child }

def listOver (items : List Node) (anchor : Span) : Node :=
  match items.head?, items.getLast? with
  | some first, some last => ⟨.expressionList, first.span.through last.span, items⟩
  | _, _ => emptyList anchor

def forLoop : Rule := fun calls tree => do
  let parts ← tree.children.foldlM (ForParts.add calls) {}
  let start := tree.span.startPoint
  let init := listOver parts.init (parts.separators.head?.getD start).startPoint
  let test :=
    parts.condition.getD (Node.absentAt (parts.separators[1]?.getD start).startPoint)
  let update := listOver parts.update (parts.separators.getLast?.getD start).startPoint
  let body ← bodyAt calls parts.body tree.span.endPoint
  return nodeOf (.forLoop .classic) tree [init, test, update, body]

def groupBody (parts : List Tree) : Option Node := do
  let inner ← parts.mapM calls.statement
  return spanning .block parts inner (Node.leaf .block tree.span.endPoint)

def caseClause (calls : Calls) (tree : Tree) : Option Node := do
  let labels := tree.statements.filter fun part => part.kind == "switch_label"
  let parts := tree.statements.filter fun part => part.kind != "switch_label"
  let isDefault := labels.any fun label =>
    "default".toList.isPrefixOf (Text.trimStart label.text).toList
  let patterns ← (labels.flatMap Tree.named).mapM calls.expression
  let patternList := spanning .expressionList labels patterns
    ⟨.expressionList, tree.span.startPoint, patterns⟩
  let body ← match parts with
    | [single] =>
      if single.kind == "block" then block calls single else groupBody calls tree parts
    | _ => groupBody calls tree parts
  return nodeOf (.caseClause isDefault) tree
    [patternList, Node.absentAt patternList.span.endPoint, body]

def isSwitchGroup : Bool :=
  tree.kind == "switch_block_statement_group" || tree.kind == "switch_rule"

def switching : Rule := fun calls tree => do
  let subject ← condition calls tree
  let groups := match tree.field? "body" with
    | some body => body.named.filter isSwitchGroup
    | none => []
  return nodeOf .switch tree (subject :: (← groups.mapM (caseClause calls)))

def resource : Option Node :=
  match tree.field? "name" with
  | some name => do
    let type ← fieldSlot calls.typeRef tree "type" (absentBefore tree)
    let value ← fieldSlot calls.expression tree "value" (absentAfter tree)
    return nodeOf (.variable name.text .regular) tree [type, value]
  | none => slot calls.expression tree.named.head? (otherNode tree [])

def catchClause (calls : Calls) (tree : Tree) : Option Node := do
  let parameter := (tree.namedOf "catch_formal_parameter").head?
  let types ← match parameter with
    | some parameter => do
      let types ← ((parameter.namedOf "catch_type").flatMap Tree.named).mapM calls.typeRef
      pure (nodeOf .expressionList parameter types)
    | none => pure (emptyList tree.span.startPoint)
  let name := match parameter with
    | some parameter => ((parameter.field? "name").map nameNode).getD (absentAfter parameter)
    | none => absentBefore tree
  let body ← bodyAt calls (tree.field? "body") tree.span.endPoint
  return nodeOf .catchClause tree [types, name, body]

def finallyClause (calls : Calls) (clause : Tree) : Option Node := do
  let body ← bodyAt calls (clause.namedOf "block").head? clause.span.endPoint
  return nodeOf .finallyClause clause [body]

def tryStatement : Rule := fun calls tree => do
  let resources ← match tree.field? "resources" with
    | some list => do
      pure (nodeOf .expressionList list (← list.named.mapM (resource calls)))
    | none =>
      let anchor := ((tree.field? "body").map Tree.span).getD tree.span
      pure (emptyList anchor.startPoint)
  let body ← bodyAt calls (tree.field? "body") tree.span.endPoint
  let catches ← (tree.namedOf "catch_clause").mapM (catchClause calls)
  let anchor := ((catches.getLast?.map Node.span).getD body.span).endPoint
  let cleanup ← slot (finallyClause calls) (tree.namedOf "finally_clause").getLast?
    (Node.absentAt anchor)
  return nodeOf .tryStatement tree
    (resources :: body :: (catches ++ [Node.absentAt anchor, cleanup]))

def valueStatement (kind : NodeKind) : Rule := fun calls tree => do
  return nodeOf kind tree [← slot calls.expression tree.named.head? (absentAfter tree)]

def throwing : Rule := fun calls tree => do
  let exception ← slot calls.expression tree.named.head? (absentAfter tree)
  return nodeOf .throwStatement tree [exception, absentAfter tree]

def synchronized : Rule := fun calls tree => do
  let lock := (tree.namedOf "parenthesized_expression").head?.bind fun inner =>
    inner.named.head?
  let lock ← slot calls.expression lock (absentBefore tree)
  let body ← bodyAt calls (tree.field? "body") tree.span.endPoint
  return nodeOf .synchronized tree [lock, body]

def labelled : Rule := fun calls tree =>
  match tree.named.getLast? with
  | some inner =>
    if inner.kind != "identifier" then calls.statement inner else some (otherNode tree [])
  | none => some (otherNode tree [])

def statementRules : RuleTable := [
  ("local_variable_declaration", variableDeclaration),
  ("expression_statement", expressionStatement),
  ("explicit_constructor_invocation", constructorCall),
  ("block", block),
  ("if_statement", conditional),
  ("while_statement", whileLoop),
  ("do_statement", doLoop),
  ("for_statement", forLoop),
  ("enhanced_for_statement", forEach),
  ("switch_expression", switching),
  ("switch_statement", switching),
  ("try_statement", tryStatement),
  ("try_with_resources_statement", tryStatement),
  ("return_statement", valueStatement .returnStatement),
  ("throw_statement", throwing),
  ("assert_statement", asserting),
  ("yield_statement", valueStatement (.yield false)),
  ("break_statement", fun _ tree => some (nodeOf .breakStatement tree [])),
  ("continue_statement", fun _ tree => some (nodeOf .continueStatement tree [])),
  ("synchronized_statement", synchronized),
  ("labeled_statement", labelled),
  ("class_declaration", typeDeclaration .classType),
  ("interface_declaration", typeDeclaration .interfaceType),
  ("enum_declaration", typeDeclaration .enumType),
  ("record_declaration", typeDeclaration .recordType),
  ("local_class_declaration", fun calls tree => calls.declaration tree),
  ("line_comment", fun _ tree => some (commentNode tree)),
  ("block_comment", fun _ tree => some (commentNode tree))]

def statement : Rule :=
  statementRules.apply fun _ tree => some (otherNode tree [])

def declaration : Rule :=
  declarationRules.apply statement

def step : Calls :=
  { expression := expression calls
    statement := statement calls
    typeRef := typeRef calls
    declaration := declaration calls }

def lower : Option Node := do
  let calls := tie step tree.depth
  return nodeOf .compilationUnit tree (← tree.statements.mapM calls.declaration)

end CodeEvolution.Lowering.Java
