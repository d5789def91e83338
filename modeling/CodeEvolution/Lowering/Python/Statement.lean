import CodeEvolution.Lowering.Python.Expression
/-!
# Python statements and definitions

The rules for statements, function and class definitions, and whole files.
-/
namespace CodeEvolution.Lowering.Python

open Syntax (Tree)

variable (calls : Calls) (decorators : List Node) (bases : List Tree) (tree : Tree) (span : Span)

def statements (calls : Calls) (tree : Tree) : Option (List Node) :=
  tree.statements.mapM calls.statement

def blockAt (tree : Option Tree) (anchor : Span) : Option Node :=
  match tree with
  | some block => do return nodeOf .block block (← statements calls block)
  | none => some (Node.leaf .block anchor)

def blockIn : Option Tree :=
  (tree.namedOf "block").head?

def returning : Rule := fun calls tree => do
  return nodeOf .returnStatement tree [← tupled calls tree.named (absentAfter tree)]

def deleting : Rule := fun calls tree => do
  let targets := tree.named.flatMap fun target =>
    if target.kind == "expression_list" then target.named else [target]
  return nodeOf .deletion tree (← targets.mapM calls.expression)

/-- A line that is an expression. Assignments and `yield` are statements of their own, and a
line without exactly one expression is a tuple. -/
def expressionStatement : Rule := fun calls tree =>
  match tree.named with
  | [single] =>
    match single.kind with
    | "assignment" => assignmentAt tree.span calls single
    | "augmented_assignment" => assignmentAt tree.span calls single
    | "yield" => calls.expression single
    | _ => do return nodeOf .expressionStatement tree [← calls.expression single]
  | parts => do
    let tuple := nodeOf (.collection .tuple) tree (← parts.mapM calls.expression)
    return nodeOf .expressionStatement tree [tuple]

/-- The alternative of a conditional: `elif` clauses become nested conditionals that reach to the
last clause. -/
def elseChain (calls : Calls) (anchor : Span) : List Tree → Option Node
  | [] => some (Node.absentAt anchor)
  | first :: rest =>
    if first.kind == "else_clause" then
      blockAt calls (first.field? "body") first.span.endPoint
    else do
      let condition ← fieldSlot calls.expression first "condition" (absentBefore first)
      let consequence ← blockAt calls (first.field? "consequence") first.span.endPoint
      let alternative ← elseChain calls consequence.span.endPoint rest
      let last := (rest.getLast?.map Tree.span).getD first.span
      return ⟨.conditional, first.span.through last, [condition, consequence, alternative]⟩

def conditional : Rule := fun calls tree => do
  let condition ← fieldSlot calls.expression tree "condition" (absentBefore tree)
  let consequence ← blockAt calls (tree.field? "consequence") tree.span.endPoint
  let clauses := tree.named.filter fun child =>
    child.kind == "elif_clause" || child.kind == "else_clause"
  let alternative ← elseChain calls consequence.span.endPoint clauses
  return nodeOf .conditional tree [condition, consequence, alternative]

def elseClause (calls : Calls) (clause : Tree) : Option Node := do
  let body := (clause.field? "body").or (blockIn clause)
  return nodeOf .elseClause clause [← blockAt calls body clause.span.endPoint]

def whileLoop : Rule := fun calls tree => do
  let condition ← fieldSlot calls.expression tree "condition" (absentBefore tree)
  let body ← blockAt calls (tree.field? "body") tree.span.endPoint
  let alternative ←
    fieldSlot (elseClause calls) tree "alternative" (Node.absentAt body.span.endPoint)
  return nodeOf (.whileLoop false) tree [condition, body, alternative]

def wrapAsync (node : Node) : Node :=
  if tree.hasToken "async" then nodeOf .asyncStatement tree [node] else node

def forLoop : Rule := fun calls tree => do
  let target ← fieldSlot calls.expression tree "left" (absentBefore tree)
  let iterable ← fieldSlot calls.expression tree "right" (Node.absentAt target.span.endPoint)
  let body ← blockAt calls (tree.field? "body") tree.span.endPoint
  let alternative ←
    fieldSlot (elseClause calls) tree "alternative" (Node.absentAt body.span.endPoint)
  return wrapAsync tree (nodeOf (.forLoop .each) tree [target, iterable, body, alternative])

def exceptionHead (heads : List Tree) : Option Tree × Option Tree :=
  match heads with
  | [] => (none, none)
  | [single] =>
    if single.kind == "as_pattern" then
      (single.named[0]?, (single.field? "alias").or single.named[1]?)
    else (some single, none)
  | exception :: shown :: _ => (some exception, some shown)

def exceptionTypes (exception : Tree) : List Tree :=
  if exception.kind == "tuple" || exception.kind == "parenthesized_expression" then
    exception.named.flatMap fun item =>
      if item.kind == "tuple" || item.kind == "expression_list" then item.named else [item]
  else [exception]

def aliasTarget : Option Node :=
  if tree.kind == "as_pattern_target" then
    match tree.named.head? with
    | some inner => calls.expression inner
    | none => calls.expression tree
  else calls.expression tree

def catchClause (calls : Calls) (tree : Tree) : Option Node := do
  let heads := tree.named.filter fun child => child.kind != "block"
  let head := exceptionHead heads
  let types ← match head.1 with
    | some exception => do
      let items ← (exceptionTypes exception).mapM calls.expression
      pure (nodeOf .expressionList exception items)
    | none => pure (emptyList tree.span.startPoint)
  let name ← slot (aliasTarget calls) head.2 (Node.absentAt types.span.endPoint)
  let body ← blockAt calls (blockIn tree) tree.span.endPoint
  return nodeOf .catchClause tree [types, name, body]

def finallyClause (calls : Calls) (clause : Tree) : Option Node := do
  return nodeOf .finallyClause clause [← blockAt calls (blockIn clause) clause.span.endPoint]

def isExceptClause : Bool :=
  tree.kind == "except_clause" || tree.kind == "except_group_clause"

/-- `try: … except … else … finally …`; of several `else` or `finally` clauses the last
counts. -/
def tryStatement : Rule := fun calls tree => do
  let body ← blockAt calls (tree.field? "body") tree.span.endPoint
  let catches ← (tree.named.filter isExceptClause).mapM (catchClause calls)
  let anchor := ((catches.getLast?.map Node.span).getD body.span).endPoint
  let alternative ←
    slot (elseClause calls) (tree.namedOf "else_clause").getLast? (Node.absentAt anchor)
  let cleanup ← slot (finallyClause calls) (tree.namedOf "finally_clause").getLast?
    (Node.absentAt alternative.span.endPoint)
  return nodeOf .tryStatement tree
    (emptyList body.span.startPoint :: body :: (catches ++ [alternative, cleanup]))

def withItem (calls : Calls) (item : Tree) : Option Node := do
  match (item.field? "value").or item.named.head? with
  | none => return nodeOf .withItem item [absentBefore item, absentAfter item]
  | some value =>
    if value.kind == "as_pattern" then
      let context ← slot calls.expression value.named[0]? (absentBefore value)
      let shown := (value.field? "alias").or value.named[1]?
      let shown ← slot (aliasTarget calls) shown (absentAfter value)
      return nodeOf .withItem item [context, shown]
    else
      return nodeOf .withItem item [← calls.expression value, absentAfter value]

def withStatement : Rule := fun calls tree => do
  let items := (tree.namedOf "with_clause").flatMap fun clause => clause.namedOf "with_item"
  let items ← items.mapM (withItem calls)
  let body ← blockAt calls (tree.field? "body") tree.span.endPoint
  return wrapAsync tree (nodeOf .withStatement tree (items ++ [body]))

def raising : Rule := fun calls tree => do
  let cause := tree.field? "cause"
  let exception := tree.named.find? fun child => !child.sameRangeAs cause
  let exception ← slot calls.expression exception (absentAfter tree)
  let cause ← slot calls.expression cause (absentAfter tree)
  return nodeOf .throwStatement tree [exception, cause]

def importedNames : List ImportedName :=
  match tree.kind with
  | "dotted_name" => [⟨tree.text, none⟩]
  | "aliased_import" => [⟨tree.fieldText "name", (tree.field? "alias").map Tree.text⟩]
  | _ => []

def importing : Rule := fun _ tree =>
  let source := tree.field? "module_name"
  let sourceText :=
    if tree.kind == "future_import_statement" then "__future__"
    else (source.map Tree.text).getD ""
  let parts := tree.named.filter fun child => !child.sameRangeAs source
  let head : ImportHead :=
    { source := sourceText
      names := parts.flatMap importedNames
      isWildcard := parts.any fun part => part.kind == "wildcard_import"
      isStatic := false }
  some (nodeOf (.importing head) tree [])

def casePattern (pattern : Tree) : Option Node :=
  match pattern.named with
  | [inner] => calls.expression inner
  | _ => some (otherNode pattern [])

def caseClause (calls : Calls) (tree : Tree) : Option Node := do
  let patterns := tree.namedOf "case_pattern"
  let isDefault := match patterns with
    | [only] => Text.trim only.text == "_"
    | _ => false
  let patternNodes ← patterns.mapM (casePattern calls)
  let patternList :=
    spanning .expressionList patterns patternNodes (emptyList tree.span.startPoint)
  let guard := (tree.field? "guard").bind fun clause => clause.named.head?
  let guard ← slot calls.expression guard (Node.absentAt patternList.span.endPoint)
  let body ← blockAt calls (tree.field? "consequence") tree.span.endPoint
  return nodeOf (.caseClause isDefault) tree [patternList, guard, body]

def matching : Rule := fun calls tree => do
  let subject ← fieldSlot calls.expression tree "subject" (absentBefore tree)
  let clauses := match tree.field? "body" with
    | some body => body.namedOf "case_clause"
    | none => []
  return nodeOf .switch tree (subject :: (← clauses.mapM (caseClause calls)))

def decorator (calls : Calls) (tree : Tree) : Option Node :=
  match tree.named.head? with
  | none =>
    let name := Text.collapse (Text.trimStartWhile (· == '@') tree.text)
    some (nodeOf (.decorator name) tree [])
  | some expression =>
    if expression.kind == "call" then do
      let name := ((expression.field? "function").map Tree.collapsed).getD ""
      let arguments ← argumentsOf calls (expression.field? "arguments")
      return nodeOf (.decorator name) tree arguments
    else some (nodeOf (.decorator expression.collapsed) tree [])

def functionAt : Rule := fun calls tree => do
  let list := tree.field? "parameters"
  let parameters ← parametersOf calls list
  let anchor := match list with
    | some list => list.span.endPoint
    | none => tree.span.startPoint
  let returnType ← fieldSlot calls.typeRef tree "return_type" (Node.absentAt anchor)
  let body ← blockAt calls (tree.field? "body") tree.span.endPoint
  let head : MethodHead :=
    { name := tree.fieldText "name"
      modifiers := {}
      isConstructor := false
      isAsync := tree.hasToken "async" }
  return ⟨.methodDeclaration head, span, decorators ++ parameters ++ [returnType, body]⟩

def baseKeywords : List (String × String) :=
  (bases.filter fun base => base.kind == "keyword_argument").map fun base =>
    (base.fieldText "name", ((base.field? "value").map Tree.collapsed).getD "")

def baseTypes : List String :=
  (bases.filter fun base =>
    base.kind != "keyword_argument" && base.kind != "list_splat" &&
      base.kind != "dictionary_splat").map Tree.collapsed

def classAt : Rule := fun calls tree => do
  let bases := match tree.field? "superclasses" with
    | some list => list.named
    | none => []
  let body ← blockAt calls (tree.field? "body") tree.span.endPoint
  let head : TypeHead :=
    { name := tree.fieldText "name"
      sort := .classType
      modifiers := {}
      supertypes := baseTypes bases
      keywords := baseKeywords bases }
  return ⟨.typeDeclaration head, span, decorators ++ [body]⟩

def decorated : Rule := fun calls tree => do
  let decorators ← (tree.namedOf "decorator").mapM (decorator calls)
  match tree.field? "definition" with
  | some definition =>
    if definition.kind == "function_definition" then
      functionAt decorators tree.span calls definition
    else if definition.kind == "class_definition" then
      classAt decorators tree.span calls definition
    else return otherNode tree decorators
  | none => return otherNode tree decorators

def statementRules : RuleTable := [
  ("expression_statement", expressionStatement),
  ("return_statement", returning),
  ("pass_statement", fun _ tree => some (nodeOf .pass tree [])),
  ("break_statement", fun _ tree => some (nodeOf .breakStatement tree [])),
  ("continue_statement", fun _ tree => some (nodeOf .continueStatement tree [])),
  ("if_statement", conditional),
  ("while_statement", whileLoop),
  ("for_statement", forLoop),
  ("try_statement", tryStatement),
  ("with_statement", withStatement),
  ("raise_statement", raising),
  ("assert_statement", asserting),
  ("global_statement", fun _ tree =>
    some (nodeOf (.globalNames (tree.named.map Tree.text)) tree [])),
  ("nonlocal_statement", fun _ tree =>
    some (nodeOf (.nonlocalNames (tree.named.map Tree.text)) tree [])),
  ("delete_statement", deleting),
  ("import_statement", importing),
  ("import_from_statement", importing),
  ("future_import_statement", importing),
  ("function_definition", fun calls tree => functionAt [] tree.span calls tree),
  ("class_definition", fun calls tree => classAt [] tree.span calls tree),
  ("decorated_definition", decorated),
  ("match_statement", matching),
  ("comment", fun _ tree => some (commentNode tree))]

def statement : Rule :=
  statementRules.apply otherExpression

def step : Calls :=
  { expression := expression calls
    statement := statement calls
    typeRef := typeRef calls
    declaration := statement calls }

def lower : Option Node := do
  return nodeOf .compilationUnit tree (← statements (tie step tree.depth) tree)

end CodeEvolution.Lowering.Python
