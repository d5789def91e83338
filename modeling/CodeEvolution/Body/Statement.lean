import CodeEvolution.Body.Basic
import CodeEvolution.Language
/-!
# Statements of a method

The statements below a method's body as a tree, before they are numbered. Each knows the text it
goes by, its controlling expressions, and the variables it may introduce; whether an assignment
does introduce its variable depends on the statements before it and is settled later.

A node in the place of a statement that is none is kept as `unknown`, so nothing is lost
silently. Comments are no statements.
-/
namespace CodeEvolution

structure Control where
  text : String
  span : Span
  facts : Facts
deriving Repr

structure Binding where
  introduced : Variable
  /-- For an assignment its offset: it introduces the variable only if no visible one has the
  name there. -/
  assignedAt : Option Nat := none
deriving Repr

structure StatementHead where
  kind : StatementKind
  shape : Shape
  text : String
  span : Span
  facts : Facts := {}
  controls : List Control := []
  bindings : List Binding := []
  outerNames : List String := []
deriving Repr

inductive Statement where
  | unknown (line : Nat) (label : String)
  | known (head : StatementHead) (nested handlers : List Statement)
deriving Repr

structure Surroundings where
  language : Language
  file : String
  classSpan : Span
  receiver? : Option String
  bodyEnd : Nat
deriving Repr

variable (kind : StatementKind) (scope : Scope) (around : Surroundings) (children : List Node)
  (node : Node) (blockEnd index : Nat) (outlines : List (List Statement))

namespace Node

mutual

def targets : Node → List Node
  | ⟨.collection .tuple, _, children⟩ => targetsOf children
  | ⟨.collection .list, _, children⟩ => targetsOf children
  | ⟨.parenthesized, _, children⟩ => targetsOf children
  | node => [node]

def targetsOf : List Node → List Node
  | [] => []
  | node :: rest => targets node ++ targetsOf rest

end

def boundName? : Option String :=
  match node.kind with
  | .simpleName identifier => some identifier
  | .unary _ _ => (node.present? 0).bind identifier?
  | _ => none

def grandchildren : List Node :=
  match node.child? index with
  | some child => child.children
  | none => []

def presentAt (indices : List Nat) : List Node :=
  indices.filterMap node.present?

end Node

namespace Statement

def control : Control :=
  ⟨node.render, node.span, Facts.ofNodes [node]⟩

def compositeHead (controls : List Node) (bindings : List Binding) : StatementHead :=
  { kind
    shape := .composite
    text := node.render
    span := node.span
    facts := Facts.ofNodes controls
    controls := (controls.filter fun control => !control.isAbsent).map control
    bindings }

def leafHead (bindings : List Binding) : StatementHead :=
  { kind
    shape := .leaf
    text := node.render
    span := node.span
    facts := Facts.ofNodes [node]
    bindings }

def localBinding (name : String) (span : Span) (type : TypeInfo) (initializer : Option String) :
    Binding :=
  { introduced := { name, type, role := .localVariable, scope, initializer, span } }

/-- The variables of a loop target or an alias, visible in its statement. The value is known
only for a single name. -/
def targetBindings (statement : Span) (target : Node) (initializer : Option String) :
    List Binding :=
  let scope := Scope.ofSpan around.file statement
  match target.kind with
  | .variable name _ =>
    [localBinding scope name target.span (.ofSlot (target.present? 0)) initializer]
  | _ =>
    let names := target.targets.filterMap Node.boundName?
    let value := if names.length = 1 then initializer else none
    names.map fun name => localBinding scope name target.span .untyped value

def declaredBindings : List Binding :=
  (node.children.drop 1).filterMap fun declarator =>
    match declarator.kind with
    | .variable name _ =>
      some (localBinding scope name declarator.span (.ofSlot (node.child? 0))
        ((declarator.present? 1).map Node.render))
    | _ => none

/-- The scope of a local variable: up to the end of the body where an assignment declares, up
to the end of the innermost block elsewhere. -/
def localScope (span : Span) : Scope :=
  match around.language with
  | .python => ⟨around.file, span.startOffset, around.bodyEnd⟩
  | .java => ⟨around.file, span.startOffset, blockEnd⟩

/-- The variable that an assignment to one target may introduce: a local for a plain name, a
member of the class for a name qualified by the receiver. -/
def assignedBinding? (node : Node) (type : TypeInfo) (initializer : Option String) (target : Node) :
    Option Binding :=
  match target.kind with
  | .simpleName identifier =>
    if around.language.declaresOnAssignment then
      some
        { introduced :=
            { name := identifier
              type
              role := .localVariable
              scope := localScope around blockEnd node.span
              initializer
              span := target.span }
          assignedAt := some node.span.startOffset }
    else none
  | .fieldAccess name =>
    match (target.present? 0).bind Node.identifier? with
    | none => none
    | some receiver =>
      if around.receiver? = some receiver then
        some
          { introduced :=
              { name
                type
                role := .memberAttribute
                scope := .ofSpan around.file around.classSpan
                initializer
                span := target.span } }
      else none
  | _ => none

/-- The variables that an assignment may introduce. Only `=` introduces any, and type and value
are known only for a single target. -/
def assignedBindings (operator : String) (node : Node) : List Binding :=
  match node.child? 0 with
  | none => []
  | some target =>
    if operator = "=" then
      let targets := target.targets
      let single := targets.length = 1
      let type := if single then TypeInfo.ofSlot (node.present? 1) else .untyped
      let initializer := if single then (node.present? 2).map Node.render else none
      targets.filterMap (assignedBinding? around blockEnd node type initializer)
    else []

def caughtBindings : List Binding :=
  match (node.present? 1).bind Node.identifier? with
  | none => []
  | some name =>
    [localBinding (.ofSpan around.file node.span) name node.span
      (.ofSlot (node.grandchildren 0).head?) none]

def resourceBindings : List Binding :=
  (node.grandchildren 0).filterMap fun resource =>
    match resource.kind with
    | .variable name _ =>
      some (localBinding (.ofSpan around.file node.span) name resource.span
        (.ofSlot (resource.present? 0)) ((resource.present? 1).map Node.render))
    | _ => none

def headerBindings : List Binding :=
  (node.grandchildren 0).flatMap fun item =>
    match item.kind with
    | .variableDeclaration _ => declaredBindings (.ofSpan around.file node.span) item
    | _ => []

def loopBindings : List Binding :=
  match node.present? 0 with
  | none => []
  | some target =>
    targetBindings around node.span target ((node.present? 1).map Node.render)

def withItems : List Node :=
  node.children.filter fun child =>
    match child.kind with
    | .withItem => true
    | _ => false

def aliasBindings : List Binding :=
  (withItems node).flatMap fun item =>
    match item.present? 1 with
    | none => []
    | some target =>
      targetBindings around node.span target ((item.present? 0).map Node.render)

def branch (index : Nat) : List Statement :=
  match children[index]?, outlines[index]? with
  | some child, some outline => if child.isAbsent then [] else outline
  | _, _ => []

def clauseHead : StatementHead :=
  match node.kind with
  | .finallyClause => compositeHead .finallyClause node [] []
  | _ => compositeHead .elseClause node [] []

def tryClauses : List Statement :=
  ((children.zip outlines).drop 2).flatMap fun clause =>
    match clause.1.kind with
    | .catchClause => clause.2
    | .elseClause => clause.2
    | .finallyClause => clause.2
    | _ => []

def ofKind (node : Node) (outlines : List (List Statement)) : List Statement :=
  let slot := branch node.children outlines
  let simple (kind : StatementKind) : List Statement := [.known (leafHead kind node []) [] []]
  match node.kind with
  | .comment _ => []
  | .block =>
    [.known { kind := .block, shape := .composite, text := "\x7b", span := node.span }
      outlines.flatten []]
  | .conditional =>
    [.known (compositeHead .conditional node (node.presentAt [0]) []) (slot 1 ++ slot 2) []]
  | .whileLoop _ =>
    [.known (compositeHead .whileLoop node (node.presentAt [0]) []) (slot 1 ++ slot 2) []]
  | .forLoop .each =>
    [.known (compositeHead .forLoop node (node.presentAt [0, 1]) (loopBindings around node))
      (slot 2 ++ slot 3) []]
  | .forLoop .classic =>
    [.known
      (compositeHead .forLoop node
        (node.grandchildren 0 ++ node.presentAt [1] ++ node.grandchildren 2)
        (headerBindings around node))
      (slot 3) []]
  | .switch =>
    [.known (compositeHead .switch node (node.presentAt [0]) []) (outlines.drop 1).flatten []]
  | .caseClause _ =>
    [.known (compositeHead .caseClause node (node.grandchildren 0 ++ node.presentAt [1]) [])
      (slot 2) []]
  | .tryStatement =>
    [.known
      (compositeHead .tryStatement node (node.grandchildren 0) (resourceBindings around node))
      (slot 1) (tryClauses node.children outlines)]
  | .catchClause =>
    [.known (compositeHead .catchClause node (node.grandchildren 0) (caughtBindings around node))
      (slot 2) []]
  | .elseClause => [.known (clauseHead node) (slot 0) []]
  | .finallyClause => [.known (clauseHead node) (slot 0) []]
  | .withStatement =>
    [.known
      (compositeHead .withStatement node ((withItems node).filterMap fun item => item.present? 0)
        (aliasBindings around node))
      (slot (node.children.length - 1)) []]
  | .asyncStatement =>
    [.known (compositeHead .asyncStatement node [] []) outlines.flatten []]
  | .synchronized =>
    [.known (compositeHead .synchronized node (node.presentAt [0]) []) (slot 1) []]
  | .methodDeclaration _ =>
    [.known { kind := .declaration, shape := .leaf, text := node.render, span := node.span } [] []]
  | .typeDeclaration _ =>
    [.known { kind := .declaration, shape := .leaf, text := node.render, span := node.span } [] []]
  | .variableDeclaration _ =>
    [.known
      (leafHead .variableDeclaration node
        (declaredBindings (localScope around blockEnd node.span) node)) [] []]
  | .assignment operator =>
    [.known (leafHead .assignment node (assignedBindings around blockEnd operator node)) [] []]
  | .expressionStatement => simple .expressionStatement
  | .returnStatement => simple .returnStatement
  | .throwStatement => simple .throwStatement
  | .assertStatement => simple .assertStatement
  | .breakStatement => simple .breakStatement
  | .continueStatement => simple .continueStatement
  | .pass => simple .pass
  | .yield _ => simple .yield
  | .globalNames names => [.known { leafHead .outerNames node [] with outerNames := names } [] []]
  | .nonlocalNames names => [.known { leafHead .outerNames node [] with outerNames := names } [] []]
  | .deletion => simple .deletion
  | .importing _ => simple .importing
  | kind => [.unknown node.span.startLine kind.label]

mutual

/-- What a node amounts to in the place of a statement; `blockEnd` is where the innermost block
around it ends. -/
def ofNode (around : Surroundings) (blockEnd : Nat) : Node → List Statement
  | ⟨.block, span, children⟩ =>
    ofKind around blockEnd ⟨.block, span, children⟩ (ofNodes around span.endOffset children)
  | ⟨kind, span, children⟩ =>
    ofKind around blockEnd ⟨kind, span, children⟩ (ofNodes around blockEnd children)

def ofNodes (around : Surroundings) (blockEnd : Nat) : List Node → List (List Statement)
  | [] => []
  | node :: rest => ofNode around blockEnd node :: ofNodes around blockEnd rest

end

mutual

def unknowns : Statement → List (Nat × String)
  | .unknown line label => [(line, label)]
  | .known _ nested handlers => unknownsOf nested ++ unknownsOf handlers

def unknownsOf : List Statement → List (Nat × String)
  | [] => []
  | statement :: rest => unknowns statement ++ unknownsOf rest

end

end Statement

end CodeEvolution
