import CodeEvolution.Span
/-!
# Language-neutral syntax nodes

Both languages are lowered to one closed set of node kinds. Every kind has a fixed layout of
children, written beside its constructor; an optional slot that is empty holds an `absent` node
instead of being left out.
-/
namespace CodeEvolution

inductive Visibility where
  | publicAccess
  | protectedAccess
  | packageAccess
  | privateAccess
deriving DecidableEq, Repr

def Visibility.name : Visibility → String
  | .publicAccess => "public"
  | .protectedAccess => "protected"
  | .packageAccess => "package"
  | .privateAccess => "private"

structure Modifiers where
  visibility : Option Visibility := none
  isStatic : Bool := false
  isAbstract : Bool := false
  isFinal : Bool := false
  isDefault : Bool := false
  isSynchronized : Bool := false
deriving DecidableEq, Repr

inductive TypeSort where
  | classType
  | interfaceType
  | enumType
  | recordType
  | decoratorType
deriving DecidableEq, Repr

structure TypeHead where
  name : String
  sort : TypeSort
  modifiers : Modifiers
  supertypes : List String
  keywords : List (String × String)
deriving DecidableEq, Repr

structure MethodHead where
  name : String
  modifiers : Modifiers
  isConstructor : Bool
  isAsync : Bool
deriving DecidableEq, Repr

inductive ParameterSort where
  | regular
  | varArgs
  | kwArgs
deriving DecidableEq, Repr

structure ImportedName where
  name : String
  alias? : Option String
deriving DecidableEq, Repr

/-- An import; the source is empty when whole modules are imported. -/
structure ImportHead where
  source : String
  names : List ImportedName
  isWildcard : Bool
  isStatic : Bool
deriving DecidableEq, Repr

inductive ForStyle where
  | each
  | classic
deriving DecidableEq, Repr

inductive LiteralSort where
  | number
  | string
  | char
  | boolean
  | null
deriving DecidableEq, Repr

inductive CollectionSort where
  | list
  | tuple
  | set
  | dict
  | array
deriving DecidableEq, Repr

/-- The kind of a node, with its layout of children. -/
inductive NodeKind where
  | compilationUnit
  | block
  /-- `[condition, then: block, else: block | conditional | absent]` -/
  | conditional
  /-- `[condition, body: block, else: elseClause | absent]` -/
  | whileLoop (testLast : Bool)
  /-- Each: `[target, iterable, body: block, else: elseClause | absent]`;
  classic: `[init: expressionList, condition | absent, update: expressionList, body: block]` -/
  | forLoop (style : ForStyle)
  /-- `[subject, caseClause...]` -/
  | switch
  /-- `[patterns: expressionList, guard | absent, body: block]` -/
  | caseClause (isDefault : Bool)
  /-- `[resources: expressionList, body: block, catchClause..., else: elseClause | absent,
  finally: finallyClause | absent]` -/
  | tryStatement
  /-- `[types: expressionList, name: simpleName | absent, body: block]` -/
  | catchClause
  /-- `[body: block]` -/
  | finallyClause
  /-- `[body: block]`, the `else` of a loop or of a `try` -/
  | elseClause
  | breakStatement
  | continueStatement
  | pass
  /-- `[value | absent]` -/
  | returnStatement
  /-- `[exception | absent, cause | absent]` -/
  | throwStatement
  /-- `[condition, message | absent]` -/
  | assertStatement
  /-- `[value | absent]`, a statement or an expression -/
  | yield (delegate : Bool)
  | globalNames (names : List String)
  | nonlocalNames (names : List String)
  /-- `[targets...]` -/
  | deletion
  /-- `[withItem..., body: block]` -/
  | withStatement
  /-- `[context, alias | absent]` -/
  | withItem
  | importing (head : ImportHead)
  /-- `[target, type: typeRef | absent, value | absent]` -/
  | assignment (operator : String)
  /-- `[type: typeRef, variable...]` -/
  | variableDeclaration (modifiers : Modifiers)
  /-- `[expression]` -/
  | expressionStatement
  /-- `[lock, body: block]` -/
  | synchronized
  /-- `[receiver | absent, arguments...]` -/
  | invocation (name : String)
  /-- `[arguments...]` -/
  | creation (typeName : String)
  /-- `[receiver]` -/
  | fieldAccess (name : String)
  | simpleName (identifier : String)
  | literal (sort : LiteralSort) (text : String)
  /-- `[left, right]` -/
  | binary (operator : String)
  /-- `[operand]` -/
  | unary (operator : String) (leading : Bool)
  /-- `[condition, then, else]` -/
  | ternary
  /-- `[value, index]` -/
  | subscript
  | collection (sort : CollectionSort)
  /-- `[key, value]` -/
  | pair
  /-- `[value]` -/
  | keywordArgument (name : String)
  /-- `[variable..., body]` -/
  | lambda
  /-- `[inner]` -/
  | parenthesized
  | expressionList
  | decorator (name : String)
  /-- `[decorator..., variable (record components)..., body: block]` -/
  | typeDeclaration (head : TypeHead)
  /-- `[decorator..., variable..., return: typeRef | absent, body: block | absent]` -/
  | methodDeclaration (head : MethodHead)
  /-- `[type: typeRef | absent, initializer | absent]` -/
  | variable (name : String) (sort : ParameterSort)
  /-- `[arguments...]` -/
  | enumConstant (name : String)
  | typeRef (name : String)
  /-- `[statement]` -/
  | asyncStatement
  | comment (text : String)
  /-- A construct without a kind of its own, by the grammar's name of it and its collapsed
  text. -/
  | other (kind : String) (text : String)
  | absent
deriving DecidableEq, Repr, Inhabited

structure Node where
  kind : NodeKind
  span : Span
  children : List Node
deriving Repr, Inhabited

variable (node : Node) (index : Nat)

def NodeKind.label : NodeKind → String
  | .compilationUnit => "module"
  | .block => "block"
  | .conditional => "if"
  | .whileLoop _ => "while"
  | .forLoop _ => "for"
  | .switch => "switch"
  | .caseClause _ => "case"
  | .tryStatement => "try"
  | .catchClause => "catch"
  | .finallyClause => "finally"
  | .elseClause => "else"
  | .breakStatement => "break"
  | .continueStatement => "continue"
  | .pass => "pass"
  | .returnStatement => "return"
  | .throwStatement => "throw"
  | .assertStatement => "assert"
  | .yield _ => "yield"
  | .globalNames _ => "global"
  | .nonlocalNames _ => "nonlocal"
  | .deletion => "del"
  | .withStatement => "with"
  | .withItem => "with_item"
  | .importing _ => "import"
  | .assignment _ => "assignment"
  | .variableDeclaration _ => "variable_declaration"
  | .expressionStatement => "expression_statement"
  | .synchronized => "synchronized"
  | .invocation _ => "method_invocation"
  | .creation _ => "object_creation"
  | .fieldAccess _ => "field_access"
  | .simpleName _ => "simple_name"
  | .literal _ _ => "literal"
  | .binary _ => "binary_op"
  | .unary _ _ => "unary_op"
  | .ternary => "ternary"
  | .subscript => "subscript"
  | .collection _ => "collection"
  | .pair => "pair"
  | .keywordArgument _ => "keyword_argument"
  | .lambda => "lambda"
  | .parenthesized => "parenthesized"
  | .expressionList => "expression_list"
  | .decorator _ => "annotation"
  | .typeDeclaration _ => "type_declaration"
  | .methodDeclaration _ => "method_declaration"
  | .variable _ _ => "single_variable_declaration"
  | .enumConstant _ => "enum_constant"
  | .typeRef _ => "type_ref"
  | .asyncStatement => "async"
  | .comment _ => "comment"
  | .other kind _ => kind
  | .absent => "absent"

namespace Node

def leaf (kind : NodeKind) (span : Span) : Node :=
  ⟨kind, span, []⟩

def absentAt (span : Span) : Node :=
  leaf .absent span

def isAbsent : Bool :=
  match node.kind with
  | .absent => true
  | _ => false

def child? : Option Node :=
  node.children[index]?

def present? : Option Node :=
  (node.child? index).filter fun child => !child.isAbsent

def isBlock : Bool :=
  match node.kind with
  | .block => true
  | _ => false

def isDecorator : Bool :=
  match node.kind with
  | .decorator _ => true
  | _ => false

def isVariable : Bool :=
  match node.kind with
  | .variable _ _ => true
  | _ => false

def decorators : List Node :=
  node.children.filter isDecorator

def parameters : List Node :=
  node.children.filter isVariable

def returnType? : Option Node :=
  match node.kind with
  | .methodDeclaration _ =>
    if 2 ≤ node.children.length then node.present? (node.children.length - 2) else none
  | _ => none

def body? : Option Node :=
  match node.kind with
  | .methodDeclaration _ => node.children.getLast?.filter isBlock
  | .typeDeclaration _ => node.children.getLast?.filter isBlock
  | _ => none

mutual

def preorder : Node → List Node
  | ⟨kind, span, children⟩ => ⟨kind, span, children⟩ :: preorderAll children

def preorderAll : List Node → List Node
  | [] => []
  | node :: rest => preorder node ++ preorderAll rest

end

end Node

end CodeEvolution
