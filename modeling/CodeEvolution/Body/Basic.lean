import CodeEvolution.Body.Facts
import CodeEvolution.Variable
/-!
# Bodies of operations

The body of an operation is a list of fragments: statements, and the controlling expressions of
composite statements. A fragment goes by its position in the list. The list is in source order
with every composite before what it holds, so the statements of a subtree stand together and
the parent of a fragment always comes before it.
-/
namespace CodeEvolution

/-- The kind of a statement; `expression` is a controlling expression, and `declaration` a nested
function or type, of which only the header is kept. -/
inductive StatementKind where
  | block
  | conditional
  | elseClause
  | whileLoop
  | forLoop
  | switch
  | caseClause
  | tryStatement
  | catchClause
  | finallyClause
  | withStatement
  | asyncStatement
  | synchronized
  | returnStatement
  | throwStatement
  | assertStatement
  | breakStatement
  | continueStatement
  | pass
  | yield
  | outerNames
  | deletion
  | importing
  | assignment
  | variableDeclaration
  | expressionStatement
  | declaration
  | expression
deriving DecidableEq, Repr

def StatementKind.name : StatementKind → String
  | .block => "block"
  | .conditional => "if"
  | .elseClause => "else"
  | .whileLoop => "while"
  | .forLoop => "for"
  | .switch => "switch"
  | .caseClause => "case"
  | .tryStatement => "try"
  | .catchClause => "catch"
  | .finallyClause => "finally"
  | .withStatement => "with"
  | .asyncStatement => "async"
  | .synchronized => "synchronized"
  | .returnStatement => "return"
  | .throwStatement => "throw"
  | .assertStatement => "assert"
  | .breakStatement => "break"
  | .continueStatement => "continue"
  | .pass => "pass"
  | .yield => "yield"
  | .outerNames => "global"
  | .deletion => "del"
  | .importing => "import"
  | .assignment => "assignment"
  | .variableDeclaration => "variable_declaration"
  | .expressionStatement => "expression_statement"
  | .declaration => "declaration"
  | .expression => "expression"

inductive Shape where
  | leaf
  | composite
  | expression
deriving DecidableEq, Repr

def Shape.name : Shape → String
  | .leaf => "leaf"
  | .composite => "composite"
  | .expression => "expression"

structure Handlers where
  catches : List Nat := []
  otherwise : Option Nat := none
  final : Option Nat := none
deriving DecidableEq, Repr

structure Fragment where
  id : Nat
  kind : StatementKind
  shape : Shape
  depth : Nat
  text : String
  span : Span
  parent : Option Nat
  children : List Nat := []
  expressions : List Nat := []
  index : Nat
  declarations : List Nat := []
  facts : Facts
  enclosingTry : Option Nat := none
  handlers : Option Handlers := none
deriving Repr

namespace Fragment

variable (f : Fragment)

def isLeaf : Bool :=
  f.shape == .leaf

def isComposite : Bool :=
  f.shape == .composite

def isBlock : Bool :=
  f.kind == .block

def isStatement : Bool :=
  f.shape != .expression

end Fragment

structure Body where
  fragments : List Fragment := []
  declarations : List Variable := []
  references : List (List Nat) := []
deriving Repr

namespace Body

variable (body : Body) (f : Fragment)

def root? : Option Nat :=
  body.fragments.head?.map Fragment.id

def get? (id : Nat) : Option Fragment :=
  body.fragments[id]?

def statements : List Fragment :=
  body.fragments.filter Fragment.isStatement

def leaves : List Fragment :=
  body.statements.filter Fragment.isLeaf

def composites : List Fragment :=
  body.statements.filter fun f => f.isComposite && !f.isBlock

def statementCount : Nat :=
  (body.statements.filter fun f => !f.isBlock).length

def ancestorsUpTo (body : Body) : Nat → Option Nat → List Fragment
  | 0, _ => []
  | _ + 1, none => []
  | bound + 1, some id =>
    match body.get? id with
    | none => []
    | some f => f :: ancestorsUpTo body bound f.parent

def ancestors : List Fragment :=
  body.ancestorsUpTo body.fragments.length f.parent

def descendants : List Fragment :=
  body.statements.filter fun g => (body.ancestors g).any fun h => h.id == f.id

def ancestorKinds : List StatementKind :=
  ((body.ancestors f).filter fun g => !g.isBlock).map Fragment.kind

end Body

end CodeEvolution
