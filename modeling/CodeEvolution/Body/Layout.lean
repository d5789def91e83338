import CodeEvolution.Body.Statement
/-!
# Numbering of statements

The fragments of a statement stand in one stretch of the list: the statement, its controlling
expressions, the statements it holds, and then the clauses beside it. The number of every
fragment follows from the sizes of what comes before it.
-/
namespace CodeEvolution

structure NumberedStatement where
  fragment : Fragment
  bindings : List Binding := []
  outerNames : List String := []
deriving Repr

namespace Statement

mutual

def size : Statement → Nat
  | .unknown _ _ => 0
  | .known head nested handlers => 1 + head.controls.length + sizeAll nested + sizeAll handlers

def sizeAll : List Statement → Nat
  | [] => 0
  | statement :: rest => size statement + sizeAll rest

end

mutual

def siblings (id : Nat) : Statement → List (Nat × StatementKind)
  | .unknown _ _ => []
  | .known head nested handlers =>
    (id, head.kind) :: siblingsAll (id + 1 + head.controls.length + sizeAll nested) handlers

def siblingsAll (id : Nat) : List Statement → List (Nat × StatementKind)
  | [] => []
  | statement :: rest => siblings id statement ++ siblingsAll (id + size statement) rest

end

/-- The clauses of a `try` by their kinds. Of several `else` or `finally` clauses the last one
counts. -/
def handlersOf (clauses : List (Nat × StatementKind)) : Handlers where
  catches := (clauses.filter fun clause => clause.2 == .catchClause).map Prod.fst
  otherwise := (clauses.filter fun clause => clause.2 == .elseClause).getLast?.map Prod.fst
  final := (clauses.filter fun clause => clause.2 == .finallyClause).getLast?.map Prod.fst

def numberControls (parent depth : Nat) (id index : Nat) :
    List Control → List NumberedStatement
  | [] => []
  | control :: rest =>
    { fragment :=
        { id, kind := .expression, shape := .expression, depth, text := control.text,
          span := control.span, parent := some parent, index, facts := control.facts } } ::
      numberControls parent depth (id + 1) (index + 1) rest

def headFragment (id : Nat) (parent enclosing : Option Nat) (depth index : Nat)
    (head : StatementHead) (nested handlers : List Statement) : Fragment :=
  let inner := id + 1 + head.controls.length
  { id
    kind := head.kind
    shape := head.shape
    depth
    text := head.text
    span := head.span
    parent
    children := (siblingsAll inner nested).map Prod.fst
    expressions := List.range' (id + 1) head.controls.length
    index
    facts := head.facts
    enclosingTry := enclosing
    handlers :=
      if head.kind = .tryStatement then
        some (handlersOf (siblingsAll (inner + sizeAll nested) handlers))
      else none }

mutual

/-- The fragments of a statement, from number `id` on, at a position below a parent and inside
the guarded body of a `try`. -/
def number (parent enclosing : Option Nat) (depth index id : Nat) :
    Statement → List NumberedStatement
  | .unknown _ _ => []
  | .known head nested handlers =>
    let inner := id + 1 + head.controls.length
    let guard := if head.kind = .tryStatement then some id else enclosing
    { fragment := headFragment id parent enclosing depth index head nested handlers
      bindings := head.bindings
      outerNames := head.outerNames } ::
      (numberControls id depth (id + 1) 0 head.controls ++
        numberAll (some id) guard (depth + 1) 0 inner nested ++
        numberAll parent enclosing depth (index + 1) (inner + sizeAll nested) handlers)

def numberAll (parent enclosing : Option Nat) (depth index id : Nat) :
    List Statement → List NumberedStatement
  | [] => []
  | statement :: rest =>
    number parent enclosing depth index id statement ++
      numberAll parent enclosing depth (index + (siblings id statement).length)
        (id + size statement) rest

end

end Statement

end CodeEvolution
