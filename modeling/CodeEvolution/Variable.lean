import CodeEvolution.TypeInfo
/-!
# Variables

A variable is declared by a parameter, a statement or an attribute, and is visible over a scope.
Scope and name identify it.
-/
namespace CodeEvolution

inductive VariableRole where
  | localVariable
  | parameter
  | memberAttribute
  | enumConstant
deriving DecidableEq, Repr

def VariableRole.name : VariableRole → String
  | .localVariable => "local"
  | .parameter => "parameter"
  | .memberAttribute => "attribute"
  | .enumConstant => "enum_constant"

structure Scope where
  file : String
  start : Nat
  stop : Nat
deriving DecidableEq, Repr

namespace Scope

def ofSpan (file : String) (span : Span) : Scope :=
  ⟨file, span.startOffset, span.endOffset⟩

/-- Whether an offset is in scope; an empty scope still covers its start. -/
def contains (scope : Scope) (offset : Nat) : Bool :=
  decide (scope.start ≤ offset) && decide (offset < max scope.stop (scope.start + 1))

def overlaps (s t : Scope) : Bool :=
  s.file == t.file && decide (s.start < t.stop) && decide (t.start < s.stop)

def order (s t : Scope) : Ordering :=
  (compare s.file t.file).then ((compare s.start t.start).then (compare s.stop t.stop))

end Scope

structure Variable where
  name : String
  type : TypeInfo := .untyped
  role : VariableRole
  scope : Scope
  initializer : Option String := none
  span : Span
  isVariadic : Bool := false
  statement : Option Nat := none
deriving Repr

namespace Variable

def ofParameter? (scope : Scope) (node : Node) : Option Variable :=
  match node.kind with
  | .variable name sort =>
    some
      { name
        type := .ofSlot (node.present? 0)
        role := .parameter
        scope
        initializer := (node.present? 1).map Node.render
        span := node.span
        isVariadic := sort != .regular }
  | _ => none

def same (v w : Variable) : Bool :=
  v.scope == w.scope && v.name == w.name

def isParameter (v : Variable) : Bool :=
  v.role == .parameter

def isMember (v : Variable) : Bool :=
  v.role == .memberAttribute || v.role == .enumConstant

def signature (v : Variable) : String :=
  if v.type.isUntyped then v.name else v.name ++ " : " ++ v.type.text

end Variable

end CodeEvolution
