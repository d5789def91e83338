import CodeEvolution.Model.Basic
import CodeEvolution.Syntax.Tree
/-!
# Builders of small inputs

Grammar trees, nodes and classes of which only what matters to an example is written out.
-/
namespace CodeEvolution.Samples

open Syntax (Outline Tree)

def outline (kind : String) (start stop : Nat) (fields : List String) (children : List Outline) :
    Outline :=
  { kind, isNamed := true, isMissing := false, start, stop, fields, children }

def mark (kind : String) (start : Nat) (fields : List String) : Outline :=
  { kind, isNamed := false, isMissing := false, start, stop := start + kind.length, fields
    children := [] }

def node (kind : String) (start stop : Nat) (fields : List String) (children : List Tree) : Tree :=
  ⟨kind, true, false, ⟨0, start, 0, stop, start, stop⟩, kind, fields, children⟩

def token (kind : String) (start : Nat) : Tree :=
  ⟨kind, false, false, ⟨0, start, 0, start + 1, start, start + 1⟩, kind, [], []⟩

def unplaced (kind : NodeKind) (children : List Node) : Node :=
  ⟨kind, {}, children⟩

def attributeOf (className name : String) : Attribute where
  name
  type := .untyped
  className
  visibility := .publicAccess
  isStatic := true
  isFinal := false
  declaration :=
    { name
      role := .memberAttribute
      scope := ⟨"m.py", 0, 0⟩
      initializer := some "1"
      span := default }

def parameterOf (name : String) : Variable where
  name
  role := .parameter
  scope := ⟨"m.py", 0, 0⟩
  span := default

def operationOf (className name : String) (parameters : List Variable) : Operation where
  name
  className
  visibility := .publicAccess
  traits := {}
  parameters := parameters.map fun p => ⟨p, .plain⟩
  decorators := []
  comments := []
  span := default
  sourceFile := "m.py"
  body := { declarations := parameters }

def classOf (name : String) (supertypes : List String) (attributes : List Attribute)
    (operations : List Operation) : ModelClass where
  name
  package := "m"
  sourceFile := "m.py"
  language := .python
  visibility := .publicAccess
  traits := {}
  supertypes
  attributes
  operations
  decorators := []
  comments := []
  span := default

end CodeEvolution.Samples
