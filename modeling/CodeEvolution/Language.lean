import CodeEvolution.Path
/-!
# Source languages

The languages whose syntax trees can be lowered, with the conventions that the model and the
normal form of bodies depend on.
-/
namespace CodeEvolution

inductive Language where
  | python
  | java
deriving DecidableEq, Repr

inductive Placement where
  | inInstance
  | classMethod
  | static
  | topLevel
deriving DecidableEq, Repr

namespace Language

def ofPath? (path : String) : Option Language :=
  match Path.extension? path with
  | some "py" => some .python
  | some "pyi" => some .python
  | some "java" => some .java
  | _ => none

def name : Language → String
  | .python => "python"
  | .java => "java"

def receivers : Language → List String
  | .python => ["self", "cls"]
  | .java => ["this"]

def declaresReceiver : Language → Bool
  | .python => true
  | .java => false

def declaresOnAssignment : Language → Bool
  | .python => true
  | .java => false

def initializerName? : Language → Option String
  | .python => some "__init__"
  | .java => none

def receiverOffset (language : Language) : Placement → Nat
  | .inInstance => if language.declaresReceiver then 1 else 0
  | .classMethod => if language.declaresReceiver then 1 else 0
  | .static => 0
  | .topLevel => 0

def receiversOfPath (path : String) : List String :=
  match ofPath? path with
  | some language => language.receivers
  | none => []

end Language

end CodeEvolution
