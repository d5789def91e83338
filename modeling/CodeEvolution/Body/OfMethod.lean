import CodeEvolution.Body.Layout
/-!
# The body of a method

The statements of a method are numbered, and then taken in order to settle which variables they
introduce and which fragments refer to them.
-/
namespace CodeEvolution

structure DeclaredNames where
  declarations : List Variable := []
  outerNames : List String := []
deriving Repr

variable (around : Surroundings) (names : DeclaredNames) (method : Node)

namespace DeclaredNames

def isVisible (name : String) (offset : Nat) : Bool :=
  names.declarations.any fun v => v.name == name && !v.isMember && v.scope.contains offset

def introduces (binding : Binding) : Bool :=
  (match binding.assignedAt with
    | none => true
    | some offset =>
      !names.outerNames.contains binding.introduced.name &&
        !names.isVisible binding.introduced.name offset) &&
    !names.declarations.any binding.introduced.same

def declare (statement : Option Nat) (names : DeclaredNames) (binding : Binding) :
    DeclaredNames :=
  if names.introduces binding then
    { names with declarations := names.declarations ++ [{ binding.introduced with statement }] }
  else names

def afterStatement (numbered : NumberedStatement) : DeclaredNames :=
  numbered.bindings.foldl (declare (some numbered.fragment.id))
    { names with outerNames := names.outerNames ++ numbered.outerNames }

def ofParameters (parameters : List Variable) : DeclaredNames :=
  parameters.foldl (fun names v => declare none names { introduced := v }) {}

end DeclaredNames

namespace Body

def declarationsAt (declarations : List Variable) (id : Nat) : List Nat :=
  (declarations.zipIdx.filter fun entry => entry.1.statement == some id).map Prod.snd

/-- Whether a fragment refers to a variable: to a member through the receiver, to any other

variable by its name inside its scope. -/

def refersTo (receiver? : Option String) (v : Variable) (f : Fragment) : Bool :=
  !f.isBlock &&
    if v.isMember then
      match receiver? with
      | some receiver => f.facts.accessesMember receiver v.name
      | none => false
    else v.scope.contains f.span.startOffset && f.facts.mentions v.name

def surroundings (language : Language) (file : String) (classSpan : Span)
    (receiver? : Option String) (method : Node) : Surroundings :=
  { language
    file
    classSpan
    receiver?
    bodyEnd := match method.body? with
      | some block => block.span.endOffset
      | none => method.span.endOffset }

def statementsOf : List Statement :=
  match method.body? with
  | some block => Statement.ofNode around around.bodyEnd block
  | none => []

def ofMethod (parameters : List Node) : Body :=
  let numbered := Statement.numberAll none none 0 0 0 (statementsOf around method)
  let scope := Scope.ofSpan around.file method.span
  let start := DeclaredNames.ofParameters (parameters.filterMap (Variable.ofParameter? scope))
  let declarations := (numbered.foldl DeclaredNames.afterStatement start).declarations
  let fragments := numbered.map fun entry =>
    { entry.fragment with declarations := declarationsAt declarations entry.fragment.id }
  { fragments
    declarations
    references := declarations.map fun v =>
      (fragments.filter (refersTo around.receiver? v)).map Fragment.id }

end Body

end CodeEvolution
