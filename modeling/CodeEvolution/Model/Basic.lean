import CodeEvolution.Model.Operation
/-!
# Models of snapshots

The classes of a snapshot with their attributes and operations, and its imports. Supertypes are
recorded by name as written; a name is resolved to a class by its qualified name, else by its
simple name.
-/
namespace CodeEvolution

structure Import where
  source : String
  name? : Option String
  alias? : Option String
  sourceFile : String
deriving DecidableEq, Repr

structure Attribute where
  name : String
  type : TypeInfo
  className : String
  visibility : Visibility
  isStatic : Bool
  isFinal : Bool
  declaration : Variable
  declaringOperation : Option String := none
deriving Repr

namespace Attribute

variable (a : Attribute)

def role : VariableRole :=
  a.declaration.role

def initializer? : Option String :=
  a.declaration.initializer

def matchKey : String × String × VariableRole :=
  (a.name, a.type.text, a.role)

end Attribute

structure ClassTraits where
  isAbstract : Bool := false
  isInterface : Bool := false
  isFinal : Bool := false
  isStatic : Bool := false
  isDecoratorType : Bool := false
  isEnum : Bool := false
  isRecord : Bool := false
  isModule : Bool := false
deriving DecidableEq, Repr

def ClassTraits.names (t : ClassTraits) : List String :=
  ([(t.isAbstract, "abstract"), (t.isInterface, "interface"), (t.isFinal, "final"),
    (t.isStatic, "static"), (t.isDecoratorType, "annotation_type"), (t.isEnum, "enum"),
    (t.isRecord, "record"), (t.isModule, "module")].filter Prod.fst).map Prod.snd

structure ModelClass where
  name : String
  package : String
  sourceFile : String
  language : Language
  visibility : Visibility
  traits : ClassTraits
  supertypes : List String
  attributes : List Attribute
  operations : List Operation
  decorators : List Decorator
  comments : List Comment
  span : Span
deriving Repr

namespace ModelClass

variable (c : ModelClass) (name : String)

def qualifiedName : String :=
  Text.qualified c.package c.name

def superclass? : Option String :=
  c.supertypes.head?

def generalizations : List (String × String) :=
  (c.supertypes.drop 1).map fun parent => (c.qualifiedName, parent)

def attribute? : Option Attribute :=
  c.attributes.find? fun a => a.name == name

def operationsNamed : List Operation :=
  c.operations.filter fun o => o.name == name

def constructor? : Option Operation :=
  c.operations.find? fun o => o.traits.isConstructor

def memberKeys : List String :=
  firstOccurrences (c.operations.map (fun o => "op:" ++ o.signature) ++
    c.attributes.map fun a => "attr:" ++ a.name)

end ModelClass

structure Model where
  classes : List ModelClass := []
  imports : List Import := []
deriving Repr

namespace Model

variable (m : Model) (name : String)

def append (n : Model) : Model :=
  ⟨m.classes ++ n.classes, m.imports ++ n.imports⟩

def class? (qualifiedName : String) : Option ModelClass :=
  m.classes.find? fun c => c.qualifiedName == qualifiedName

def resolve? : Option ModelClass :=
  match m.class? name with
  | some c => some c
  | none => m.classes.find? fun c => c.name == Text.simpleName name

/-- The names still to be looked at with the classes to which supertype names are resolved on top
of them, the last one first, or nothing if one of the names stands for the ancestor: a name for the
class to which it is resolved, by its qualified name, and a name of no class for itself. -/
def pushParents? (m : Model) (ancestor : String) : List String → List String → Option (List String)
  | [], pending => some pending
  | parent :: rest, pending =>
    match m.resolve? parent with
    | some resolved =>
      if resolved.qualifiedName = ancestor then none
      else pushParents? m ancestor rest (resolved.qualifiedName :: pending)
    | none => if parent = ancestor then none else pushParents? m ancestor rest pending

/-- What the classes that were not visited can still put on the pending names. -/
def unvisited (visited : List String) : List ModelClass → Nat
  | [] => 0
  | c :: rest =>
    (if c.qualifiedName ∈ visited then 0 else c.supertypes.length + 1) + unvisited visited rest

theorem unvisited_cons_le (current : String) (visited : List String) (classes : List ModelClass) :
    unvisited (current :: visited) classes ≤ unvisited visited classes := by
  induction classes with
  | nil => exact .refl
  | cons c rest ih => grind [unvisited]

theorem unvisited_cons_lt {c : ModelClass} {current : String} {visited : List String}
    {classes : List ModelClass} (hfind : classes.find? (·.qualifiedName == current) = some c)
    (hnew : current ∉ visited) :
    unvisited (current :: visited) classes + c.supertypes.length < unvisited visited classes := by
  induction classes with
  | nil => simp at hfind
  | cons d rest ih =>
    have hrest := unvisited_cons_le current visited rest
    grind [unvisited]

theorem length_pushParents? {m : Model} {ancestor : String} {names pending next : List String}
    (h : m.pushParents? ancestor names pending = some next) :
    next.length ≤ names.length + pending.length := by
  fun_induction pushParents? m ancestor names pending <;> grind

/-- Whether a chain of supertypes leads from a pending name to the ancestor. The names are taken from
the top, and a name is looked at once. -/
def searchAncestor (m : Model) (ancestor : String) (visited : List String) : List String → Bool
  | [] => false
  | current :: pending =>
    if current ∈ visited then searchAncestor m ancestor visited pending
    else
      match _hclass : m.class? current with
      | none => searchAncestor m ancestor (current :: visited) pending
      | some c =>
        match _hpush : m.pushParents? ancestor c.supertypes pending with
        | none => true
        | some next => searchAncestor m ancestor (current :: visited) next
termination_by pending => unvisited visited m.classes + pending.length
decreasing_by
  · simp
  · have := unvisited_cons_le current visited m.classes
    simp only [List.length_cons]
    omega
  · have := unvisited_cons_lt _hclass ‹_›
    have := length_pushParents? _hpush
    simp only [List.length_cons]
    omega

/-- Whether a class inherits, directly or through others, from what a name denotes. -/
def isSubtype (child ancestor : String) : Bool :=
  m.searchAncestor ancestor [] [child]

def operationCount : Nat :=
  m.classes.foldl (fun count c => count + c.operations.length) 0

end Model

end CodeEvolution
