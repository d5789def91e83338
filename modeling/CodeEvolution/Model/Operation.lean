import CodeEvolution.Body.OfMethod
import CodeEvolution.Text.Dotted
/-!
# Operations

A method of a class or a function of a file, with its signature and its body. The parameters end
with one that stands for the result.
-/
namespace CodeEvolution

variable (node : Node)

structure Decorator where
  name : String
  arguments : List String
  span : Span
deriving DecidableEq, Repr

namespace Decorator

def ofNode? : Option Decorator :=
  match node.kind with
  | .decorator name => some ⟨name, node.children.map Node.render, node.span⟩
  | _ => none

def simpleName (d : Decorator) : String :=
  Text.simpleName d.name

def text (d : Decorator) : String :=
  if d.arguments.isEmpty then "@" ++ d.name
  else "@" ++ d.name ++ "(" ++ String.intercalate ", " d.arguments ++ ")"

end Decorator

def Node.decoratorsOf : List Decorator :=
  node.decorators.filterMap Decorator.ofNode?

def Node.isDecorated (name : String) : Bool :=
  node.decoratorsOf.any fun d => d.simpleName == name

structure Comment where
  text : String
  span : Span
deriving DecidableEq, Repr

def Comment.ofNode? : Option Comment :=
  match node.kind with
  | .comment text => some ⟨text, node.span⟩
  | _ => none

inductive ParameterRole where
  | plain
  | varArgs
  | kwArgs
  | result
deriving DecidableEq, Repr

def ParameterRole.name : ParameterRole → String
  | .plain => "in"
  | .varArgs => "var_args"
  | .kwArgs => "kw_args"
  | .result => "return"

def ParameterRole.ofSort : ParameterSort → ParameterRole
  | .regular => .plain
  | .varArgs => .varArgs
  | .kwArgs => .kwArgs

structure Parameter where
  declaration : Variable
  role : ParameterRole
deriving Repr

namespace Parameter

def name (p : Parameter) : String :=
  p.declaration.name

def type (p : Parameter) : TypeInfo :=
  p.declaration.type

end Parameter

structure OperationTraits where
  isStatic : Bool := false
  isAbstract : Bool := false
  isConstructor : Bool := false
  isAsync : Bool := false
  isFinal : Bool := false
  isClassMethod : Bool := false
deriving DecidableEq, Repr

def OperationTraits.names (t : OperationTraits) : List String :=
  ([(t.isStatic, "static"), (t.isAbstract, "abstract"), (t.isConstructor, "constructor"),
    (t.isAsync, "async"), (t.isFinal, "final"), (t.isClassMethod, "class_method")].filter
      Prod.fst).map Prod.snd

structure OperationKey where
  className : String
  name : String
  startOffset : Nat
deriving DecidableEq, Repr

def OperationKey.order (k l : OperationKey) : Ordering :=
  (compare k.className l.className).then
    ((compare k.name l.name).then (compare k.startOffset l.startOffset))

structure Operation where
  name : String
  className : String
  visibility : Visibility
  traits : OperationTraits
  parameters : List Parameter
  decorators : List Decorator
  comments : List Comment
  span : Span
  sourceFile : String
  body : Body
deriving Repr

namespace Operation

variable (o : Operation)

def key : OperationKey :=
  ⟨o.className, o.name, o.span.startOffset⟩

def inputs : List Parameter :=
  o.parameters.filter fun p => p.role != .result

def parameterNames : List String :=
  o.inputs.map Parameter.name

def parameterTypes : List String :=
  o.inputs.map fun p => p.type.text

def returnType? : Option TypeInfo :=
  (o.parameters.find? fun p => p.role == .result).map Parameter.type

def arity : Nat :=
  o.inputs.length

def resultText : String :=
  match o.returnType? with
  | some type => if type.isUntyped then "" else " : " ++ type.text
  | none => ""

def signature (o : Operation) : String :=
  o.name ++ "(" ++ String.intercalate ", " (o.inputs.map fun p => p.declaration.signature) ++
    ")" ++ o.resultText

def signatureKey : String × Nat × List String :=
  (o.name, o.arity, o.parameterTypes)

def hasSameParameters (p : Operation) : Bool :=
  o.parameterNames == p.parameterNames && o.parameterTypes == p.parameterTypes

def parameter? (name : String) : Option Parameter :=
  o.inputs.find? fun p => p.name == name

def locals : List Variable :=
  o.body.declarations.filter fun v => v.role == .localVariable

def qualifiedName : String :=
  o.className ++ "." ++ o.name

end Operation

end CodeEvolution
