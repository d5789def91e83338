import CodeEvolution.Json
import CodeEvolution.Model.Basic
/-!
# Keys of deltas

One key for every single difference that a refactoring can explain. Keys are ordered by their
sort and then part by part.
-/
namespace CodeEvolution

variable (key : OperationKey) (o : Operation) (a : Attribute) (v : Variable)

inductive DeltaKey where
  | removedClass (name : String)
  | addedClass (name : String)
  | classPair (before after : String)
  | removedOperation (operation : OperationKey)
  | addedOperation (operation : OperationKey)
  | removedAttribute (className name : String)
  | addedAttribute (className name : String)
  | beforeVariable (operation : OperationKey) (name : String) (offset : Nat)
  | afterVariable (operation : OperationKey) (name : String) (offset : Nat)
  | classDecorator (className name : String)
  | methodDecorator (operation : OperationKey) (name : String)
  | extraction (source target : OperationKey)
  | inlining (source target : OperationKey)
deriving DecidableEq, Repr

inductive KeyPart where
  | text (value : String)
  | number (value : Nat)
deriving DecidableEq, Repr

def KeyPart.order : KeyPart → KeyPart → Ordering
  | .number m, .number n => compare m n
  | .text s, .text t => compare s t
  | .number _, .text _ => .lt
  | .text _, .number _ => .gt

def OperationKey.parts : List KeyPart :=
  [.text key.className, .text key.name, .number key.startOffset]

def OperationKey.toJson : Json :=
  .obj [("class_name", .str key.className), ("name", .str key.name),
    ("start_offset", .num key.startOffset)]

namespace DeltaKey

def ofRemovedOperation : DeltaKey :=
  .removedOperation o.key

def ofAddedOperation : DeltaKey :=
  .addedOperation o.key

def ofRemovedAttribute : DeltaKey :=
  .removedAttribute a.className a.name

def ofAddedAttribute : DeltaKey :=
  .addedAttribute a.className a.name

def ofBeforeVariable : DeltaKey :=
  .beforeVariable o.key v.name v.span.startOffset

def ofAfterVariable : DeltaKey :=
  .afterVariable o.key v.name v.span.startOffset

def rank : DeltaKey → Nat
  | .removedClass _ => 0
  | .addedClass _ => 1
  | .classPair _ _ => 2
  | .removedOperation _ => 3
  | .addedOperation _ => 4
  | .removedAttribute _ _ => 5
  | .addedAttribute _ _ => 6
  | .beforeVariable _ _ _ => 7
  | .afterVariable _ _ _ => 8
  | .classDecorator _ _ => 9
  | .methodDecorator _ _ => 10
  | .extraction _ _ => 11
  | .inlining _ _ => 12

def parts : DeltaKey → List KeyPart
  | .removedClass name => [.text name]
  | .addedClass name => [.text name]
  | .classPair before after => [.text before, .text after]
  | .removedOperation operation => operation.parts
  | .addedOperation operation => operation.parts
  | .removedAttribute className name => [.text className, .text name]
  | .addedAttribute className name => [.text className, .text name]
  | .beforeVariable operation name offset => operation.parts ++ [.text name, .number offset]
  | .afterVariable operation name offset => operation.parts ++ [.text name, .number offset]
  | .classDecorator className name => [.text className, .text name]
  | .methodDecorator operation name => operation.parts ++ [.text name]
  | .extraction source target => source.parts ++ target.parts
  | .inlining source target => source.parts ++ target.parts

def orderParts : List KeyPart → List KeyPart → Ordering
  | [], [] => .eq
  | [], _ :: _ => .lt
  | _ :: _, [] => .gt
  | p :: ps, q :: qs => (p.order q).then (orderParts ps qs)

def order (k l : DeltaKey) : Ordering :=
  (compare k.rank l.rank).then (orderParts k.parts l.parts)

def sorted (keys : List DeltaKey) : List DeltaKey :=
  (firstOccurrences keys).mergeSort fun k l => k.order l != .gt

def tag : DeltaKey → String
  | .removedClass _ => "removed_class"
  | .addedClass _ => "added_class"
  | .classPair _ _ => "class_pair"
  | .removedOperation _ => "removed_operation"
  | .addedOperation _ => "added_operation"
  | .removedAttribute _ _ => "removed_attribute"
  | .addedAttribute _ _ => "added_attribute"
  | .beforeVariable _ _ _ => "before_variable"
  | .afterVariable _ _ _ => "after_variable"
  | .classDecorator _ _ => "class_annotation"
  | .methodDecorator _ _ => "method_annotation"
  | .extraction _ _ => "extraction"
  | .inlining _ _ => "inlining"

def jsonFields : DeltaKey → List (String × Json)
  | .removedClass name => [("class", .str name)]
  | .addedClass name => [("class", .str name)]
  | .classPair before after => [("before", .str before), ("after", .str after)]
  | .removedOperation operation => [("operation", operation.toJson)]
  | .addedOperation operation => [("operation", operation.toJson)]
  | .removedAttribute className name => [("class", .str className), ("name", .str name)]
  | .addedAttribute className name => [("class", .str className), ("name", .str name)]
  | .beforeVariable operation name offset =>
    [("operation", operation.toJson), ("name", .str name), ("offset", .num offset)]
  | .afterVariable operation name offset =>
    [("operation", operation.toJson), ("name", .str name), ("offset", .num offset)]
  | .classDecorator className name => [("class", .str className), ("name", .str name)]
  | .methodDecorator operation name => [("operation", operation.toJson), ("name", .str name)]
  | .extraction source target => [("source", source.toJson), ("target", target.toJson)]
  | .inlining source target => [("source", source.toJson), ("target", target.toJson)]

def toJson (key : DeltaKey) : Json :=
  .obj (("delta", .str key.tag) :: key.jsonFields)

end DeltaKey

end CodeEvolution
