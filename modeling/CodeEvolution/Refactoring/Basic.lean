import CodeEvolution.Json
import CodeEvolution.Model.Basic
/-!
# Refactorings

The records of what was done between two snapshots, each with a line of text and a JSON form.
They name classes, operations, attributes and variables by references that hold no part of a
model.
-/
namespace CodeEvolution

structure ClassRef where
  name : String
  file : String
deriving DecidableEq, Repr

namespace ClassRef

def of (c : ModelClass) : ClassRef :=
  ⟨c.qualifiedName, c.sourceFile⟩

def toJson (r : ClassRef) : Json :=
  .obj [("name", .str r.name), ("file", .str r.file)]

end ClassRef

structure OperationRef where
  className : String
  name : String
  signature : String
  file : String
  line : Nat
deriving DecidableEq, Repr

namespace OperationRef

def of (o : Operation) : OperationRef :=
  ⟨o.className, o.name, o.signature, o.sourceFile, o.span.startLine + 1⟩

def toJson (r : OperationRef) : Json :=
  .obj [("class_name", .str r.className), ("name", .str r.name), ("signature", .str r.signature),
    ("file", .str r.file), ("line", .num r.line)]

end OperationRef

structure AttributeRef where
  className : String
  name : String
  typeName : String
deriving DecidableEq, Repr

namespace AttributeRef

def of (a : Attribute) : AttributeRef :=
  ⟨a.className, a.name, a.type.text⟩

def text (r : AttributeRef) : String :=
  r.name ++ " : " ++ r.typeName

def toJson (r : AttributeRef) : Json :=
  .obj [("class_name", .str r.className), ("name", .str r.name), ("type_name", .str r.typeName)]

end AttributeRef

structure VariableRef where
  name : String
  typeName : String
  operation : String
  line : Nat
deriving DecidableEq, Repr

namespace VariableRef

def of (o : Operation) (v : Variable) : VariableRef :=
  ⟨v.name, v.type.text, o.qualifiedName, v.span.startLine + 1⟩

def text (r : VariableRef) : String :=
  r.name ++ " : " ++ r.typeName

def toJson (r : VariableRef) : Json :=
  .obj [("name", .str r.name), ("type_name", .str r.typeName), ("operation", .str r.operation),
    ("line", .num r.line)]

end VariableRef

structure DecoratorRef where
  name : String
  text : String
deriving DecidableEq, Repr

namespace DecoratorRef

def of (d : Decorator) : DecoratorRef :=
  ⟨d.name, d.text⟩

def toJson (r : DecoratorRef) : Json :=
  .obj [("name", .str r.name), ("text", .str r.text)]

end DecoratorRef

inductive ClassChange where
  | rename
  | move
  | moveAndRename
deriving DecidableEq, Repr

inductive OperationChange where
  | rename
  | pullUp
  | pushDown
  | move
  | moveAndRename
deriving DecidableEq, Repr

inductive AttributeChange where
  | move
  | rename
  | moveAndRename
  | pullUp
  | pushDown
deriving DecidableEq, Repr

inductive DecoratorChange where
  | added (decorator : DecoratorRef)
  | removed (decorator : DecoratorRef)
  | modified (before after : DecoratorRef)
deriving DecidableEq, Repr

inductive VariableSort where
  | parameter
  | localVariable
deriving DecidableEq, Repr

inductive Refactoring where
  | ofClass (change : ClassChange) (before after : ClassRef)
  | ofOperation (change : OperationChange) (before after : OperationRef)
  | extractOperation (extracted sourceBefore sourceAfter : OperationRef)
  | inlineOperation (inlined targetBefore targetAfter : OperationRef)
  | ofAttribute (change : AttributeChange) (before after : AttributeRef)
  | extractAttribute (extracted : AttributeRef) (replaced : List VariableRef)
  | replaceVariableWithAttribute (replaced : VariableRef) (accessed : AttributeRef)
  | extractVariable (extracted : VariableRef) (expression : String)
  | inlineVariable (inlined : VariableRef) (expression : String)
  | renameVariable (sort : VariableSort) (before after : VariableRef)
  | mergeAttribute (before : List AttributeRef) (after : AttributeRef)
  | splitAttribute (before : AttributeRef) (after : List AttributeRef)
  | mergeVariable (sort : VariableSort) (before : List VariableRef) (after : VariableRef)
  | splitVariable (sort : VariableSort) (before : VariableRef) (after : List VariableRef)
  | ofClassDecorator (change : DecoratorChange) (decorated : ClassRef)
  | ofMethodDecorator (change : DecoratorChange) (decorated : OperationRef)
  | parameterizeVariable (replaced parameter : VariableRef)
  | addParameter (parameter : VariableRef) (before after : OperationRef)
  | removeParameter (parameter : VariableRef) (before after : OperationRef)
deriving DecidableEq, Repr

namespace Refactoring

def name : Refactoring → String
  | .ofClass .rename _ _ => "Rename Class"
  | .ofClass .move _ _ => "Move Class"
  | .ofClass .moveAndRename _ _ => "Move And Rename Class"
  | .ofOperation .rename _ _ => "Rename Operation"
  | .ofOperation .pullUp _ _ => "Pull Up Operation"
  | .ofOperation .pushDown _ _ => "Push Down Operation"
  | .ofOperation .move _ _ => "Move Operation"
  | .ofOperation .moveAndRename _ _ => "Move And Rename Operation"
  | .extractOperation _ _ _ => "Extract Operation"
  | .inlineOperation _ _ _ => "Inline Operation"
  | .ofAttribute .move _ _ => "Move Attribute"
  | .ofAttribute .rename _ _ => "Rename Attribute"
  | .ofAttribute .moveAndRename _ _ => "Move And Rename Attribute"
  | .ofAttribute .pullUp _ _ => "Pull Up Attribute"
  | .ofAttribute .pushDown _ _ => "Push Down Attribute"
  | .extractAttribute _ _ => "Extract Attribute"
  | .replaceVariableWithAttribute _ _ => "Replace Variable With Attribute"
  | .extractVariable _ _ => "Extract Variable"
  | .inlineVariable _ _ => "Inline Variable"
  | .renameVariable .parameter _ _ => "Rename Parameter"
  | .renameVariable .localVariable _ _ => "Rename Variable"
  | .mergeAttribute _ _ => "Merge Attribute"
  | .splitAttribute _ _ => "Split Attribute"
  | .mergeVariable .parameter _ _ => "Merge Parameter"
  | .mergeVariable .localVariable _ _ => "Merge Variable"
  | .splitVariable .parameter _ _ => "Split Parameter"
  | .splitVariable .localVariable _ _ => "Split Variable"
  | .ofClassDecorator (.added _) _ => "Add Class Annotation"
  | .ofClassDecorator (.removed _) _ => "Remove Class Annotation"
  | .ofClassDecorator (.modified _ _) _ => "Modify Class Annotation"
  | .ofMethodDecorator (.added _) _ => "Add Method Annotation"
  | .ofMethodDecorator (.removed _) _ => "Remove Method Annotation"
  | .ofMethodDecorator (.modified _ _) _ => "Modify Method Annotation"
  | .parameterizeVariable _ _ => "Parameterize Variable"
  | .addParameter _ _ _ => "Add Parameter"
  | .removeParameter _ _ _ => "Remove Parameter"

def bracketed (texts : List String) : String :=
  "[" ++ String.intercalate ", " texts ++ "]"

def decoratorText : DecoratorChange → String
  | .added d => d.text
  | .removed d => d.text
  | .modified before after => before.text ++ " to " ++ after.text

def details : Refactoring → String
  | .ofClass _ before after => before.name ++ " moved/renamed to " ++ after.name
  | .ofOperation .rename before after =>
    before.signature ++ " renamed to " ++ after.signature ++ " in class " ++ after.className
  | .ofOperation _ before after =>
    before.signature ++ " from class " ++ before.className ++ " to " ++ after.signature ++
      " from class " ++ after.className
  | .extractOperation extracted source _ =>
    extracted.signature ++ " extracted from " ++ source.signature ++ " in class " ++
      source.className
  | .inlineOperation inlined _ target =>
    inlined.signature ++ " inlined to " ++ target.signature ++ " in class " ++ target.className
  | .ofAttribute .rename before after =>
    before.name ++ " to " ++ after.name ++ " in class " ++ after.className
  | .ofAttribute _ before after =>
    before.text ++ " from class " ++ before.className ++ " to " ++ after.text ++
      " from class " ++ after.className
  | .extractAttribute extracted replaced =>
    extracted.text ++ " in class " ++ extracted.className ++ " from " ++
      String.intercalate ", " (replaced.map VariableRef.operation)
  | .replaceVariableWithAttribute replaced accessed =>
    replaced.text ++ " to " ++ accessed.text ++ " in method " ++ replaced.operation
  | .extractVariable extracted expression =>
    extracted.text ++ " = " ++ expression ++ " in method " ++ extracted.operation
  | .inlineVariable inlined expression =>
    inlined.text ++ " = " ++ expression ++ " in method " ++ inlined.operation
  | .renameVariable _ before after =>
    before.text ++ " to " ++ after.text ++ " in method " ++ after.operation
  | .mergeAttribute before after =>
    bracketed (before.map AttributeRef.text) ++ " to " ++ after.text ++ " in class " ++
      after.className
  | .splitAttribute before after =>
    before.text ++ " to " ++ bracketed (after.map AttributeRef.text) ++ " in class " ++
      before.className
  | .mergeVariable _ before after =>
    bracketed (before.map VariableRef.text) ++ " to " ++ after.text ++ " in method " ++
      after.operation
  | .splitVariable _ before after =>
    before.text ++ " to " ++ bracketed (after.map VariableRef.text) ++ " in method " ++
      before.operation
  | .ofClassDecorator change decorated =>
    decoratorText change ++ " in class " ++ decorated.name
  | .ofMethodDecorator change decorated =>
    decoratorText change ++ " in method " ++ decorated.signature ++ " from class " ++
      decorated.className
  | .parameterizeVariable replaced parameter =>
    replaced.text ++ " to " ++ parameter.text ++ " in method " ++ parameter.operation
  | .addParameter parameter _ after =>
    parameter.text ++ " in method " ++ after.signature ++ " from class " ++ after.className
  | .removeParameter parameter before _ =>
    parameter.text ++ " in method " ++ before.signature ++ " from class " ++ before.className

def description (r : Refactoring) : String :=
  r.name ++ " " ++ r.details

def tag (words : String) : String :=
  String.ofList (words.toList.map fun c => if c = ' ' then '_' else c.toLower)

def jsonFields : Refactoring → List (String × Json)
  | .ofClass _ before after => [("before", before.toJson), ("after", after.toJson)]
  | .ofOperation _ before after => [("before", before.toJson), ("after", after.toJson)]
  | .extractOperation extracted before after =>
    [("extracted", extracted.toJson), ("source_before", before.toJson),
      ("source_after", after.toJson)]
  | .inlineOperation inlined before after =>
    [("inlined", inlined.toJson), ("target_before", before.toJson),
      ("target_after", after.toJson)]
  | .ofAttribute _ before after => [("before", before.toJson), ("after", after.toJson)]
  | .extractAttribute extracted replaced =>
    [("attribute", extracted.toJson), ("variables", .arr (replaced.map VariableRef.toJson))]
  | .replaceVariableWithAttribute replaced accessed =>
    [("variable", replaced.toJson), ("attribute", accessed.toJson)]
  | .extractVariable extracted expression =>
    [("variable", extracted.toJson), ("expression", .str expression)]
  | .inlineVariable inlined expression =>
    [("variable", inlined.toJson), ("expression", .str expression)]
  | .renameVariable _ before after => [("before", before.toJson), ("after", after.toJson)]
  | .mergeAttribute before after =>
    [("before", .arr (before.map AttributeRef.toJson)), ("after", after.toJson)]
  | .splitAttribute before after =>
    [("before", before.toJson), ("after", .arr (after.map AttributeRef.toJson))]
  | .mergeVariable _ before after =>
    [("before", .arr (before.map VariableRef.toJson)), ("after", after.toJson)]
  | .splitVariable _ before after =>
    [("before", before.toJson), ("after", .arr (after.map VariableRef.toJson))]
  | .ofClassDecorator (.modified before after) decorated =>
    [("class", decorated.toJson), ("before", before.toJson), ("after", after.toJson)]
  | .ofClassDecorator (.added d) decorated =>
    [("class", decorated.toJson), ("annotation", d.toJson)]
  | .ofClassDecorator (.removed d) decorated =>
    [("class", decorated.toJson), ("annotation", d.toJson)]
  | .ofMethodDecorator (.modified before after) decorated =>
    [("operation", decorated.toJson), ("before", before.toJson), ("after", after.toJson)]
  | .ofMethodDecorator (.added d) decorated =>
    [("operation", decorated.toJson), ("annotation", d.toJson)]
  | .ofMethodDecorator (.removed d) decorated =>
    [("operation", decorated.toJson), ("annotation", d.toJson)]
  | .parameterizeVariable replaced parameter =>
    [("variable", replaced.toJson), ("parameter", parameter.toJson)]
  | .addParameter parameter before after =>
    [("parameter", parameter.toJson), ("before", before.toJson), ("after", after.toJson)]
  | .removeParameter parameter before after =>
    [("parameter", parameter.toJson), ("before", before.toJson), ("after", after.toJson)]

def toJson (r : Refactoring) : Json :=
  .obj (("type", .str (tag r.name)) :: r.jsonFields)

end Refactoring

end CodeEvolution
