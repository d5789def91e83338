import CodeEvolution.Lowering.Java.Expression
import CodeEvolution.Text.Dotted
/-!
# Java declarations

The rules for packages, imports, types and their members.
-/
namespace CodeEvolution.Lowering.Java

open Syntax (Tree)

variable (calls : Calls) (tree : Tree)

def decoratorArgument : Option Node :=
  if tree.kind == "element_value_pair" then do
    let value ← fieldSlot calls.expression tree "value" (absentAfter tree)
    return nodeOf (.keywordArgument (tree.fieldText "key")) tree [value]
  else calls.expression tree

def decorator (calls : Calls) (tree : Tree) : Option Node := do
  let arguments ← match tree.field? "arguments" with
    | some list => list.named.mapM (decoratorArgument calls)
    | none => pure []
  return nodeOf (.decorator (tree.fieldText "name")) tree arguments

def modifierList : List Tree :=
  match tree.children.find? fun child => child.kind == "modifiers" with
  | some list => list.children
  | none => []

def addModifier (modifiers : Modifiers) (tree : Tree) : Modifiers :=
  match tree.kind with
  | "public" => { modifiers with visibility := some .publicAccess }
  | "protected" => { modifiers with visibility := some .protectedAccess }
  | "private" => { modifiers with visibility := some .privateAccess }
  | "static" => { modifiers with isStatic := true }
  | "abstract" => { modifiers with isAbstract := true }
  | "final" => { modifiers with isFinal := true }
  | "default" => { modifiers with isDefault := true }
  | "synchronized" => { modifiers with isSynchronized := true }
  | _ => modifiers

def modifiers : Modifiers :=
  (modifierList tree).foldl addModifier {}

def decorators : Option (List Node) :=
  ((modifierList tree).filter fun child =>
    child.kind == "annotation" || child.kind == "marker_annotation").mapM (decorator calls)

def packageDeclaration : Rule := fun _ tree =>
  let name := tree.named.find? fun child =>
    child.kind != "annotation" && child.kind != "marker_annotation"
  some (nodeOf (.other "package" ((name.map Tree.text).getD "")) tree [])

def importing : Rule := fun _ tree =>
  let path := tree.named.find? fun child =>
    child.kind == "scoped_identifier" || child.kind == "identifier"
  let path := (path.map Tree.text).getD ""
  let isWildcard := tree.children.any fun child => child.kind == "asterisk"
  let isStatic := tree.hasToken "static"
  let head : ImportHead :=
    if isWildcard then ⟨path, [], isWildcard, isStatic⟩
    else
      let (source?, name) := Text.splitLastPoint path
      ⟨source?.getD "", [⟨name, none⟩], isWildcard, isStatic⟩
  some (nodeOf (.importing head) tree [])

def supertypesIn : List String :=
  match tree.kind with
  | "superclass" => tree.named.map Tree.collapsed
  | "super_interfaces" => tree.named.flatMap fun list => list.named.map Tree.collapsed
  | "extends_interfaces" => tree.named.flatMap fun list => list.named.map Tree.collapsed
  | _ => []

def memberTrees (body : Tree) : List Tree :=
  body.statements.flatMap fun member =>
    if member.kind == "enum_body_declarations" then member.statements else [member]

def typeBody (tree : Option Tree) (anchor : Span) : Option Node :=
  match tree with
  | none => some (Node.leaf .block anchor)
  | some body => do return nodeOf .block body (← (memberTrees body).mapM calls.declaration)

def typeDeclaration (sort : TypeSort) : Rule := fun calls tree => do
  let decorators ← decorators calls tree
  let components ← match sort, tree.field? "parameters" with
    | .recordType, some list => parameters calls list
    | _, _ => pure []
  let body ← typeBody calls (tree.field? "body") tree.span.endPoint
  let head : TypeHead :=
    { name := tree.fieldText "name"
      sort := sort
      modifiers := modifiers tree
      supertypes := tree.named.flatMap supertypesIn
      keywords := [] }
  return nodeOf (.typeDeclaration head) tree (decorators ++ components ++ [body])

def block (calls : Calls) (tree : Tree) : Option Node := do
  return nodeOf .block tree (← tree.statements.mapM calls.statement)

def method (isConstructor : Bool) : Rule := fun calls tree => do
  let decorators ← decorators calls tree
  let list := tree.field? "parameters"
  let parameters ← match list with
    | some list => parameters calls list
    | none => pure []
  let anchor := match list with
    | some list => list.span.endPoint
    | none => tree.span.endPoint
  let returned := if isConstructor then none else tree.field? "type"
  let returnType ← slot calls.typeRef returned (Node.absentAt anchor)
  let body ← fieldSlot (block calls) tree "body" (absentAfter tree)
  let head : MethodHead :=
    { name := tree.fieldText "name"
      modifiers := modifiers tree
      isConstructor := isConstructor
      isAsync := false }
  return nodeOf (.methodDeclaration head) tree (decorators ++ parameters ++ [returnType, body])

def declarator : Option Node := do
  let value ← fieldSlot calls.expression tree "value" (absentAfter tree)
  return nodeOf (.variable (tree.fieldText "name") .regular) tree [absentBefore tree, value]

def variableDeclaration : Rule := fun calls tree => do
  let type ← fieldSlot calls.typeRef tree "type" (absentBefore tree)
  let declarators ← (tree.namedOf "variable_declarator").mapM (declarator calls)
  return nodeOf (.variableDeclaration (modifiers tree)) tree (type :: declarators)

def enumConstant : Rule := fun calls tree => do
  let arguments ← argumentsOf calls (tree.field? "arguments")
  return nodeOf (.enumConstant (tree.fieldText "name")) tree arguments

def declarationRules : RuleTable := [
  ("package_declaration", packageDeclaration),
  ("import_declaration", importing),
  ("class_declaration", typeDeclaration .classType),
  ("interface_declaration", typeDeclaration .interfaceType),
  ("enum_declaration", typeDeclaration .enumType),
  ("record_declaration", typeDeclaration .recordType),
  ("annotation_type_declaration", typeDeclaration .decoratorType),
  ("field_declaration", variableDeclaration),
  ("constant_declaration", variableDeclaration),
  ("method_declaration", method false),
  ("annotation_type_element_declaration", method false),
  ("constructor_declaration", method true),
  ("compact_constructor_declaration", method true),
  ("enum_constant", enumConstant),
  ("line_comment", fun _ tree => some (commentNode tree)),
  ("block_comment", fun _ tree => some (commentNode tree))]

end CodeEvolution.Lowering.Java
