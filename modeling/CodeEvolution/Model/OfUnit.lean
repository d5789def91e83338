import CodeEvolution.CompilationUnit
import CodeEvolution.Event
import CodeEvolution.Model.Basic
/-!
# The model of a file

Every type declaration of a file, at the top level or inside another, becomes a class. Functions
at the top level are gathered in a class that stands for the file and comes first. Visibility
follows from keywords in Java and from leading underscores in Python, where the attributes of a
class are also looked for in its initializer.
-/
namespace CodeEvolution

structure FileContext where
  path : String
  language : Language
  package : String
deriving Repr

variable (unit : CompilationUnit) (language : Language) (file : FileContext) (className : String)
  (classSpan : Span) (inInterface : Bool)

namespace FileContext

def packageOf : String :=
  match unit.language with
  | .java =>
    (unit.root.children.findSome? fun child =>
      match child.kind with
      | .other "package" text => some text
      | _ => none).getD ""
  | .python => Path.moduleName unit.path

def ofUnit : FileContext :=
  ⟨unit.path, unit.language, packageOf unit⟩

end FileContext

def Visibility.ofName (name : String) : Visibility :=
  match name.toList, name.toList.reverse with
  | '_' :: '_' :: _, '_' :: '_' :: _ => .publicAccess
  | '_' :: '_' :: _, _ => .privateAccess
  | '_' :: _, _ => .protectedAccess
  | _, _ => .publicAccess

namespace Operation

def placementOf (head : MethodHead) (method : Node) : Placement :=
  if head.modifiers.isStatic || method.isDecorated "staticmethod" then .static
  else if method.isDecorated "classmethod" then .classMethod
  else .inInstance

def receiverOf? (placement : Placement) (method : Node) : Option String :=
  match language with
  | .python =>
    if 0 < language.receiverOffset placement then
      method.parameters.head?.bind fun p =>
        match p.kind with
        | .variable name _ => some name
        | _ => none
    else none
  | .java => if placement = .static then none else some "this"

def parameterOf? (scope : Scope) (node : Node) : Option Parameter :=
  match node.kind with
  | .variable _ sort =>
    (Variable.ofParameter? scope node).map fun declaration => ⟨declaration, .ofSort sort⟩
  | _ => none

def resultOf (scope : Scope) (method : Node) : Parameter where
  declaration :=
    { name := "return"
      type := .ofSlot method.returnType?
      role := .parameter
      scope
      span := method.span }
  role := .result

def visibilityOf (head : MethodHead) : Visibility :=
  match language with
  | .java => head.modifiers.visibility.getD (if inInterface then .publicAccess else .packageAccess)
  | .python => .ofName head.name

def ofMethod (file : FileContext) (className : String) (classSpan : Span) (placement : Placement)
    (inInterface : Bool) (head : MethodHead) (method : Node) : Operation :=
  let declared := method.parameters.drop (file.language.receiverOffset placement)
  let scope := Scope.ofSpan file.path method.span
  let around := Body.surroundings file.language file.path classSpan
    (receiverOf? file.language placement method) method
  { name := head.name
    className
    visibility := visibilityOf file.language inInterface head
    traits :=
      { isStatic := placement = .static
        isAbstract := head.modifiers.isAbstract || method.isDecorated "abstractmethod" ||
          (inInterface && method.body?.isNone)
        isConstructor := head.isConstructor || file.language.initializerName? == some head.name
        isAsync := head.isAsync
        isFinal := head.modifiers.isFinal || method.isDecorated "final"
        isClassMethod := placement = .classMethod }
    parameters := declared.filterMap (parameterOf? scope) ++ [resultOf scope method]
    decorators := method.decoratorsOf
    comments := method.preorder.filterMap Comment.ofNode?
    span := method.span
    sourceFile := file.path
    body := Body.ofMethod around method declared }

def ofMember? (member : Node) : Option Operation :=
  match member.kind with
  | .methodDeclaration head =>
    some (ofMethod file className classSpan (placementOf head member) inInterface head member)
  | _ => none

def ofFunction? (function : Node) : Option Operation :=
  match function.kind with
  | .methodDeclaration head =>
    some (ofMethod file className classSpan .topLevel false head function)
  | _ => none

def skippedIn (method : Node) : List Event :=
  let around := Body.surroundings file.language file.path {} none method
  (Statement.unknownsOf (Body.statementsOf around method)).map fun unknown =>
    .nodeSkipped file.path unknown.1 unknown.2

end Operation

namespace Attribute

def isConstantName (name : String) : Bool :=
  name.toList.all fun c => Text.isUppercase c || c == '_' || Text.isAsciiDigit c

def ofAssignment (role : VariableRole) (isStatic : Bool) (name : String) (assignment : Node) :
    Attribute :=
  let type := TypeInfo.ofSlot (assignment.present? 1)
  { name
    type
    className
    visibility := match file.language with
      | .python => .ofName name
      | .java => .packageAccess
    isStatic
    isFinal := isConstantName name && file.language == .python && role != .enumConstant && isStatic
    declaration :=
      { name
        type
        role
        scope := .ofSpan file.path classSpan
        initializer := (assignment.present? 2).map Node.render
        span := assignment.span } }

def ofComponent? (component : Node) : Option Attribute :=
  match component.kind with
  | .variable name _ =>
    let type := TypeInfo.ofSlot (component.present? 0)
    some
      { name
        type
        className
        visibility := .privateAccess
        isStatic := false
        isFinal := true
        declaration :=
          { name
            type
            role := .memberAttribute
            scope := .ofSpan file.path classSpan
            span := component.span } }
  | _ => none

def ofFields (modifiers : Modifiers) (fields : Node) : List Attribute :=
  let type := TypeInfo.ofSlot (fields.child? 0)
  (fields.children.drop 1).filterMap fun declarator =>
    match declarator.kind with
    | .variable name _ =>
      some
        { name
          type
          className
          visibility :=
            modifiers.visibility.getD (if inInterface then .publicAccess else .packageAccess)
          isStatic := modifiers.isStatic || inInterface
          isFinal := modifiers.isFinal || inInterface
          declaration :=
            { name
              type
              role := .memberAttribute
              scope := .ofSpan file.path classSpan
              initializer := (declarator.present? 1).map Node.render
              span := declarator.span } }
    | _ => none

def ofConstant (typeName : String) (name : String) (constant : Node) : Attribute :=
  { name
    type := .named typeName []
    className
    visibility := .publicAccess
    isStatic := true
    isFinal := true
    declaration :=
      { name
        type := .named typeName []
        role := .enumConstant
        scope := .ofSpan file.path classSpan
        initializer :=
          if constant.children.isEmpty then none
          else some (String.intercalate ", " (constant.children.map Node.render))
        span := constant.span } }

/-- The attribute that an assignment in the body of a class introduces. A plain name is static
unless it is a field of a record or has no value; a name qualified by the receiver belongs to
the instance. -/
def ofClassAssignment? (traits : ClassTraits) (assignment : Node) : Option Attribute :=
  match assignment.present? 0 with
  | none => none
  | some target =>
    match target.kind with
    | .simpleName name =>
      let role := if traits.isEnum then .enumConstant else .memberAttribute
      let isStatic := !(traits.isRecord || (assignment.present? 2).isNone)
      some (ofAssignment file className classSpan role isStatic name assignment)
    | .fieldAccess name =>
      match (target.present? 0).bind Node.identifier? with
      | some receiver =>
        if file.language.receivers.contains receiver then
          some (ofAssignment file className classSpan .memberAttribute false name assignment)
        else none
      | none => none
    | _ => none

def addNew (attributes : List Attribute) (a : Attribute) : List Attribute :=
  if attributes.any fun b => b.name == a.name then attributes else attributes ++ [a]

def afterMember (traits : ClassTraits) (typeName : String) (attributes : List Attribute)
    (member : Node) : List Attribute :=
  match member.kind with
  | .variableDeclaration modifiers =>
    attributes ++ ofFields file className classSpan traits.isInterface modifiers member
  | .enumConstant name =>
    attributes ++ [ofConstant file className classSpan typeName name member]
  | .assignment _ =>
    match ofClassAssignment? file className classSpan traits member with
    | some a => addNew attributes a
    | none => attributes
  | _ => attributes

end Attribute

namespace Node

mutual

def assignments : Node → List Node
  | ⟨.assignment operator, span, children⟩ => [⟨.assignment operator, span, children⟩]
  | ⟨.methodDeclaration _, _, _⟩ => []
  | ⟨.typeDeclaration _, _, _⟩ => []
  | ⟨_, _, children⟩ => assignmentsIn children

def assignmentsIn : List Node → List Node
  | [] => []
  | node :: rest => assignments node ++ assignmentsIn rest

end

def directTargets (target : Node) : List Node :=
  match target.kind with
  | .collection _ => target.children
  | _ => [target]

end Node

namespace Attribute

/-- The attributes that one assignment of an initializer makes through the receiver. The value
is known only for a single target. -/
def ofInitializerAssignment (operation receiver : String) (assignment : Node) : List Attribute :=
  match assignment.child? 0 with
  | none => []
  | some target =>
    let targets := target.directTargets
    targets.filterMap fun target =>
      match target.kind with
      | .fieldAccess name =>
        if (target.present? 0).bind Node.identifier? = some receiver then
          let a := ofAssignment file className classSpan .memberAttribute false name assignment
          let initializer := if targets.length = 1 then a.declaration.initializer else none
          some
            { a with
              declaration := { a.declaration with initializer }
              declaringOperation := some operation }
        else none
      | _ => none

def ofInitializer (initializer : Node) : List Attribute :=
  match initializer.kind, initializer.parameters.head?, initializer.body? with
  | .methodDeclaration head, some ⟨.variable receiver _, _, _⟩, some block =>
    (Node.assignmentsIn block.children).flatMap
      (ofInitializerAssignment file className classSpan head.name receiver)
  | _, _, _ => []

end Attribute

namespace ModelClass

def enumBases : List String :=
  ["Enum", "IntEnum", "StrEnum", "Flag", "IntFlag"]

def membersOf (node : Node) : List Node :=
  match node.body? with
  | some block => block.children
  | none => []

def traitsOf (head : TypeHead) (node : Node) : ClassTraits :=
  match language with
  | .java =>
    { isAbstract := head.modifiers.isAbstract || head.sort == .interfaceType
      isInterface := head.sort == .interfaceType
      isFinal := head.modifiers.isFinal
      isStatic := head.modifiers.isStatic
      isDecoratorType := head.sort == .decoratorType
      isEnum := head.sort == .enumType
      isRecord := head.sort == .recordType }
  | .python =>
    let bases := head.supertypes.map Text.simpleName
    { isAbstract := bases.contains "ABC" ||
        (head.keywords.any fun k => k.1 == "metaclass" && Text.simpleName k.2 == "ABCMeta") ||
        (membersOf node).any fun member => member.isDecorated "abstractmethod"
      isInterface := bases.contains "Protocol"
      isFinal := node.isDecorated "final"
      isEnum := bases.any enumBases.contains
      isRecord := node.isDecorated "dataclass" }

def isInitializer (member : Node) : Bool :=
  match member.kind with
  | .methodDeclaration head => language.initializerName? == some head.name
  | _ => false

def ofDeclaration (name : String) (head : TypeHead) (node : Node) : ModelClass :=
  let traits := traitsOf file.language head node
  let qualifiedName := Text.qualified file.package name
  let members := membersOf node
  let components := node.parameters.filterMap
    (Attribute.ofComponent? file qualifiedName node.span)
  let declared := members.foldl
    (Attribute.afterMember file qualifiedName node.span traits head.name) components
  let initialized := (members.filter (isInitializer file.language)).flatMap
    (Attribute.ofInitializer file qualifiedName node.span)
  { name
    package := file.package
    sourceFile := file.path
    language := file.language
    visibility := match file.language with
      | .java => head.modifiers.visibility.getD .packageAccess
      | .python => .ofName head.name
    traits
    supertypes := head.supertypes
    attributes := initialized.foldl Attribute.addNew declared
    operations := members.filterMap
      (Operation.ofMember? file qualifiedName node.span traits.isInterface)
    decorators := node.decoratorsOf
    comments := members.filterMap Comment.ofNode?
    span := node.span }

def ofFunctions (root : Node) : ModelClass :=
  let split := Text.splitLastPoint file.package
  let package := split.1.getD ""
  let qualifiedName := Text.qualified package split.2
  let assigned := root.children.filterMap fun child =>
    match child.kind with
    | .assignment _ =>
      ((child.present? 0).bind Node.identifier?).map fun name =>
        Attribute.ofAssignment file qualifiedName root.span .memberAttribute true name child
    | _ => none
  { name := split.2
    package
    sourceFile := file.path
    language := file.language
    visibility := .publicAccess
    traits := { isModule := true }
    supertypes := []
    attributes := assigned.foldl Attribute.addNew []
    operations := root.children.filterMap (Operation.ofFunction? file qualifiedName root.span)
    decorators := []
    comments := root.children.filterMap Comment.ofNode?
    span := root.span }

end ModelClass

structure NamedDeclaration where
  name : String
  head : TypeHead
  node : Node

namespace Node

mutual

def declaredTypes (outer : Option String) : Node → List NamedDeclaration
  | ⟨.typeDeclaration head, span, children⟩ =>
    let name := match outer with
      | some outer => outer ++ "." ++ head.name
      | none => head.name
    ⟨name, head, ⟨.typeDeclaration head, span, children⟩⟩ :: typesInBody (some name) children
  | _ => []

def typesInBody (outer : Option String) : List Node → List NamedDeclaration
  | [] => []
  | [⟨.block, _, members⟩] => typesAmong outer members
  | [_] => []
  | _ :: next :: rest => typesInBody outer (next :: rest)

def typesAmong (outer : Option String) : List Node → List NamedDeclaration
  | [] => []
  | member :: rest => declaredTypes outer member ++ typesAmong outer rest

end

mutual

def skippedInMember (file : FileContext) : Node → List Event
  | ⟨.typeDeclaration _, _, children⟩ => skippedInBody file children
  | ⟨.methodDeclaration head, span, children⟩ =>
    Operation.skippedIn file ⟨.methodDeclaration head, span, children⟩
  | _ => []

def skippedInBody (file : FileContext) : List Node → List Event
  | [] => []
  | [⟨.block, _, members⟩] => skippedAmong file members
  | [_] => []
  | _ :: next :: rest => skippedInBody file (next :: rest)

def skippedAmong (file : FileContext) : List Node → List Event
  | [] => []
  | member :: rest => skippedInMember file member ++ skippedAmong file rest

end

end Node

namespace Import

def ofNode (path : String) (node : Node) : List Import :=
  match node.kind with
  | .importing head =>
    if head.names.isEmpty then [⟨head.source, none, none, path⟩]
    else head.names.map fun name => ⟨head.source, some name.name, name.alias?, path⟩
  | _ => []

end Import

namespace Model

def isFunction (node : Node) : Bool :=
  match node.kind with
  | .methodDeclaration _ => true
  | _ => false

def ofUnit (unit : CompilationUnit) : Model :=
  let file := FileContext.ofUnit unit
  let children := unit.root.children
  let classes := (Node.typesAmong none children).map fun d =>
    ModelClass.ofDeclaration file d.name d.head d.node
  { classes :=
      if children.any isFunction then ModelClass.ofFunctions file unit.root :: classes
      else classes
    imports := children.flatMap (Import.ofNode unit.path) }

def eventsOfUnit : List Event :=
  let file := FileContext.ofUnit unit
  let children := unit.root.children
  Node.skippedAmong file (children.filter fun child => !isFunction child) ++
    (children.filter isFunction).flatMap (Operation.skippedIn file)

end Model

end CodeEvolution
