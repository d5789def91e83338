import CodeEvolution.Node.Basic
import CodeEvolution.Text.Alphabet
import CodeEvolution.Text.Blank
/-!
# Canonical text of nodes

The text of a node depends on its kind and on the texts of its children, never on spans, so two
nodes that differ only in formatting have the same text. Expressions and simple statements are
written out in full, a composite statement by its header alone.
-/
namespace CodeEvolution.Node

variable (kind : NodeKind) (children : List Node) (texts : List String)

def joinPresent (separator : String) (children : List Node) (texts : List String) : String :=
  String.intercalate separator
    (((children.zip texts).filter fun child => !child.1.isAbsent).map Prod.snd)

def presentText? (index : Nat) : Option String :=
  match children[index]?, texts[index]? with
  | some child, some text => if child.isAbsent then none else some text
  | _, _ => none

def presentText (children : List Node) (texts : List String) (index : Nat) : String :=
  (presentText? children texts index).getD ""

def parameterMark : ParameterSort → String
  | .regular => ""
  | .varArgs => "*"
  | .kwArgs => "**"

def applied (name : String) (opening closing : String) (children : List Node)
    (texts : List String) : String :=
  if children.isEmpty then name
  else name ++ opening ++ joinPresent ", " children texts ++ closing

def importText (head : ImportHead) : String :=
  let names := String.intercalate ", " (head.names.map fun n =>
    match n.alias? with
    | some shown => n.name ++ " as " ++ shown
    | none => n.name)
  let names := if head.isWildcard then "*" else names
  let keyword := if head.isStatic then "import static" else "import"
  if head.source == "" then keyword ++ " " ++ names
  else "from " ++ head.source ++ " " ++ keyword ++ " " ++ names

def expressionText : String :=
  let at0 := presentText children texts 0
  let at1 := presentText children texts 1
  let at2 := presentText children texts 2
  let slot := presentText? children texts
  match kind with
  | .simpleName identifier => identifier
  | .literal _ text => text
  | .invocation name =>
    let arguments := joinPresent ", " (children.drop 1) (texts.drop 1)
    match slot 0 with
    | some receiver => receiver ++ "." ++ name ++ "(" ++ arguments ++ ")"
    | none => name ++ "(" ++ arguments ++ ")"
  | .creation typeName => "new " ++ typeName ++ "(" ++ joinPresent ", " children texts ++ ")"
  | .fieldAccess name =>
    match slot 0 with
    | some receiver => receiver ++ "." ++ name
    | none => name
  | .keywordArgument name => name ++ "=" ++ at0
  | .binary operator => at0 ++ " " ++ operator ++ " " ++ at1
  | .unary operator leading =>
    if leading then
      if operator.toList.any Text.isAlphabetic then operator ++ " " ++ at0 else operator ++ at0
    else at0 ++ operator
  | .ternary => at0 ++ " ? " ++ at1 ++ " : " ++ at2
  | .subscript => at0 ++ "[" ++ at1 ++ "]"
  | .collection sort =>
    let items := joinPresent ", " children texts
    match sort with
    | .list => "[" ++ items ++ "]"
    | .tuple => "(" ++ items ++ ")"
    | _ => "\x7b" ++ items ++ "\x7d"
  | .pair => at0 ++ ": " ++ at1
  | .parenthesized => "(" ++ at0 ++ ")"
  | .expressionList => joinPresent ", " children texts
  | .lambda =>
    "(" ++ String.intercalate ", " texts.dropLast ++ ") -> " ++ texts.getLastD ""
  | .typeRef name => applied name "[" "]" children texts
  | .assignment operator =>
    let typed := match slot 1 with
      | some type => ": " ++ type
      | none => ""
    if at2 == "" then at0 ++ typed else at0 ++ typed ++ " " ++ operator ++ " " ++ at2
  | .yield delegate =>
    let keyword := if delegate then "yield from" else "yield"
    match slot 0 with
    | some value => keyword ++ " " ++ value
    | none => keyword
  | .decorator name => applied ("@" ++ name) "(" ")" children texts
  | .variable name sort =>
    let typed := match slot 0 with
      | some type => ": " ++ type
      | none => ""
    let initialized := match slot 1 with
      | some value => " = " ++ value
      | none => ""
    parameterMark sort ++ name ++ typed ++ initialized
  | .expressionStatement => at0
  | .other _ text => text
  | .comment text => text
  | _ => ""

def statementText : String :=
  let at0 := presentText children texts 0
  let at1 := presentText children texts 1
  let at2 := presentText children texts 2
  let slot := presentText? children texts
  match kind with
  | .compilationUnit => "module"
  | .block => "\x7b"
  | .conditional => "if " ++ at0
  | .whileLoop testLast => (if testLast then "do while " else "while ") ++ at0
  | .forLoop .each => "for " ++ at0 ++ " in " ++ at1
  | .forLoop .classic => "for(" ++ at0 ++ "; " ++ at1 ++ "; " ++ at2 ++ ")"
  | .switch => "switch " ++ at0
  | .caseClause isDefault =>
    if isDefault then "default"
    else
      let guard := match slot 1 with
        | some test => " if " ++ test
        | none => ""
      "case " ++ at0 ++ guard
  | .tryStatement => if at0 == "" then "try" else "try(" ++ at0 ++ ")"
  | .catchClause =>
    match slot 1 with
    | some name => Text.trim ("catch " ++ at0 ++ " as " ++ name)
    | none => Text.trimEnd ("catch " ++ at0)
  | .finallyClause => "finally"
  | .elseClause => "else"
  | .breakStatement => "break"
  | .continueStatement => "continue"
  | .pass => "pass"
  | .returnStatement =>
    match slot 0 with
    | some value => "return " ++ value
    | none => "return"
  | .throwStatement =>
    let thrown := match slot 0 with
      | some exception => " " ++ exception
      | none => ""
    let caused := match slot 1 with
      | some cause => " from " ++ cause
      | none => ""
    "throw" ++ thrown ++ caused
  | .assertStatement =>
    match slot 1 with
    | some message => "assert " ++ at0 ++ ", " ++ message
    | none => "assert " ++ at0
  | .globalNames names => "global " ++ String.intercalate ", " names
  | .nonlocalNames names => "nonlocal " ++ String.intercalate ", " names
  | .deletion => "del " ++ joinPresent ", " children texts
  | .withStatement =>
    "with " ++ String.intercalate ", " (((children.zip texts).filter fun child =>
      match child.1.kind with
      | .withItem => true
      | _ => false).map Prod.snd)
  | .withItem =>
    match slot 1 with
    | some shown => at0 ++ " as " ++ shown
    | none => at0
  | .asyncStatement =>
    match texts with
    | inner :: _ => "async " ++ inner
    | [] => "async"
  | .synchronized => "synchronized(" ++ at0 ++ ")"
  | .importing head => importText head
  | .methodDeclaration head =>
    "def " ++ head.name ++ "(" ++ String.intercalate ", "
      (((children.zip texts).filter fun child => child.1.isVariable).map Prod.snd) ++ ")"
  | .typeDeclaration head => "class " ++ head.name
  | .enumConstant name => applied name "(" ")" children texts
  | _ => expressionText kind children texts

mutual

def render : Node → String
  | ⟨.variableDeclaration _, _, []⟩ => " "
  | ⟨.variableDeclaration _, _, type :: declarators⟩ =>
    (if type.isAbsent then "" else render type) ++ " " ++
      String.intercalate ", " (declaratorTexts declarators)
  | ⟨kind, _, children⟩ => statementText kind children (renderAll children)

def renderAll : List Node → List String
  | [] => []
  | node :: rest => render node :: renderAll rest

/-- The declarators of a variable declaration: a name, and its initializer if it has one.
Children that declare no variable are passed over. -/
def declaratorTexts : List Node → List String
  | [] => []
  | ⟨.variable name _, _, children⟩ :: rest =>
    (match presentText? children (renderAll children) 1 with
      | some value => name ++ " = " ++ value
      | none => name) :: declaratorTexts rest
  | _ :: rest => declaratorTexts rest

end

end CodeEvolution.Node
