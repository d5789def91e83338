import CodeEvolution.Proofs.Lowering.JavaStatement
import CodeEvolution.Proofs.Syntax.Order
/-!
# The order of the grammars

What a grammar says about the order of the parts of a node, as far as the lowering depends on it:
which parts are written one after the other, and which fields are never missing. Only the head of a
`for` loop needs more, since its parts are told apart by the separators between them.
-/
namespace CodeEvolution.Lowering

open Syntax (Tree)
open Lowering.Path (field named namedOf besides)

variable {name kind : String} {path : Path} {paths : List Path}

/-- The parts of the nodes of Python in the order in which they are written. -/
def Python.partOrder : List (String × List Path) := [
  ("call", [field "function", field "arguments"]),
  ("binary_operator", [field "left", field "right"]),
  ("boolean_operator", [field "left", field "right"]),
  ("subscript", [field "value", besides "value"]),
  ("pair", [field "key", field "value"]),
  ("lambda", [field "parameters", field "body"]),
  ("assignment", [field "left", field "type", field "right"]),
  ("augmented_assignment", [field "left", field "type", field "right"]),
  ("default_parameter", [field "name", field "type", field "value"]),
  ("typed_default_parameter", [field "name", field "type", field "value"]),
  ("if_statement", [field "condition", field "consequence",
    named.having fun kind => kind == "elif_clause" || kind == "else_clause"]),
  ("elif_clause", [field "condition", field "consequence"]),
  ("while_statement", [field "condition", field "body", field "alternative"]),
  ("for_statement", [field "left", field "right", field "body", field "alternative"]),
  ("as_pattern", [named.first, field "alias"]),
  ("except_clause", [named.having (· != "block"), namedOf "block"]),
  ("except_group_clause", [named.having (· != "block"), namedOf "block"]),
  ("try_statement", [field "body",
    named.having fun kind => kind == "except_clause" || kind == "except_group_clause",
    namedOf "else_clause", namedOf "finally_clause"]),
  ("with_statement", [namedOf "with_clause", field "body"]),
  ("raise_statement", [besides "cause", field "cause"]),
  ("match_statement", [field "subject", field "body"]),
  ("case_clause", [namedOf "case_pattern", field "guard", field "consequence"]),
  ("function_definition", [field "parameters", field "return_type", field "body"]),
  ("decorated_definition", [namedOf "decorator", field "definition"])]

def Java.typeParts : List Path := [modifierTrees, field "parameters", field "body"]

def Java.methodParts : List Path := [modifierTrees, field "type", field "parameters", field "body"]

def Java.variableParts : List Path := [field "type", namedOf "variable_declarator"]

/-- The labels of a group of a `switch` are written before everything but comments. -/
def Java.groupOrder : List Path :=
  [labels, groupParts.having fun kind => kind != "line_comment" && kind != "block_comment"]

def Java.tryParts : List Path :=
  [field "resources", field "body", namedOf "catch_clause", namedOf "finally_clause"]

def Java.partOrder : List (String × List Path) := [
  ("method_invocation", [field "object", field "name", field "arguments"]),
  ("assignment_expression", [field "left", field "right"]),
  ("binary_expression", [field "left", field "right"]),
  ("instanceof_expression", [field "left", field "right"]),
  ("ternary_expression", [field "condition", field "consequence", field "alternative"]),
  ("array_access", [field "array", field "index"]),
  ("lambda_expression", [field "parameters", field "body"]),
  ("class_declaration", typeParts),
  ("interface_declaration", typeParts),
  ("enum_declaration", typeParts),
  ("record_declaration", typeParts),
  ("annotation_type_declaration", typeParts),
  ("field_declaration", variableParts),
  ("constant_declaration", variableParts),
  ("local_variable_declaration", variableParts),
  ("method_declaration", methodParts),
  ("annotation_type_element_declaration", methodParts),
  ("constructor_declaration", methodParts),
  ("compact_constructor_declaration", methodParts),
  ("explicit_constructor_invocation", [field "object", field "arguments"]),
  ("if_statement", [field "condition", field "consequence", field "alternative"]),
  ("while_statement", [field "condition", field "body"]),
  ("do_statement", [field "body", field "condition"]),
  ("enhanced_for_statement", [field "type", field "name", field "value", field "body"]),
  ("switch_block_statement_group", groupOrder),
  ("switch_rule", groupOrder),
  ("switch_expression", [field "condition", field "body"]),
  ("switch_statement", [field "condition", field "body"]),
  ("catch_clause", [(namedOf "catch_formal_parameter").first, field "body"]),
  ("try_statement", tryParts),
  ("try_with_resources_statement", tryParts),
  ("synchronized_statement", [(namedOf "parenthesized_expression").first, field "body"])]

def partOrder : Language → List (String × List Path)
  | .python => Python.partOrder
  | .java => Java.partOrder

/-- Wherever a node of Java has a type and a value, the type is written first. -/
def commonOrder : Language → List Path
  | .python => []
  | .java => [field "type", field "value"]

def requiredFields : Language → List (String × List String)
  | .python => [
    ("if_statement", ["consequence"]), ("while_statement", ["body"]), ("for_statement", ["body"]),
    ("try_statement", ["body"])]
  | .java => [
    ("ternary_expression", ["condition", "consequence"]), ("if_statement", ["consequence"]),
    ("do_statement", ["condition"]), ("try_statement", ["body"]),
    ("try_with_resources_statement", ["body"])]

/-! ## Heads of loops -/

namespace Java

def isHeadPart (tree : Tree) : Bool :=
  tree.isNamed && !(tree.kind == "line_comment" || tree.kind == "block_comment")

/-- A declaration includes its own separator. -/
def isDeclared (tree : Tree) : Bool :=
  tree.isNamed && tree.kind == "local_variable_declaration"

/-- What the first tree that passes a test and the trees behind it have to be. -/
def upTo (test : Tree → Bool) (next : Tree → List Tree → Bool) : List Tree → Bool
  | [] => false
  | tree :: rest => if test tree then next tree rest else upTo test next rest

/-- Whether the children of a `for` loop are separated as in `(init; condition; update)`. The body
may be a lone `;`. -/
def hasLoopHead (children : List Tree) : Bool :=
  upTo (fun tree => isSeparator tree || isDeclared tree) (fun first rest =>
    first.kind != ")" && upTo isSeparator (fun second rest =>
      second.kind == ";" && upTo isSeparator (fun third rest =>
        third.kind == ")" &&
          (rest.all (fun tree => !isSeparator tree) || rest.all fun tree => !isHeadPart tree))
        rest) rest) children

end Java

/-! ## Trees of a grammar -/

/-- Whether the parts of a node are what the grammar has, in the order in which it has them. -/
def follows (language : Language) (tree : Tree) : Bool :=
  (((requiredFields language).lookup tree.kind).getD []).all
      (fun name => (tree.field? name).isSome) &&
    Tree.inOrder tree.span.startOffset tree.span.endOffset
      ((((partOrder language).lookup tree.kind).getD []).flatMap (·.select tree)) &&
    Tree.inOrder tree.span.startOffset tree.span.endOffset
      ((commonOrder language).flatMap (·.select tree)) &&
    (language == .python || tree.kind != "for_statement" || Java.hasLoopHead tree.children)

/-- Whether all nodes of a tree lie inside their parents and in order, and have their parts in the
order of the grammar. -/
def isGrammatical (language : Language) (tree : Tree) : Bool :=
  tree.isNested && tree.preorder.all (follows language)

variable {language : Language} {t x : Tree} {start stop : Nat}

theorem isNested_of_isGrammatical (h : isGrammatical language t = true) : t.isNested = true :=
  (Bool.and_eq_true_iff.1 h).1

theorem follows_of_isGrammatical (h : isGrammatical language t = true) :
    follows language t = true :=
  List.all_eq_true.1 (Bool.and_eq_true_iff.1 h).2 t (by simp [Tree.preorder_eq])

theorem isGrammatical_of_isBelow (hx : x.IsBelow t) (h : isGrammatical language t = true) :
    isGrammatical language x = true := by
  have hall := List.all_eq_true.1 (Bool.and_eq_true_iff.1 h).2
  refine Bool.and_eq_true_iff.2 ⟨(hx.isNested_and_within (isNested_of_isGrammatical h)).1, ?_⟩
  refine List.all_eq_true.2 fun y hy => hall y ?_
  exact hx.preorder_subset hy

def Parts (start stop : Nat) (t : Tree) (paths : List Path) : Prop :=
  Tree.inOrder start stop (paths.flatMap (·.select t)) = true

abbrev AllParts (t : Tree) (paths : List Path) : Prop :=
  Parts t.span.startOffset t.span.endOffset t paths

theorem Parts.cut (h : Parts start stop t (path :: paths)) :
    ∃ cut, Tree.inOrder start cut (path.select t) = true ∧ Parts cut stop t paths := by
  rw [Parts, List.flatMap_cons] at h
  exact Tree.inOrder_append.1 h

theorem Parts.last (h : Parts start stop t [path]) :
    Tree.inOrder start stop (path.select t) = true := by
  rwa [Parts, List.flatMap_singleton] at h

theorem select_field (h : t.field? name = some x) : (field name).select t = [x] := by
  simp [field, h]

theorem bounds_of_field (horder : Tree.inOrder start stop ((field name).select t) = true)
    (h : t.field? name = some x) :
    start ≤ x.span.startOffset ∧ x.span.startOffset ≤ x.span.endOffset ∧
      x.span.endOffset ≤ stop := by
  rwa [select_field h, Tree.inOrder_singleton] at horder

theorem parts_of_isGrammatical (h : isGrammatical language t = true) (hkind : t.kind = kind)
    (hpaths : (partOrder language).lookup kind = some paths) : AllParts t paths := by
  have hfollows := follows_of_isGrammatical h
  simp only [follows, Bool.and_eq_true] at hfollows
  rw [hkind, hpaths] at hfollows
  exact hfollows.1.1.2

theorem commonParts_of_isGrammatical (h : isGrammatical language t = true) :
    AllParts t (commonOrder language) := by
  have hfollows := follows_of_isGrammatical h
  simp only [follows, Bool.and_eq_true] at hfollows
  exact hfollows.1.2

theorem exists_field_of_isGrammatical {names : List String} (h : isGrammatical language t = true)
    (hkind : t.kind = kind) (hnames : (requiredFields language).lookup kind = some names)
    (hname : name ∈ names) : ∃ x, t.field? name = some x := by
  have hfollows := follows_of_isGrammatical h
  simp only [follows, Bool.and_eq_true] at hfollows
  rw [hkind, hnames] at hfollows
  exact Option.isSome_iff_exists.1 (List.all_eq_true.1 hfollows.1.1.1 name hname)

namespace Java

theorem hasLoopHead_of_isGrammatical (h : isGrammatical .java t = true)
    (hkind : t.kind = "for_statement") : hasLoopHead t.children = true := by
  have hfollows := follows_of_isGrammatical h
  simp only [follows, Bool.and_eq_true, hkind] at hfollows
  simpa using hfollows.2

theorem exists_of_upTo {test : Tree → Bool} {next : Tree → List Tree → Bool} {xs : List Tree}
    (h : upTo test next xs = true) : ∃ before y rest, xs = before ++ y :: rest ∧
      (∀ x ∈ before, test x = false) ∧ test y = true ∧ next y rest = true := by
  induction xs with
  | nil => cases h
  | cons x xs ih =>
    rw [upTo] at h
    split at h
    · rename_i htest
      exact ⟨[], x, xs, rfl, by simp, htest, h⟩
    · rename_i htest
      obtain ⟨before, y, rest, rfl, hbefore, hy⟩ := ih h
      exact ⟨x :: before, y, rest, rfl, by simpa [htest] using hbefore, hy⟩

end Java

end CodeEvolution.Lowering
