import CodeEvolution.Lowering.Java.Expression
import CodeEvolution.Proofs.Lowering.Comments.Taken
/-!
# What the rules for Java expressions read

The reading of every rule for expressions, parameters and types, and the proof that the rule
agrees with it. Texts are taken over for names, literals and operators, for types other than
arrays, for the body of a lambda that is a block, and for every construct without a rule, casts
among them. Comments are named children, so every child of an argument list may be a comment; a
parameter list passes over its comments.
-/
namespace CodeEvolution.Lowering.Java

open Syntax (Tree Deletion)
open Lowering.Path
open Lowering.Reading (within onKind offKind clean_cons)
open Lowering.Agreement (meets_cons meets_append uses_here fieldText_eq option_map_text_eq)

variable {x y : Option Tree}

def commentKinds : List String := ["line_comment", "block_comment"]

theorem kind_of_isCommentOf {t : Tree} (h : t.isCommentOf commentKinds = true) :
    t.kind = "line_comment" ∨ t.kind = "block_comment" := by
  simpa [commentKinds] using Tree.kind_mem_of_isCommentOf h

abbrev Agrees := Lowering.Agrees commentKinds

variable {k : Agreement commentKinds} {s t : Tree}

instance : (namedOf "type_arguments").Skips commentKinds := skips_namedOf rfl

instance : (namedOf "variable_declarator").Skips commentKinds := skips_namedOf rfl

/-! ## Types, parameters and arguments -/

def typeReading : Reading :=
  onKind ["generic_type"] [((named.having (· != "type_arguments")).first, .collapsed),
    (namedOf "type_arguments" / named, .typeRef)] ++
  onKind ["array_type"] [(field "element", .typeRef)] ++
  offKind ["generic_type", "array_type"] [(here, .collapsed)]

theorem agrees_typeRef : Agrees typeRef typeReading := by
  intro k s t h
  simp only [typeReading, meets_append] at h
  obtain ⟨⟨hgeneric, harray⟩, hother⟩ := h
  unfold typeRef
  simp only [← hgeneric.kind_eq]
  split
  case h_1 hkind =>
    have h := hgeneric.of_onKind (by simp [hkind])
    simp only [meets_cons, select_first_having] at h
    refine k.bind (k.types h.2.1) fun _ _ harguments => ?_
    have hbase : (s.named.find? fun part => part.kind != "type_arguments").map Tree.collapsed =
        (t.named.find? fun part => part.kind != "type_arguments").map Tree.collapsed :=
      option_map_text_eq h.1
    rw [hbase]
    exact k.answers harguments
  case h_2 hkind =>
    have h := harray.of_onKind (by simp [hkind])
    simp only [meets_cons] at h
    refine k.bind (k.typeSlot h.1) fun _ _ helement => ?_
    rw [k.render_eq helement]
    exact k.answers .nil
  case h_3 hnot hnot' =>
    have hcollapsed : s.collapsed = t.collapsed := hother.here_of_offKind (by simp; tauto)
    rw [hcollapsed]
    exact k.answers .nil

def parameterReading : Reading :=
  onKind ["formal_parameter"] [(field "type", .typeRef), (field "name", .text)] ++
  onKind ["spread_parameter"] (
    ((named.having fun kind => kind != "modifiers" && kind != "variable_declarator").first,
      .typeRef) :: within (namedOf "variable_declarator").first [(field "name", .text)]) ++
  onKind ["identifier"] [(here, .text)]

def parametersReading : Reading :=
  parameterReading.within named

theorem rel_parameterNode {name : String} {sort : ParameterSort} {m n : Node}
    (h : k.Nodes m n) : k.Nodes (parameterNode s name sort m) (parameterNode t name sort n) :=
  k.node (.cons h (.cons k.leaf .nil))

theorem rel_parameter (h : k.Meets parameterReading s t) :
    k.Answers (List.Forall₂ k.Nodes) (parameter k.calls s) (parameter k.calls' t) := by
  simp only [parameterReading, meets_append] at h
  obtain ⟨⟨hformal, hspread⟩, hidentifier⟩ := h
  unfold parameter
  simp only [← hformal.kind_eq]
  split
  case h_1 hkind =>
    have h := hformal.of_onKind (by simp [hkind])
    simp only [meets_cons] at h
    refine k.bind (k.typeSlot h.1) fun _ _ htype => ?_
    rw [fieldText_eq h.2.1]
    exact k.answer (.cons (rel_parameterNode htype) .nil)
  case h_2 hkind =>
    have h := hspread.of_onKind (by simp [hkind])
    simp only [meets_cons, select_first_having] at h
    refine k.bind (k.typeSlot h.1) fun _ _ htype => ?_
    have hdeclarator : Option.Rel (k.Meets [(field "name", .text)])
        (s.namedOf "variable_declarator").head? (t.namedOf "variable_declarator").head? :=
      rel_toList_iff.1 h.2.of_within
    generalize (s.namedOf "variable_declarator").head? = x at hdeclarator
    generalize (t.namedOf "variable_declarator").head? = y at hdeclarator
    cases hdeclarator with
    | none => exact k.answer (.cons (rel_parameterNode htype) .nil)
    | some hcd =>
      simp only [fieldText_eq (meets_cons.1 hcd).1]
      exact k.answer (.cons (rel_parameterNode htype) .nil)
  case h_3 hkind =>
    have htext : s.text = t.text := hidentifier.here_of_onKind (by simp [hkind])
    rw [htext]
    exact k.answer (.cons (rel_parameterNode k.leaf) .nil)
  case h_4 => exact k.answer .nil

theorem parameter_of_comment (calls : Calls) (h : t.isCommentOf commentKinds = true) :
    parameter calls t = some [] := by
  rcases kind_of_isCommentOf h with hkind | hkind <;> simp [parameter, hkind]

/-- A parameter list passes over comments. -/
theorem rel_parameters (h : k.Meets parametersReading s t) :
    k.Answers (List.Forall₂ k.Nodes) (parameters k.calls s) (parameters k.calls' t) :=
  k.flatten h (fun _ _ hcd => rel_parameter hcd) fun _ hx => parameter_of_comment _ hx

def argumentsReading : Reading :=
  [(named, .expression)]

theorem rel_argumentsOf (h : List.Forall₂ (k.Meets argumentsReading) x.toList y.toList) :
    k.Answers (List.Forall₂ k.Nodes) (argumentsOf k.calls x) (argumentsOf k.calls' y) := by
  cases rel_toList_iff.1 h with
  | none => exact k.answer .nil
  | some hst => exact k.expressions (meets_cons.1 hst).1

/-! ## Expressions -/

theorem agrees_fieldAccess :
    Agrees fieldAccess [(field "object", .expression), (field "field", .text)] := by
  intro k s t h
  simp only [meets_cons] at h
  refine k.bind (k.expressionSlot h.1) fun _ _ hreceiver => ?_
  rw [fieldText_eq h.2.1]
  exact k.unary hreceiver

def invocationReading : Reading :=
  (field "object", .expression) :: (field "name", .text) ::
  within (field "arguments") argumentsReading

theorem agrees_invocation : Agrees invocation invocationReading := by
  intro k s t h
  simp only [invocationReading, meets_cons] at h
  obtain ⟨hreceiver, hname, harguments⟩ := h
  refine k.bind (k.expressionSlot hreceiver) fun _ _ hreceiver => ?_
  refine k.bind (rel_argumentsOf harguments.of_within) fun _ _ harguments => ?_
  rw [fieldText_eq hname]
  exact k.answers (.cons hreceiver harguments)

def creationReading : Reading :=
  (field "type", .collapsed) :: within (field "arguments") argumentsReading

theorem agrees_creation : Agrees creation creationReading := by
  intro k s t h
  obtain ⟨htype, harguments⟩ := meets_cons.1 h
  refine k.bind (rel_argumentsOf harguments.of_within) fun _ _ harguments => ?_
  have htype : (s.field? "type").map Tree.collapsed = (t.field? "type").map Tree.collapsed :=
    option_map_text_eq htype
  rw [htype]
  exact k.answers harguments

theorem rel_assignmentAt {a b : Span} (h : k.Meets binaryReading s t) :
    k.Answers k.Nodes (assignmentAt a k.calls s) (assignmentAt b k.calls' t) := by
  simp only [binaryReading, meets_cons] at h
  obtain ⟨htarget, hvalue, hoperator, -⟩ := h
  refine k.bind (k.expressionSlot htarget) fun _ _ htarget => ?_
  refine k.bind (k.expressionSlot hvalue) fun _ _ hvalue => ?_
  have hoperator : (s.field? "operator").map Tree.text = (t.field? "operator").map Tree.text :=
    option_map_text_eq hoperator
  rw [hoperator]
  exact k.ternary htarget k.leaf hvalue

theorem agrees_assignment : Agrees assignment binaryReading :=
  fun _ _ _ h => rel_assignmentAt h

theorem agrees_typeTest :
    Agrees typeTest [(field "left", .expression), (field "right", .typeRef)] := by
  intro k s t h
  simp only [meets_cons] at h
  refine k.bind (k.expressionSlot h.1) fun _ _ hleft => ?_
  refine k.bind (k.typeSlot h.2.1) fun _ _ hright => ?_
  exact k.binary hleft hright

theorem agrees_unary :
    Agrees unary [(field "operand", .expression), (field "operator", .text)] := by
  intro k s t h
  simp only [meets_cons] at h
  refine k.bind (k.expressionSlot h.1) fun _ _ hoperand => ?_
  rw [fieldText_eq h.2.1]
  exact k.unary hoperand

def leadsWithToken (tree : Tree) : Bool :=
  match tree.children.head? with
  | some first => !first.isNamed
  | none => false

theorem leadsWithToken_eq (hst : s.Reformats t) : leadsWithToken s = leadsWithToken t := by
  have hhead := rel_head? hst.children
  rw [leadsWithToken, leadsWithToken]
  generalize s.children.head? = x at hhead
  generalize t.children.head? = y at hhead
  cases hhead with
  | none => rfl
  | some hcd => simp only [hcd.isNamed_eq]

/-- A comment in front of the operator would be the first named child. -/
theorem without_leadsWithToken {d : Deletion commentKinds}
    (h : ∀ x ∈ t.named.head?, d.keeps x = true) :
    leadsWithToken (t.without d) = leadsWithToken t := by
  have hhead : ∀ x ∈ t.children.head?, d.keeps x = true := by
    intro x hx
    rcases d.keeps_or_drops x with hkeeps | hdrops
    · exact hkeeps
    · refine h x ?_
      have hnamed : (x.isNamed && x.kind != "comment") = true := by
        rcases kind_of_isCommentOf (d.isComment hdrops) with hkind | hkind <;>
          simp [d.isNamed_of_drops hdrops, hkind]
      obtain ⟨rest, hrest⟩ : ∃ rest, t.children = x :: rest := List.head?_eq_some_iff.1 hx
      rw [Tree.named, hrest, List.filter_cons, if_pos hnamed, List.head?_cons]
      rfl
  rw [leadsWithToken, leadsWithToken, Tree.without_children, Tree.head?_without hhead]
  cases t.children.head? with
  | none => rfl
  | some first => simp

theorem rel_update (h : k.Meets [(tokens.first, .text), (named.first, .expression)] s t)
    (hlead : leadsWithToken s = leadsWithToken t) :
    k.Answers k.Nodes (update k.calls s) (update k.calls' t) := by
  simp only [meets_cons] at h
  obtain ⟨htoken, hoperand, -⟩ := h
  have hselect : ∀ tree : Tree, tokens.first.select tree =
      (tree.children.find? fun child => !child.isNamed).toList := by
    intro tree
    rw [← List.head?_filter]
    rfl
  rw [hselect, hselect] at htoken
  have hoperator := option_map_text_eq htoken
  refine k.bind (k.expressionSlot hoperand) fun _ _ hoperand => ?_
  refine k.answer (k.of_kind_eq ?_ (.cons hoperand .nil))
  exact congrArg₂ (fun text leading => NodeKind.unary (Option.getD text "") leading) hoperator hlead

theorem handles_update :
    Handles commentKinds update [(tokens.first, .text), (named.first, .expression)] [] where
  respects calls _ _ h := rel_update (k := .reformatting calls) h (leadsWithToken_eq h.1)
  spares d calls calls' hhush t h := by
    refine rel_update (k := hhush.agreement calls') ⟨rfl, h⟩
      (without_leadsWithToken fun x hx => ?_).symm
    exact ((clean_cons.1 (clean_cons.1 h).2).1 x (Option.mem_toList.2 hx)).isKept rfl

theorem agrees_ternary :
    Agrees ternary [(field "condition", .expression), (field "consequence", .expression),
      (field "alternative", .expression)] := by
  intro k s t h
  simp only [meets_cons] at h
  refine k.bind (k.expressionSlot h.1) fun _ _ htest => ?_
  refine k.bind (k.expressionSlot h.2.1) fun _ _ hthen => ?_
  refine k.bind (k.expressionSlot h.2.2.1) fun _ _ helse => ?_
  exact k.ternary htest hthen helse

theorem agrees_subscript :
    Agrees subscript [(field "array", .expression), (field "index", .expression)] := by
  intro k s t h
  simp only [meets_cons] at h
  refine k.bind (k.expressionSlot h.1) fun _ _ harray => ?_
  refine k.bind (k.expressionSlot h.2.1) fun _ _ hindex => ?_
  exact k.binary harray hindex

def lambdaReading : Reading :=
  within (field "parameters") (
    onKind ["identifier"] [(here, .text)] ++ offKind ["identifier"] parametersReading) ++
  within (field "body") (
    onKind ["block"] [(here, .collapsed)] ++ offKind ["block"] [(here, .expression)])

def lambdaParameters (calls : Calls) : Option Tree → Option (List Node)
  | some list =>
    if list.kind == "identifier" then
      some [parameterNode list list.text .regular (absentBefore list)]
    else parameters calls list
  | none => some []

def lambdaBody (calls : Calls) (tree : Tree) : Option Tree → Option Node
  | some body => if body.kind == "block" then some (otherNode body []) else calls.expression body
  | none => some (absentAfter tree)

theorem lambda_eq (calls : Calls) (tree : Tree) :
    lambda calls tree = do
      let parameters ← lambdaParameters calls (tree.field? "parameters")
      let body ← lambdaBody calls tree (tree.field? "body")
      return nodeOf .lambda tree (parameters ++ [body]) := by
  unfold lambda
  cases tree.field? "parameters" <;> cases tree.field? "body"
  all_goals
    simp only [lambdaParameters, lambdaBody]
    repeat' split
    all_goals rfl

theorem rel_lambdaParameters
    (h : List.Forall₂ (k.Meets (onKind ["identifier"] [(here, .text)] ++
      offKind ["identifier"] parametersReading)) x.toList y.toList) :
    k.Answers (List.Forall₂ k.Nodes) (lambdaParameters k.calls x)
      (lambdaParameters k.calls' y) := by
  cases rel_toList_iff.1 h with
  | none => exact k.answer .nil
  | @some c d hcd =>
    obtain ⟨hname, hlist⟩ := meets_append.1 hcd
    rw [lambdaParameters, lambdaParameters, ← hcd.kind_eq]
    split
    · rename_i hkind
      have htext : c.text = d.text := hname.here_of_onKind (by simpa using hkind)
      rw [htext]
      exact k.answer (.cons (rel_parameterNode k.leaf) .nil)
    · rename_i hkind
      exact rel_parameters (hlist.of_offKind (by simpa using hkind))

theorem rel_lambdaBody
    (h : List.Forall₂ (k.Meets (onKind ["block"] [(here, .collapsed)] ++
      offKind ["block"] [(here, .expression)])) x.toList y.toList) :
    k.Answers k.Nodes (lambdaBody k.calls s x) (lambdaBody k.calls' t y) := by
  cases rel_toList_iff.1 h with
  | none => exact k.answer k.leaf
  | some hcd =>
    obtain ⟨hblock, hexpression⟩ := meets_append.1 hcd
    rw [lambdaBody, lambdaBody, ← hcd.kind_eq]
    split
    · rename_i hkind
      exact k.answer (k.otherNode hcd (hblock.here_of_onKind (by simpa using hkind)) .nil)
    · rename_i hkind
      exact hexpression.here_of_offKind (by simpa using hkind)

theorem agrees_lambda : Agrees lambda lambdaReading := by
  intro k s t h
  obtain ⟨hparameters, hbody⟩ := meets_append.1 h
  rw [lambda_eq, lambda_eq]
  refine k.bind (rel_lambdaParameters hparameters.of_within) fun _ _ hparameters => ?_
  refine k.bind (rel_lambdaBody hbody.of_within) fun _ _ hbody => ?_
  exact k.answers (List.rel_append hparameters (.cons hbody .nil))

theorem agrees_arrayDisplay : Agrees arrayDisplay argumentsReading := by
  intro k s t h
  exact k.bind (k.expressions (meets_cons.1 h).1) fun _ _ hitems => k.answers hitems

def expressionReadings : List (String × Reading) := [
  ("identifier", textReading),
  ("this", textReading),
  ("super", textReading),
  ("scoped_identifier", textReading),
  ("field_access", [(field "object", .expression), (field "field", .text)]),
  ("method_invocation", invocationReading),
  ("object_creation_expression", creationReading),
  ("assignment_expression", binaryReading),
  ("binary_expression", binaryReading),
  ("instanceof_expression", [(field "left", .expression), (field "right", .typeRef)]),
  ("unary_expression", [(field "operand", .expression), (field "operator", .text)]),
  ("update_expression", [(tokens.first, .text), (named.first, .expression)]),
  ("ternary_expression", [(field "condition", .expression), (field "consequence", .expression),
    (field "alternative", .expression)]),
  ("array_access", [(field "array", .expression), (field "index", .expression)]),
  ("parenthesized_expression", [(named.first, .expression)]),
  ("lambda_expression", lambdaReading),
  ("array_initializer", argumentsReading),
  ("decimal_integer_literal", textReading),
  ("hex_integer_literal", textReading),
  ("octal_integer_literal", textReading),
  ("binary_integer_literal", textReading),
  ("decimal_floating_point_literal", textReading),
  ("hex_floating_point_literal", textReading),
  ("string_literal", textReading),
  ("text_block", textReading),
  ("character_literal", textReading),
  ("true", textReading),
  ("false", textReading),
  ("null_literal", textReading),
  ("type_identifier", typeReading),
  ("generic_type", typeReading),
  ("scoped_type_identifier", typeReading),
  ("array_type", typeReading),
  ("integral_type", typeReading),
  ("floating_point_type", typeReading),
  ("boolean_type", typeReading)]

theorem handles_expressionRules :
    List.Forall₂ (fun rule reading => rule.1 = reading.1 ∧
      Handles commentKinds rule.2 reading.2 []) expressionRules expressionReadings := by
  simp only [expressionRules, expressionReadings, List.forall₂_cons, List.forall₂_nil_left_iff,
    and_true, Agrees.handles, handles_update, agrees_nameNode, agrees_fieldAccess,
    agrees_invocation, agrees_creation, agrees_assignment, agrees_binary, agrees_typeTest,
    agrees_unary,
    agrees_ternary, agrees_subscript, agrees_parenthesized, agrees_lambda,
    agrees_arrayDisplay, agrees_literalNode, agrees_typeRef]

end CodeEvolution.Lowering.Java
