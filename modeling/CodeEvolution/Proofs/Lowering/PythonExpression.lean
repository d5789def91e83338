import CodeEvolution.Lowering.Python.Expression
import CodeEvolution.Proofs.Lowering.Agreement
/-!
# What the rules for Python expressions read

The reading of every rule for expressions, parameters and types, and the proof that the rule
agrees with it. Texts are taken over for names, literals and operators, for the head of a type, for
a callee that is neither a name nor a member, for a comparison of more than two operands, and for
every construct without a rule.
-/
namespace CodeEvolution.Lowering.Python

open Syntax (Tree Deletion)
open Lowering.Path
open Lowering.Reading (within onKind offKind)
open Lowering.Agreement (meets_cons meets_append uses_here fieldText_eq option_map_text_eq
  map_text_eq first_or_own)

variable {x y : Option Tree}

def commentKinds : List String := ["comment"]

/-- The rules look at the named children without comments. -/
theorem without_named (d : Deletion commentKinds) (t : Tree) :
    (t.without d).named = t.named.map (Tree.without d) := by
  rw [Tree.without_named, Tree.filter_keeps]
  intro x hx
  have hkind : x.kind ≠ "comment" := by
    have hx := (List.mem_filter.1 hx).2
    simp only [Bool.and_eq_true, bne_iff_ne] at hx
    exact hx.2
  exact d.keeps_of_kind (by simpa [commentKinds] using hkind)

instance : named.Skips commentKinds := ⟨without_named⟩

abbrev Agrees := Lowering.Agrees commentKinds

variable {k : Agreement commentKinds} {s t : Tree}

/-! ## Types -/

def bareTypeReading : Reading :=
  onKind ["string"] [(here, .text)] ++
  onKind ["generic_type"]
    [(named.first, .collapsed), (namedOf "type_parameter" / named, .typeRef)] ++
  onKind ["subscript"] [(field "value", .collapsed), (named.rest, .typeRef)] ++
  onKind ["binary_operator", "union_type"] [(named, .typeRef)] ++
  offKind ["none", "string", "generic_type", "subscript", "binary_operator", "union_type"]
    [(here, .collapsed)]

def typeReading : Reading :=
  onKind ["type"] ((named.hereIf (· == 0), .collapsed) :: within named.first bareTypeReading) ++
  offKind ["type"] bareTypeReading

def innerType (tree : Tree) : Option Tree :=
  if tree.kind == "type" then tree.named.head? else some tree

theorem rel_innerType (h : k.Meets typeReading s t) :
    Option.Rel (k.Meets bareTypeReading) (innerType s) (innerType t) := by
  obtain ⟨hwrapped, hbare⟩ := meets_append.1 h
  rw [innerType, innerType, ← h.kind_eq]
  split
  · rename_i hkind
    have h := hwrapped.of_onKind (by simpa using hkind)
    exact rel_toList_iff.1 (meets_cons.1 h).2.of_within
  · rename_i hkind
    exact .some (hbare.of_offKind (by simpa using hkind))

theorem collapsed_eq_of_innerType (h : k.Meets typeReading s t) (hnone : innerType s = none) :
    s.collapsed = t.collapsed := by
  rw [innerType] at hnone
  split at hnone
  · rename_i hkind
    have hown := (meets_cons.1 ((meets_append.1 h).1.of_onKind (by simpa using hkind))).1
    exact h.of_hereIf hown (by simpa [named] using hnone)
  · cases hnone

theorem agrees_typeRef : Agrees typeRef typeReading := by
  intro k s t h
  have hpairs : Option.Rel (k.Meets bareTypeReading)
      (if s.kind == "type" then s.named.head? else some s)
      (if t.kind == "type" then t.named.head? else some t) := rel_innerType h
  have hnone : (if s.kind == "type" then s.named.head? else some s) = none →
      s.collapsed = t.collapsed := collapsed_eq_of_innerType h
  unfold typeRef
  dsimp only
  generalize (if s.kind == "type" then s.named.head? else some s) = x at hpairs hnone ⊢
  generalize (if t.kind == "type" then t.named.head? else some t) = y at hpairs ⊢
  cases hpairs with
  | none =>
    simp only [hnone rfl]
    exact k.answers .nil
  | @some c d hcd =>
    simp only [bareTypeReading, meets_append] at hcd
    obtain ⟨⟨⟨⟨hstring, hgeneric⟩, hsubscript⟩, hunion⟩, hother⟩ := hcd
    simp only [← hstring.kind_eq]
    split
    case h_1 => exact k.answers .nil
    case h_2 hkind =>
      have htext : c.text = d.text := hstring.here_of_onKind (by simp [hkind])
      rw [htext]
      exact k.answers .nil
    case h_3 hkind =>
      have h := hgeneric.of_onKind (by simp [hkind])
      simp only [meets_cons] at h
      refine k.bind (k.types h.2.1) fun _ _ harguments => ?_
      have hbase : c.named.head?.map Tree.collapsed = d.named.head?.map Tree.collapsed :=
        option_map_text_eq h.1
      rw [hbase]
      exact k.answers harguments
    case h_4 hkind =>
      have h := hsubscript.of_onKind (by simp [hkind])
      simp only [meets_cons] at h
      refine k.bind (k.types h.2.1) fun _ _ harguments => ?_
      have hbase : (c.field? "value").map Tree.collapsed = (d.field? "value").map Tree.collapsed :=
        option_map_text_eq h.1
      rw [hbase]
      exact k.answers harguments
    case h_5 hkind =>
      have h := hunion.of_onKind (by simp [hkind])
      simp only [meets_cons] at h
      exact k.bind (k.types h.1) fun _ _ harguments => k.answers harguments
    case h_6 hkind =>
      have h := hunion.of_onKind (by simp [hkind])
      simp only [meets_cons] at h
      exact k.bind (k.types h.1) fun _ _ harguments => k.answers harguments
    case h_7 h₁ h₂ h₃ h₄ h₅ h₆ =>
      have hcollapsed : c.collapsed = d.collapsed := hother.here_of_offKind (by simp; tauto)
      rw [hcollapsed]
      exact k.answers .nil

/-! ## Parameters and arguments -/

def splatName : Path :=
  named.first.orElse here

instance : splatName.Skips commentKinds :=
  inferInstanceAs ((named.first.orElse here).Skips commentKinds)

def parameterReading : Reading :=
  onKind ["identifier"] [(here, .text)] ++
  onKind ["list_splat_pattern", "dictionary_splat_pattern"] [(splatName, .text)] ++
  onKind ["typed_parameter"] (
    within (besides "type").first (
      onKind ["identifier"] [(here, .text)] ++ offKind ["identifier"] [(splatName, .text)]) ++
    [(field "type", .typeRef)]) ++
  onKind ["default_parameter", "typed_default_parameter"]
    [(field "name", .text), (field "type", .typeRef), (field "value", .expression)]

def parametersReading : Reading :=
  parameterReading.within named

theorem splat_eq (hst : k.Meets [] s t)
    (h : List.Forall₂ (k.Uses .text) (splatName.select s) (splatName.select t)) :
    splat s = splat t := by
  have hselect : ∀ tree : Tree,
      splatName.select tree = (tree.named.head?.or (some tree)).toList :=
    fun _ => select_orElse rfl rfl
  rw [hselect, hselect] at h
  have hhead := rel_head? hst.named
  rw [splat, splat, hst.kind_eq]
  generalize s.named.head? = x at h hhead ⊢
  generalize t.named.head? = y at h hhead ⊢
  cases hhead with
  | none =>
    have htext : s.text = t.text := k.outcome (List.forall₂_cons.1 h).1
    simp only [htext]
  | @some c d _ =>
    have htext : c.text = d.text := k.outcome (List.forall₂_cons.1 h).1
    simp only [htext]

theorem rel_parameterNode {name : String} {sort : ParameterSort} {type type' value value' : Node}
    (htype : k.Nodes type type') (hvalue : k.Nodes value value') :
    k.Answers (List.Forall₂ k.Nodes) (some [parameterNode s name sort type value])
      (some [parameterNode t name sort type' value']) :=
  k.answer (.cons (k.node (.cons htype (.cons hvalue .nil))) .nil)

theorem typedName_eq
    (h : k.Meets (onKind ["identifier"] [(here, .text)] ++
      offKind ["identifier"] [(splatName, .text)]) s t) :
    (if s.kind == "identifier" then (s.text, .regular) else splat s) =
      if t.kind == "identifier" then (t.text, .regular) else splat t := by
  obtain ⟨hidentifier, hsplat⟩ := meets_append.1 h
  rw [← h.kind_eq]
  split
  · rename_i hkind
    have htext : s.text = t.text := hidentifier.here_of_onKind (by simpa using hkind)
    rw [htext]
  · rename_i hkind
    have h := hsplat.of_offKind (by simpa using hkind)
    simp only [meets_cons] at h
    exact splat_eq hsplat.nil h.1

theorem rel_withDefault
    (h : k.Meets [(field "name", .text), (field "type", .typeRef), (field "value", .expression)]
      s t) :
    k.Answers (List.Forall₂ k.Nodes) (parameter.withDefault k.calls s)
      (parameter.withDefault k.calls' t) := by
  simp only [meets_cons] at h
  obtain ⟨hname, htype, hvalue, -⟩ := h
  replace hname := rel_toList_iff.1 hname
  unfold parameter.withDefault
  generalize s.field? "name" = x at hname
  generalize t.field? "name" = y at hname
  cases hname with
  | none => exact k.answer .nil
  | @some c d htext =>
    have htext : c.text = d.text := k.outcome htext
    refine k.bind (k.typeSlot htype) fun _ _ htype => ?_
    refine k.bind (k.expressionSlot hvalue) fun _ _ hvalue => ?_
    rw [htext]
    exact rel_parameterNode htype hvalue

theorem rel_parameter (h : k.Meets parameterReading s t) :
    k.Answers (List.Forall₂ k.Nodes) (parameter k.calls s) (parameter k.calls' t) := by
  simp only [parameterReading, meets_append] at h
  obtain ⟨⟨⟨hidentifier, hsplat⟩, htyped⟩, hdefault⟩ := h
  have hstarred (hkind : s.kind = "list_splat_pattern" ∨ s.kind = "dictionary_splat_pattern") :
      splat s = splat t := by
    have h := hsplat.of_onKind (by simpa using hkind)
    simp only [meets_cons] at h
    exact splat_eq hsplat.nil h.1
  unfold parameter
  simp only [← hsplat.kind_eq]
  split
  case h_1 hkind =>
    have htext : s.text = t.text := hidentifier.here_of_onKind (by simp [hkind])
    rw [htext]
    exact rel_parameterNode k.leaf k.leaf
  case h_2 hkind =>
    rw [hstarred (.inl hkind)]
    exact rel_parameterNode k.leaf k.leaf
  case h_3 hkind =>
    rw [hstarred (.inr hkind)]
    exact rel_parameterNode k.leaf k.leaf
  case h_4 hkind =>
    have h := htyped.of_onKind (by simp [hkind])
    simp only [meets_append, meets_cons] at h
    obtain ⟨hinner, htype, -⟩ := h
    replace hinner := hinner.of_within
    rw [select_first_besides, select_first_besides, rel_toList_iff] at hinner
    generalize s.named.find? (fun child => !child.sameRangeAs (s.field? "type")) = x at hinner
    generalize t.named.find? (fun child => !child.sameRangeAs (t.field? "type")) = y at hinner
    cases hinner with
    | none => exact k.answer .nil
    | @some c d hcd =>
      have hname := typedName_eq hcd
      refine k.bind (k.typeSlot htype) fun _ _ htype => ?_
      simp only [hname]
      exact rel_parameterNode htype k.leaf
  case h_5 hkind => exact rel_withDefault (hdefault.of_onKind (by simp [hkind]))
  case h_6 hkind => exact rel_withDefault (hdefault.of_onKind (by simp [hkind]))
  case h_7 => exact k.answer .nil

theorem rel_parameters (h : k.Meets parametersReading s t) :
    k.Answers (List.Forall₂ k.Nodes) (parameters k.calls s) (parameters k.calls' t) :=
  k.bind (k.mapM (h.of_within.imp fun _ _ hcd => rel_parameter hcd)) fun _ _ hlists =>
    k.answer (List.rel_flatten hlists)

theorem rel_parametersOf (h : List.Forall₂ (k.Meets parametersReading) x.toList y.toList) :
    k.Answers (List.Forall₂ k.Nodes) (parametersOf k.calls x) (parametersOf k.calls' y) := by
  cases rel_toList_iff.1 h with
  | none => exact k.answer .nil
  | some hst => exact rel_parameters hst

def argumentsReading : Reading :=
  onKind ["argument_list"] [(named, .expression)] ++
  offKind ["argument_list"] [(here, .expression)]

theorem rel_arguments (h : k.Meets argumentsReading s t) :
    k.Answers (List.Forall₂ k.Nodes) (arguments k.calls s) (arguments k.calls' t) := by
  obtain ⟨hlist, hsingle⟩ := meets_append.1 h
  rw [arguments, arguments, ← h.kind_eq]
  split
  · rename_i hkind
    have h := hlist.of_onKind (by simpa using hkind)
    simp only [meets_cons] at h
    exact k.expressions h.1
  · rename_i hkind
    have hvalue : k.Outcome .expression s t := hsingle.here_of_offKind (by simpa using hkind)
    exact k.bind hvalue fun _ _ hvalue => k.answer (.cons hvalue .nil)

theorem rel_argumentsOf (h : List.Forall₂ (k.Meets argumentsReading) x.toList y.toList) :
    k.Answers (List.Forall₂ k.Nodes) (argumentsOf k.calls x) (argumentsOf k.calls' y) := by
  cases rel_toList_iff.1 h with
  | none => exact k.answer .nil
  | some hst => exact rel_arguments hst

/-! ## Expressions -/

def memberReading : Reading :=
  [(field "object", .expression), (field "attribute", .text)]

theorem agrees_memberAccess : Agrees memberAccess memberReading := by
  intro k s t h
  simp only [memberReading, meets_cons] at h
  refine k.bind (k.expressionSlot h.1) fun _ _ hreceiver => ?_
  rw [fieldText_eq h.2.1]
  exact k.unary hreceiver

def callReading : Reading :=
  within (field "arguments") argumentsReading ++
  [((field "function").hereIf (· == 0), .collapsed)] ++
  within (field "function") (
    onKind ["attribute"] memberReading ++ onKind ["identifier"] [(here, .text)] ++
    offKind ["attribute", "identifier"] [(here, .collapsed)])

theorem agrees_call : Agrees call callReading := by
  intro k s t h
  simp only [callReading, meets_append, meets_cons] at h
  obtain ⟨⟨harguments, hown, hst⟩, hfunction⟩ := h
  replace hfunction := hfunction.of_within
  refine k.bind (rel_argumentsOf harguments.of_within) fun _ _ harguments => ?_
  have hnone (hnone : s.field? "function" = none) : k.Outcome .collapsed s t :=
    hst.of_hereIf hown (by simp [field, hnone])
  simp only [field, rel_toList_iff] at hfunction
  generalize s.field? "function" = x at hfunction hnone ⊢
  generalize t.field? "function" = y at hfunction ⊢
  cases hfunction with
  | none => exact k.answer (k.otherNode hst (hnone rfl) harguments)
  | @some c d hcd =>
    simp only [meets_append] at hcd
    obtain ⟨⟨hmember, hidentifier⟩, hother⟩ := hcd
    simp only [← hmember.kind_eq]
    split
    case h_1 hkind =>
      have h := hmember.of_onKind (by simp [hkind])
      simp only [memberReading, meets_cons] at h
      refine k.bind (k.expressionSlot h.1) fun _ _ hreceiver => ?_
      rw [fieldText_eq h.2.1]
      exact k.answers (.cons hreceiver harguments)
    case h_2 hkind =>
      have htext : c.text = d.text := hidentifier.here_of_onKind (by simp [hkind])
      rw [htext]
      exact k.answers (.cons k.leaf harguments)
    case h_3 hnot hnot' =>
      have hcollapsed : c.collapsed = d.collapsed := hother.here_of_offKind (by simp; tauto)
      rw [hcollapsed]
      exact k.answers (.cons k.leaf harguments)

def comparisonReading : Reading :=
  [(named, .expression), (tokens, .collapsed), (named.hereIf (· != 2), .collapsed),
    (tokens.hereIf (· != 1), .collapsed)]

theorem agrees_comparison : Agrees comparison comparisonReading := by
  intro k s t h
  simp only [comparisonReading, meets_cons] at h
  obtain ⟨hnamed, htokens, hchain, hchain', hst⟩ := h
  have hoperators : (s.children.filter fun child => !child.isNamed).map Tree.collapsed =
      (t.children.filter fun child => !child.isNamed).map Tree.collapsed := map_text_eq htokens
  have hother (hlength : s.named.length ≠ 2 ∨
      ((s.children.filter fun child => !child.isNamed).map Tree.collapsed).length ≠ 1) :
      k.Answers k.Nodes (do return otherNode s (← s.named.mapM k.calls.expression))
        (do return otherNode t (← t.named.mapM k.calls'.expression)) := by
    have hcollapsed : k.Outcome .collapsed s t := by
      rcases hlength with hlength | hlength
      · exact hst.of_hereIf hchain (by simpa [named] using hlength)
      · exact hst.of_hereIf hchain' (by simpa [tokens] using hlength)
    exact k.bind (k.expressions hnamed) fun _ _ hoperands =>
      k.answer (k.otherNode hst hcollapsed hoperands)
  unfold comparison
  simp only [hoperators] at hother ⊢
  have hnamed : List.Forall₂ (k.Uses .expression) s.named t.named := hnamed
  generalize s.named = xs at hnamed hother ⊢
  generalize t.named = ys at hnamed hother ⊢
  generalize (t.children.filter fun child => !child.isNamed).map Tree.collapsed = operators
    at hother ⊢
  -- only two operands around one operator are a binary operation
  rcases hnamed with _ | ⟨hleft, _ | ⟨hright, _ | ⟨hthird, hrest⟩⟩⟩
  · exact hother (by simp)
  · exact hother (by simp)
  · rcases operators with _ | ⟨operator, _ | ⟨second, operators⟩⟩
    · exact hother (by simp)
    · exact k.bind (k.outcome hleft) fun _ _ hleft => k.bind (k.outcome hright) fun _ _ hright =>
        k.binary hleft hright
    · exact hother (by simp)
  · exact hother (by simp)

theorem rel_unary {operator : String} (h : List.Forall₂ (k.Uses .expression) x.toList y.toList) :
    k.Answers k.Nodes (unary operator x k.calls s) (unary operator y k.calls' t) :=
  k.bind (k.expressionSlot h) fun _ _ hoperand => k.unary hoperand

theorem agrees_negation :
    Agrees (fun calls tree => unary "not" (tree.field? "argument") calls tree)
      [(field "argument", .expression)] :=
  fun _ _ _ h => rel_unary (meets_cons.1 h).1

theorem agrees_unaryFirst (operator : String) :
    Agrees (fun calls tree => unary operator tree.named.head? calls tree)
      [(named.first, .expression)] :=
  fun _ _ _ h => rel_unary (meets_cons.1 h).1

theorem agrees_operator :
    Agrees (fun calls tree =>
        unary (tree.fieldText "operator") (tree.field? "argument") calls tree)
      [(field "operator", .text), (field "argument", .expression)] := by
  intro k s t h
  simp only [meets_cons] at h
  dsimp only
  rw [fieldText_eq h.1]
  exact rel_unary h.2.1

def conditionalReading : Reading :=
  [(named, .expression), (named.hereIf (· != 3), .collapsed)]

theorem agrees_conditionalExpression :
    Agrees conditionalExpression conditionalReading := by
  intro k s t h
  simp only [conditionalReading, meets_cons] at h
  obtain ⟨hnamed, hown, hst⟩ := h
  have hother (hlength : s.named.length ≠ 3) :
      k.Answers k.Nodes (do return otherNode s (← s.named.mapM k.calls.expression))
        (do return otherNode t (← t.named.mapM k.calls'.expression)) :=
    k.bind (k.expressions hnamed) fun _ _ hoperands =>
      k.answer (k.otherNode hst (hst.of_hereIf hown (by simpa [named] using hlength)) hoperands)
  unfold conditionalExpression
  have hnamed : List.Forall₂ (k.Uses .expression) s.named t.named := hnamed
  generalize s.named = xs at hnamed hother ⊢
  generalize t.named = ys at hnamed hother ⊢
  rcases hnamed with _ | ⟨hthen, _ | ⟨htest, _ | ⟨helse, _ | ⟨hfourth, hrest⟩⟩⟩⟩
  · exact hother (by simp)
  · exact hother (by simp)
  · exact hother (by simp)
  · exact k.bind (k.outcome htest) fun _ _ htest => k.bind (k.outcome hthen) fun _ _ hthen =>
      k.bind (k.outcome helse) fun _ _ helse => k.ternary htest hthen helse
  · exact hother (by simp)

theorem rel_tupled {ss ts : List Tree} {m n : Node}
    (h : List.Forall₂ (k.Uses .expression) ss ts) (hmn : k.Nodes m n) :
    k.Answers k.Nodes (tupled k.calls ss m) (tupled k.calls' ts n) := by
  rcases h with _ | ⟨hfirst, _ | ⟨hsecond, hrest⟩⟩
  · exact k.answer hmn
  · exact k.outcome hfirst
  · exact k.bind (k.expressions (.cons hfirst (.cons hsecond hrest))) fun _ _ hitems =>
      k.answer (k.spanning (.cons hfirst (.cons hsecond hrest)) hitems hmn)

def subscriptReading : Reading :=
  [(field "value", .expression), (besides "value", .expression)]

theorem agrees_subscript : Agrees subscript subscriptReading := by
  intro k s t h
  simp only [subscriptReading, meets_cons] at h
  obtain ⟨hvalue, hindices, hst⟩ := h
  refine k.bind (k.expressionSlot hvalue) fun _ _ hvalue => ?_
  refine k.bind (rel_tupled hindices k.leaf) fun _ _ hindex => ?_
  exact k.binary hvalue hindex

theorem agrees_collection (sort : CollectionSort) :
    Agrees (collection sort) [(named, .expression)] := by
  intro k s t h
  exact k.bind (k.expressions (meets_cons.1 h).1) fun _ _ hitems => k.answers hitems

theorem agrees_pair : Agrees pair [(field "key", .expression), (field "value", .expression)] := by
  intro k s t h
  simp only [meets_cons] at h
  refine k.bind (k.expressionSlot h.1) fun _ _ hkey => ?_
  refine k.bind (k.expressionSlot h.2.1) fun _ _ hvalue => ?_
  exact k.binary hkey hvalue

def lambdaReading : Reading :=
  within (field "parameters") parametersReading ++ [(field "body", .expression)]

theorem agrees_lambda : Agrees lambda lambdaReading := by
  intro k s t h
  simp only [lambdaReading, meets_append, meets_cons] at h
  obtain ⟨hparameters, hbody, -⟩ := h
  refine k.bind (rel_parametersOf hparameters.of_within) fun _ _ hparameters => ?_
  refine k.bind (k.expressionSlot hbody) fun _ _ hbody => ?_
  exact k.answers (List.rel_append hparameters (.cons hbody .nil))

theorem agrees_yielding : Agrees yielding [(named.first, .expression)] := by
  intro k s t h
  simp only [meets_cons] at h
  refine k.bind (k.expressionSlot h.1) fun _ _ hvalue => ?_
  rw [h.2.hasToken_eq]
  exact k.unary hvalue

def keywordReading : Reading :=
  [(field "value", .expression), (field "name", .text)]

theorem agrees_keywordArgument : Agrees keywordArgument keywordReading := by
  intro k s t h
  simp only [keywordReading, meets_cons] at h
  refine k.bind (k.expressionSlot h.1) fun _ _ hvalue => ?_
  rw [fieldText_eq h.2.1]
  exact k.unary hvalue

def assignmentReading : Reading :=
  [(field "left", .expression), (field "type", .typeRef), (field "right", .expression)] ++
  onKind ["augmented_assignment"] [(field "operator", .text)]

theorem rel_assignmentAt {a b : Span} (h : k.Meets assignmentReading s t) :
    k.Answers k.Nodes (assignmentAt a k.calls s) (assignmentAt b k.calls' t) := by
  simp only [assignmentReading, meets_append, meets_cons] at h
  obtain ⟨⟨htarget, htype, hvalue, -⟩, hoperator⟩ := h
  refine k.bind (k.expressionSlot htarget) fun _ _ htarget => ?_
  refine k.bind (k.typeSlot htype) fun _ _ htype => ?_
  refine k.bind (k.expressionSlot hvalue) fun _ _ hvalue => ?_
  rw [← hoperator.kind_eq]
  split
  · rename_i hkind
    have h := hoperator.of_onKind (by simpa using hkind)
    have hspelling : (s.field? "operator").map Tree.text = (t.field? "operator").map Tree.text :=
      option_map_text_eq (meets_cons.1 h).1
    rw [hspelling]
    exact k.ternary htarget htype hvalue
  · exact k.ternary htarget htype hvalue

theorem agrees_assignment : Agrees assignment assignmentReading :=
  fun _ _ _ h => rel_assignmentAt h

def targetReading : Reading :=
  [(named.first, .expression), (named.hereIf (· == 0), .collapsed)]

theorem agrees_patternTarget : Agrees patternTarget targetReading := by
  intro k s t h
  obtain ⟨hinner, hnone⟩ := meets_cons.1 h
  obtain ⟨hs, ht, hown⟩ | ⟨c, d, hs, ht, hcd⟩ := first_or_own hnone hinner
  · simp only [patternTarget, hs, ht]
    exact k.answer (k.otherNode h hown .nil)
  · simp only [patternTarget, hs, ht]
    exact k.outcome hcd

def expressionReadings : List (String × Reading) := [
  ("identifier", textReading),
  ("attribute", memberReading),
  ("call", callReading),
  ("binary_operator", binaryReading),
  ("boolean_operator", binaryReading),
  ("comparison_operator", comparisonReading),
  ("not_operator", [(field "argument", .expression)]),
  ("unary_operator", [(field "operator", .text), (field "argument", .expression)]),
  ("await", [(named.first, .expression)]),
  ("list_splat", [(named.first, .expression)]),
  ("list_splat_pattern", [(named.first, .expression)]),
  ("dictionary_splat", [(named.first, .expression)]),
  ("dictionary_splat_pattern", [(named.first, .expression)]),
  ("conditional_expression", conditionalReading),
  ("subscript", subscriptReading),
  ("integer", textReading),
  ("float", textReading),
  ("string", textReading),
  ("concatenated_string", textReading),
  ("true", textReading),
  ("false", textReading),
  ("none", textReading),
  ("list", [(named, .expression)]),
  ("list_pattern", [(named, .expression)]),
  ("tuple", [(named, .expression)]),
  ("expression_list", [(named, .expression)]),
  ("pattern_list", [(named, .expression)]),
  ("tuple_pattern", [(named, .expression)]),
  ("set", [(named, .expression)]),
  ("dictionary", [(named, .expression)]),
  ("pair", [(field "key", .expression), (field "value", .expression)]),
  ("parenthesized_expression", [(named.first, .expression)]),
  ("lambda", lambdaReading),
  ("yield", [(named.first, .expression)]),
  ("keyword_argument", keywordReading),
  ("assignment", assignmentReading),
  ("augmented_assignment", assignmentReading),
  ("as_pattern_target", targetReading),
  ("type", typeReading)]

theorem agrees_expressionRules :
    List.Forall₂ (fun rule reading => rule.1 = reading.1 ∧ Agrees rule.2 reading.2)
      expressionRules expressionReadings := by
  simp only [expressionRules, expressionReadings, List.forall₂_cons, List.forall₂_nil_left_iff,
    and_true, agrees_nameNode, agrees_memberAccess, agrees_call, agrees_binary,
    agrees_comparison, agrees_negation, agrees_unaryFirst, agrees_operator,
    agrees_conditionalExpression, agrees_subscript,
    agrees_literalNode, agrees_collection, agrees_pair, agrees_parenthesized,
    agrees_lambda, agrees_yielding, agrees_keywordArgument, agrees_assignment,
    agrees_patternTarget, agrees_typeRef]

theorem agrees_expression (k : Agreement commentKinds)
    (h : k.Meets ((expressionReadings.lookup s.kind).getD otherReading) s t) :
    k.Answers k.Nodes (expression k.calls s) (expression k.calls' t) :=
  Agreement.apply agrees_expressionRules (agrees_otherExpression k s t) h

end CodeEvolution.Lowering.Python
