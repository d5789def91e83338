import CodeEvolution.Proofs.Lowering.Ordered
/-!
# Java expressions from parts in order

The rules for expressions, parameters and types build tidy nodes.
-/
namespace CodeEvolution.Lowering.Java

open Syntax (Tree)
open Node (Row)

variable {name : String} {calls : Calls} {t x : Tree} {start stop : Nat}

/-! ## Types, parameters and arguments -/

theorem fits_typeRef (h : Orders .java calls t) : Yields (Fits .java t.span) (typeRef calls t) := by
  have harguments := Tree.inOrder_flatMap_named
    (Tree.inOrder_namedOf "type_arguments" h.isNested) fun list hlist =>
      ((Tree.isBelow_of_namedOf hlist).isNested_and_within h.isNested).1
  unfold typeRef
  split
  · refine (h.typeRefs harguments fun x hx => ?_).bind fun nodes hnodes =>
      yields_node rfl hnodes
    obtain ⟨list, hlist, hx⟩ := List.mem_flatMap.1 hx
    exact (Tree.isBelow_of_named hx).trans (Tree.isBelow_of_namedOf hlist)
  · exact (h.onlyTypeField "element" h.absentBefore).bind fun _ _ => .answer h.leaf
  · exact .answer h.leaf

theorem row_parameterNode {sort : ParameterSort} {type : Node} (htype : Fits .java t.span type) :
    Row .java t.span.startOffset t.span.endOffset [parameterNode t name sort type] :=
  fits_node rfl (Row.append htype (row_absentAfter .refl))

section

variable (h : Orders .java calls t)

include h

theorem row_parameter :
    Yields (Row .java t.span.startOffset t.span.endOffset) (parameter calls t) := by
  unfold parameter
  split
  · exact (h.onlyTypeField "type" h.absentBefore).bind fun _ htype =>
      .answer (row_parameterNode htype)
  · exact (h.only (fun _ hx => Tree.isBelow_of_named (List.mem_of_find?_eq_some hx))
      (fun _ hx => (h.ordersAt hx).typeRef) h.absentBefore).bind fun _ htype =>
        .answer (row_parameterNode htype)
  · exact .answer (row_parameterNode h.absentBefore)
  · exact .answer h.le

theorem row_parameters :
    Yields (Row .java t.span.startOffset t.span.endOffset) (parameters calls t) :=
  (settled_mapM fun _ hx => row_parameter (h.below (Tree.isBelow_of_named hx))).bind
    fun _ hlists => .answer (row_flatten (Tree.inOrder_named h.isNested) hlists)

theorem row_argumentsField (horder : Tree.inOrder start stop ((Path.field name).select t) = true) :
    Yields (Row .java start stop) (argumentsOf calls (t.field? name)) := by
  cases hlist : t.field? name with
  | none => exact .answer (Tree.le_of_inOrder horder)
  | some list =>
    have hbounds := bounds_of_field horder hlist
    exact (h.below (Tree.isBelow_of_field? hlist)).namedExpressions.imp fun _ hnodes =>
      hnodes.mono hbounds.1 hbounds.2.2

theorem row_onlyArguments (name : String) :
    Yields (Row .java t.span.startOffset t.span.endOffset) (argumentsOf calls (t.field? name)) :=
  row_argumentsField h (Tree.inOrder_of_isBelow h.isNested fun _ hx => Tree.isBelow_of_field? hx)

end

/-! ## Expressions -/

section

variable (h : Orders .java calls t)

include h

theorem fits_fieldAccess : Yields (Fits .java t.span) (fieldAccess calls t) :=
  (h.onlyField "object" h.absentBefore).bind fun _ hreceiver => yields_node rfl hreceiver

theorem fits_invocation
    (hparts : AllParts t [Path.field "object", Path.field "name", Path.field "arguments"]) :
    Yields (Fits .java t.span) (invocation calls t) := by
  obtain ⟨middle, hobject, hparts⟩ := hparts.cut
  obtain ⟨cut, hname, harguments⟩ := hparts.cut
  have hmiddle := Tree.le_of_inOrder hobject
  have hcut := Tree.le_of_inOrder hname
  have habsent : Row .java t.span.startOffset cut
      [absentBefore ((t.field? "name").getD t)] := by
    cases hfield : t.field? "name" with
    | none => exact row_absentBefore (Nat.le_trans hmiddle hcut)
    | some name =>
      have hbounds := bounds_of_field hname hfield
      exact Node.row_absentAt rfl (Nat.le_trans hmiddle hbounds.1)
        (Nat.le_trans hbounds.2.1 hbounds.2.2)
  refine (h.expressionField (Tree.inOrder_mono hobject .refl hcut)
    fun _ => habsent).bind fun receiver hreceiver => ?_
  refine (row_argumentsField h harguments.last).bind fun nodes hnodes => ?_
  exact yields_node rfl (hreceiver.append hnodes)

theorem fits_creation : Yields (Fits .java t.span) (creation calls t) :=
  (row_onlyArguments h "arguments").bind fun _ hnodes => yields_node rfl hnodes

theorem fits_assignmentAt {span : Span} (hspan : t.span.Within span)
    (hparts : AllParts t [Path.field "left", Path.field "right"]) :
    Yields (Fits .java span) (assignmentAt span calls t) := by
  obtain ⟨cut, htarget, hvalue⟩ := hparts.cut
  refine (h.expressionField htarget fun _ => row_absentBefore (Tree.le_of_inOrder htarget)).bind
    fun target htarget => ?_
  refine (h.expressionField hvalue.last fun _ => row_absentAfter (Tree.le_of_inOrder hvalue)).bind
    fun value hvalue => ?_
  exact .answer (Node.row_of_children rfl .refl .refl
    (((htarget.absentAfter rfl).append hvalue).mono hspan.1 hspan.2.2))

theorem fits_assignment (hparts : AllParts t [Path.field "left", Path.field "right"]) :
    Yields (Fits .java t.span) (assignment calls t) :=
  fits_assignmentAt h (Tree.within_self h.isNested) hparts

theorem fits_typeTest (hparts : AllParts t [Path.field "left", Path.field "right"]) :
    Yields (Fits .java t.span) (typeTest calls t) :=
  h.fieldPair rfl hparts fun _ hx => (h.ordersAt hx).typeRef

theorem fits_unary : Yields (Fits .java t.span) (unary calls t) :=
  (h.onlyField "operand" h.absentAfter).bind fun _ hoperand => yields_node rfl hoperand

theorem fits_update : Yields (Fits .java t.span) (update calls t) :=
  (h.firstExpression h.absentAfter).bind fun _ hoperand => yields_node rfl hoperand

theorem fits_ternary (hkind : "ternary_expression" = t.kind) :
    Yields (Fits .java t.span) (ternary calls t) := by
  obtain ⟨_, htest, hparts⟩ := (h.parts hkind rfl).cut
  obtain ⟨_, hfirst, hsecond⟩ := hparts.cut
  refine (h.expressionField htest (absurd · (h.field?_ne_none hkind rfl (by simp)))).bind
    fun test htest => ?_
  refine (h.expressionField hfirst (absurd · (h.field?_ne_none hkind rfl (by simp)))).bind
    fun first hfirst => ?_
  refine (h.expressionField hsecond.last fun _ =>
    row_absentAfter (Tree.le_of_inOrder hsecond)).bind fun second hsecond => ?_
  exact .answer (Node.row_of_written .refl .refl (htest.append (hfirst.append hsecond)))

theorem fits_subscript (hparts : AllParts t [Path.field "array", Path.field "index"]) :
    Yields (Fits .java t.span) (subscript calls t) :=
  h.fieldPair rfl hparts fun _ hx => h.expression hx

theorem row_lambdaParameters
    (horder : Tree.inOrder start stop ((Path.field "parameters").select t) = true) :
    Yields (Row .java start stop) (lambdaParameters calls (t.field? "parameters")) := by
  cases hlist : t.field? "parameters" with
  | none => exact .answer (Tree.le_of_inOrder horder)
  | some list =>
    have hbelow := h.below (Tree.isBelow_of_field? hlist)
    have hbounds := bounds_of_field horder hlist
    unfold lambdaParameters
    dsimp only
    split
    · exact .answer ((row_parameterNode hbelow.absentBefore).mono hbounds.1 hbounds.2.2)
    · exact (row_parameters hbelow).imp fun _ hnodes => hnodes.mono hbounds.1 hbounds.2.2

theorem row_lambdaBody
    (horder : Tree.inOrder start t.span.endOffset ((Path.field "body").select t) = true) :
    YieldsIn .java start t.span.endOffset (lambdaBody calls t (t.field? "body")) := by
  cases hbody : t.field? "body" with
  | none => exact .answer (row_absentAfter (Tree.le_of_inOrder horder))
  | some body =>
    have hbelow := Tree.isBelow_of_field? hbody
    have hbounds := bounds_of_field horder hbody
    unfold lambdaBody
    dsimp only
    split
    · exact .answer (row_of_fits (h.below hbelow).leaf hbounds.1 hbounds.2.2)
    · exact (h.expression hbelow).imp fun _ hnode => row_of_fits hnode hbounds.1 hbounds.2.2

theorem fits_lambda (hparts : AllParts t [Path.field "parameters", Path.field "body"]) :
    Yields (Fits .java t.span) (lambda calls t) := by
  obtain ⟨cut, hparameters, hbody⟩ := hparts.cut
  rw [lambda_eq]
  refine (row_lambdaParameters h hparameters).bind fun nodes hnodes => ?_
  refine (row_lambdaBody h hbody.last).bind fun body hbody => ?_
  exact yields_node rfl (hnodes.append hbody)

theorem fits_arrayDisplay : Yields (Fits .java t.span) (arrayDisplay calls t) :=
  h.namedExpressions.bind fun _ hnodes => yields_node rfl hnodes

theorem fits_expressionRules : ∀ entry ∈ expressionRules,
    entry.1 = t.kind → Yields (Fits .java t.span) (entry.2 calls t) := by
  have hleaf {kind : NodeKind} : Yields (Fits .java t.span) (some (nodeOf kind t [])) :=
    .answer h.leaf
  have htype := fits_typeRef h
  simp only [expressionRules, List.forall_mem_cons, List.not_mem_nil, false_implies, implies_true,
    and_true]
  exact ⟨fun _ => hleaf, fun _ => hleaf, fun _ => hleaf, fun _ => hleaf,
    fun _ => fits_fieldAccess h, fun hkind => fits_invocation h (h.parts hkind rfl),
    fun _ => fits_creation h, fun hkind => fits_assignment h (h.parts hkind rfl),
    fun hkind => fits_binary h (h.parts hkind rfl),
    fun hkind => fits_typeTest h (h.parts hkind rfl),
    fun _ => fits_unary h, fun _ => fits_update h, fun hkind => fits_ternary h hkind,
    fun hkind => fits_subscript h (h.parts hkind rfl), fun _ => fits_parenthesized h,
    fun hkind => fits_lambda h (h.parts hkind rfl), fun _ => fits_arrayDisplay h,
    fun _ => hleaf, fun _ => hleaf, fun _ => hleaf, fun _ => hleaf, fun _ => hleaf, fun _ => hleaf,
    fun _ => hleaf, fun _ => hleaf, fun _ => hleaf, fun _ => hleaf, fun _ => hleaf, fun _ => hleaf,
    fun _ => htype, fun _ => htype, fun _ => htype, fun _ => htype, fun _ => htype, fun _ => htype,
    fun _ => htype⟩

theorem fits_expression : Yields (Fits .java t.span) (expression calls t) :=
  settled_apply (fits_expressionRules h) (fits_otherExpression h)

end

end CodeEvolution.Lowering.Java
