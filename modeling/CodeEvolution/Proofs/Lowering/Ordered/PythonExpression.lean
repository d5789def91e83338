import CodeEvolution.Lowering.Python.Expression
import CodeEvolution.Proofs.Lowering.Ordered
/-!
# Python expressions from parts in order

The rules for expressions, parameters and type expressions build tidy nodes. The conditional
expression is the one whose layout is not the order of the source.
-/
namespace CodeEvolution.Lowering.Python

open Syntax (Tree)
open Node (Row)

variable {calls : Calls} {t x : Tree} {start stop : Nat} {trees : List Tree} {name : String}

/-! ## Types, parameters and arguments -/

theorem fits_typeRefOver (h : Orders .python calls t)
    (horder : Tree.inOrder t.span.startOffset t.span.endOffset trees = true)
    (htrees : ∀ x ∈ trees, x.IsBelow t) (name : String) :
    Yields (Fits .python t.span)
      (do return nodeOf (.typeRef name) t (← trees.mapM calls.typeRef)) :=
  (h.typeRefs horder htrees).bind fun _ hnodes => yields_node rfl hnodes

theorem fits_typeRef (h : Orders .python calls t) :
    Yields (Fits .python t.span) (typeRef calls t) := by
  have hinner : ∀ inner ∈ (if t.kind == "type" then t.named.head? else some t),
      inner.span.Within t.span ∧ inner.isNested = true ∧
        ∀ x : Tree, x.IsBelow inner → x.IsBelow t := by
    intro inner hmem
    split at hmem
    · have hbelow := Tree.isBelow_of_named (List.mem_of_head? hmem)
      have hnested := hbelow.isNested_and_within h.isNested
      exact ⟨hnested.2, hnested.1, fun x hx => hx.trans hbelow⟩
    · cases hmem
      exact ⟨Tree.within_self h.isNested, h.isNested, fun _ hx => hx⟩
  unfold typeRef
  dsimp only
  split
  · exact .answer h.leaf
  · rename_i inner hmem
    obtain ⟨hwithin, hnested, hbelow⟩ := hinner inner hmem
    have hnamed := Tree.inOrder_mono (Tree.inOrder_named hnested) hwithin.1 hwithin.2.2
    split
    · exact .answer h.leaf
    · exact .answer h.leaf
    · refine fits_typeRefOver h (Tree.inOrder_flatMap_named
        (Tree.inOrder_sublist List.filter_sublist hnamed) fun list hlist => ?_) (fun x hx => ?_) _
      · exact ((Tree.isBelow_of_namedOf hlist).isNested_and_within hnested).1
      · obtain ⟨list, hlist, hx⟩ := List.mem_flatMap.1 hx
        exact hbelow x ((Tree.isBelow_of_named hx).trans (Tree.isBelow_of_namedOf hlist))
    · exact fits_typeRefOver h (Tree.inOrder_sublist (List.drop_sublist ..) hnamed)
        (fun x hx => hbelow x (Tree.isBelow_of_named (List.mem_of_mem_drop hx))) _
    · exact fits_typeRefOver h hnamed (fun x hx => hbelow x (Tree.isBelow_of_named hx)) _
    · exact fits_typeRefOver h hnamed (fun x hx => hbelow x (Tree.isBelow_of_named hx)) _
    · exact .answer h.leaf

theorem row_parameterNode {sort : ParameterSort} {type : Node} (htype : Fits .python t.span type) :
    Row .python t.span.startOffset t.span.endOffset
      [parameterNode t name sort type (absentAfter t)] :=
  fits_node rfl (Row.append htype (row_absentAfter .refl))

section

variable (h : Orders .python calls t)

include h

theorem row_withDefault
    (hparts : AllParts t [Path.field "name", Path.field "type", Path.field "value"]) :
    Yields (Row .python t.span.startOffset t.span.endOffset) (parameter.withDefault calls t) := by
  obtain ⟨_, hname, hparts⟩ := hparts.cut
  obtain ⟨cut, htype, hvalue⟩ := hparts.cut
  unfold parameter.withDefault
  split
  · exact .answer h.le
  · rename_i name hfield
    have hname := bounds_of_field hname hfield
    have hle := Tree.le_of_inOrder htype
    have htype := Tree.inOrder_mono htype (Nat.le_trans hname.1 (by omega)) .refl
    refine (h.typeField htype fun _ => Node.row_absentAt rfl ?_ ?_).bind fun type htype => ?_
    · exact Nat.le_trans hname.1 hname.2.1
    · exact Nat.le_trans hname.2.2 hle
    · refine (h.expressionField hvalue.last fun _ =>
        row_absentAfter (Tree.le_of_inOrder hvalue)).bind fun default hdefault => ?_
      exact .answer (fits_node rfl (htype.append hdefault))

theorem row_parameter :
    Yields (Row .python t.span.startOffset t.span.endOffset) (parameter calls t) := by
  have hplain {name : String} {sort : ParameterSort} :
      Yields (Row .python t.span.startOffset t.span.endOffset)
        (some [parameterNode t name sort (absentAfter t) (absentAfter t)]) :=
    .answer (row_parameterNode h.absentAfter)
  unfold parameter
  split
  · exact hplain
  · exact hplain
  · exact hplain
  · dsimp only
    split
    · exact .answer h.le
    · rename_i inner hinner
      have hbelow := Tree.isBelow_of_named (List.mem_of_find?_eq_some hinner)
      have hwithin := (hbelow.isNested_and_within h.isNested).2
      refine (h.onlyTypeField "type" ?_).bind fun type htype => .answer (row_parameterNode htype)
      exact Node.row_absentAt rfl (Nat.le_trans hwithin.1 hwithin.2.1) hwithin.2.2
  · rename_i hkind
    exact row_withDefault h (h.parts hkind.symm rfl)
  · rename_i hkind
    exact row_withDefault h (h.parts hkind.symm rfl)
  · exact .answer h.le

theorem row_parameters :
    Yields (Row .python t.span.startOffset t.span.endOffset) (parameters calls t) :=
  (settled_mapM fun _ hx => row_parameter (h.below (Tree.isBelow_of_named hx))).bind
    fun _ hlists => .answer (row_flatten (Tree.inOrder_named h.isNested) hlists)

theorem row_parametersOf (horder : Tree.inOrder start stop ((Path.field name).select t) = true) :
    Yields (Row .python start stop) (parametersOf calls (t.field? name)) := by
  cases hlist : t.field? name with
  | none => exact .answer (Tree.le_of_inOrder horder)
  | some list =>
    have hbounds := bounds_of_field horder hlist
    exact (row_parameters (h.below (Tree.isBelow_of_field? hlist))).imp fun _ hnodes =>
      hnodes.mono hbounds.1 hbounds.2.2

theorem row_argumentsOf {tree : Option Tree}
    (horder : Tree.inOrder start stop tree.toList = true) (htree : ∀ x ∈ tree, x.IsBelow t) :
    Yields (Row .python start stop) (argumentsOf calls tree) := by
  cases tree with
  | none => exact .answer (Tree.le_of_inOrder horder)
  | some list =>
    have hlist := htree list rfl
    have hbounds := Tree.bounds_of_inOrder horder (by simp : list ∈ (some list).toList)
    unfold argumentsOf arguments
    dsimp only
    split
    · exact (h.below hlist).namedExpressions.imp fun _ hnodes => hnodes.mono hbounds.1 hbounds.2.2
    · exact (h.expression hlist).bind fun _ hnode =>
        .answer (row_of_fits hnode hbounds.1 hbounds.2.2)

end

/-! ## Expressions -/

section

variable (h : Orders .python calls t)

include h

variable (operator : String)

theorem fits_memberAccess : Yields (Fits .python t.span) (memberAccess calls t) :=
  (h.onlyField "object" h.absentBefore).bind fun _ hreceiver => yields_node rfl hreceiver

theorem fits_call (hparts : AllParts t [Path.field "function", Path.field "arguments"]) :
    Yields (Fits .python t.span) (call calls t) := by
  obtain ⟨cut, hfunction, harguments⟩ := hparts.cut
  refine (row_argumentsOf h harguments.last fun _ hx => Tree.isBelow_of_field? hx).bind
    fun nodes hnodes => ?_
  split
  · exact .answer (fits_other (hnodes.mono (Tree.le_of_inOrder hfunction) .refl))
  · rename_i function hfield
    have hbelow := h.below (Tree.isBelow_of_field? hfield)
    have hbounds := bounds_of_field hfunction hfield
    have hinvocation : ∀ (name : String) (receiver : Node),
        Fits .python function.span receiver →
          Fits .python t.span (nodeOf (.invocation name) t (receiver :: nodes)) :=
      fun _ _ hreceiver => fits_node rfl
        ((row_of_fits hreceiver hbounds.1 hbounds.2.2).append hnodes)
    split
    · exact (hbelow.onlyField "object" hbelow.absentBefore).bind fun _ hreceiver =>
        .answer (hinvocation _ _ hreceiver)
    · exact .answer (hinvocation _ _ hbelow.absentBefore)
    · exact .answer (hinvocation _ _ hbelow.absentBefore)

theorem fits_comparison : Yields (Fits .python t.span) (comparison calls t) := by
  have hnamed : ∀ x ∈ t.named, x.IsBelow t := fun _ hx => Tree.isBelow_of_named hx
  have horder := Tree.inOrder_named h.isNested
  unfold comparison
  dsimp only
  split
  · rename_i left right _ hoperands _
    rw [hoperands] at hnamed horder
    refine (h.expression (hnamed left (by simp))).bind fun left hleft => ?_
    refine (h.expression (hnamed right (by simp))).bind fun right hright => ?_
    exact yields_node rfl (row_of_forall₂ horder (.cons hleft (.cons hright .nil)))
  · exact fits_otherExpression h

theorem fits_unary {operand : Option Tree} (hoperand : ∀ x ∈ operand, x.IsBelow t) :
    Yields (Fits .python t.span) (unary operator operand calls t) :=
  (h.onlyExpression hoperand h.absentAfter).bind fun _ hnode => yields_node rfl hnode

theorem fits_unaryFirst : Yields (Fits .python t.span) (unary operator t.named.head? calls t) :=
  fits_unary h operator fun _ hx => Tree.isBelow_of_named (List.mem_of_head? hx)

theorem fits_unaryField (name : String) :
    Yields (Fits .python t.span) (unary operator (t.field? name) calls t) :=
  fits_unary h operator fun _ hx => Tree.isBelow_of_field? hx

/-- The condition is the first child and written second. -/
theorem fits_conditionalExpression :
    Yields (Fits .python t.span) (conditionalExpression calls t) := by
  have hnamed : ∀ x ∈ t.named, x.IsBelow t := fun _ hx => Tree.isBelow_of_named hx
  have horder := Tree.inOrder_named h.isNested
  unfold conditionalExpression
  split
  · rename_i first test second hparts
    rw [hparts] at hnamed horder
    refine (h.expression (hnamed test (by simp))).bind fun test htest => ?_
    refine (h.expression (hnamed first (by simp))).bind fun first hfirst => ?_
    refine (h.expression (hnamed second (by simp))).bind fun second hsecond => ?_
    have hwritten : Row .python t.span.startOffset t.span.endOffset [first, test, second] :=
      row_of_forall₂ horder (.cons hfirst (.cons htest (.cons hsecond .nil)))
    exact .answer (Node.row_of_written .refl .refl hwritten)
  · exact fits_otherExpression h

theorem row_tupled {fallback : Node} (horder : Tree.inOrder start stop trees = true)
    (htrees : ∀ x ∈ trees, x.IsBelow t) (hf : Row .python start stop [fallback]) :
    YieldsIn .python start stop (tupled calls trees fallback) := by
  unfold tupled
  split
  · exact .answer hf
  · rename_i single
    have hbounds := Tree.bounds_of_inOrder horder (List.mem_singleton_self single)
    exact (h.expression (htrees _ (by simp))).imp fun _ hnode =>
      row_of_fits hnode hbounds.1 hbounds.2.2
  · refine (settled_mapM fun x hx => h.expression (htrees x hx)).bind fun nodes hnodes => ?_
    exact .answer (row_spanning rfl horder (fun horder => row_of_forall₂ horder hnodes) fun _ => hf)

theorem fits_subscript (hparts : AllParts t [Path.field "value", Path.besides "value"]) :
    Yields (Fits .python t.span) (subscript calls t) := by
  obtain ⟨cut, hvalue, hindices⟩ := hparts.cut
  refine (h.expressionField hvalue fun _ => row_absentBefore (Tree.le_of_inOrder hvalue)).bind
    fun value hvalue => ?_
  refine (row_tupled h hindices.last (fun x hx => ?_)
    (row_absentAfter (Tree.le_of_inOrder hindices))).bind fun index hindex => ?_
  · exact Tree.isBelow_of_named (List.mem_filter.1 hx).1
  · exact yields_node rfl (hvalue.append hindex)

theorem fits_collection (sort : CollectionSort) :
    Yields (Fits .python t.span) (collection sort calls t) :=
  h.namedExpressions.bind fun _ hnodes => yields_node rfl hnodes

theorem fits_pair (hparts : AllParts t [Path.field "key", Path.field "value"]) :
    Yields (Fits .python t.span) (pair calls t) :=
  h.fieldPair rfl hparts fun _ hx => h.expression hx

theorem fits_lambda (hparts : AllParts t [Path.field "parameters", Path.field "body"]) :
    Yields (Fits .python t.span) (lambda calls t) := by
  obtain ⟨cut, hparameters, hbody⟩ := hparts.cut
  refine (row_parametersOf h hparameters).bind fun nodes hnodes => ?_
  refine (h.expressionField hbody.last fun _ => row_absentAfter (Tree.le_of_inOrder hbody)).bind
    fun body hbody => ?_
  exact yields_node rfl (hnodes.append hbody)

theorem fits_yielding : Yields (Fits .python t.span) (yielding calls t) :=
  (h.firstExpression h.absentAfter).bind fun _ hvalue => yields_node rfl hvalue

theorem fits_keywordArgument : Yields (Fits .python t.span) (keywordArgument calls t) :=
  (h.onlyField "value" h.absentAfter).bind fun _ hvalue => yields_node rfl hvalue

theorem fits_assignmentAt {span : Span} (hspan : t.span.Within span)
    (hparts : AllParts t [Path.field "left", Path.field "type", Path.field "right"]) :
    Yields (Fits .python span) (assignmentAt span calls t) := by
  obtain ⟨cut, htarget, hparts⟩ := hparts.cut
  obtain ⟨cut', htype, hvalue⟩ := hparts.cut
  refine (h.expressionField htarget fun _ => row_absentBefore (Tree.le_of_inOrder htarget)).bind
    fun target htarget => ?_
  refine (row_slotAfter htarget rfl htype fun _ hx =>
    (h.ordersAt (Tree.isBelow_of_field? hx)).typeRef).bind fun type htype => ?_
  refine (h.expressionField hvalue.last fun _ => row_absentAfter (Tree.le_of_inOrder hvalue)).bind
    fun value hvalue => ?_
  exact .answer (Node.row_of_children rfl .refl .refl
    ((htype.append hvalue).mono hspan.1 hspan.2.2))

theorem fits_assignment
    (hparts : AllParts t [Path.field "left", Path.field "type", Path.field "right"]) :
    Yields (Fits .python t.span) (assignment calls t) :=
  fits_assignmentAt h (Tree.within_self h.isNested) hparts

theorem fits_patternTarget : Yields (Fits .python t.span) (patternTarget calls t) := by
  unfold patternTarget
  split
  · rename_i inner hinner
    have hbelow := Tree.isBelow_of_named (List.mem_of_head? hinner)
    exact (h.expression hbelow).imp fun _ hnode => h.widen hbelow hnode
  · exact .answer h.leaf

theorem fits_expressionRules : ∀ entry ∈ expressionRules,
    entry.1 = t.kind → Yields (Fits .python t.span) (entry.2 calls t) := by
  have hleaf {kind : NodeKind} : Yields (Fits .python t.span) (some (nodeOf kind t [])) :=
    .answer h.leaf
  simp only [expressionRules, List.forall_mem_cons, List.not_mem_nil, false_implies, implies_true,
    and_true]
  exact ⟨fun _ => hleaf, fun _ => fits_memberAccess h,
    fun hkind => fits_call h (h.parts hkind rfl), fun hkind => fits_binary h (h.parts hkind rfl),
    fun hkind => fits_binary h (h.parts hkind rfl), fun _ => fits_comparison h,
    fun _ => fits_unaryField h _ _, fun _ => fits_unaryField h _ _, fun _ => fits_unaryFirst h _,
    fun _ => fits_unaryFirst h _, fun _ => fits_unaryFirst h _, fun _ => fits_unaryFirst h _,
    fun _ => fits_unaryFirst h _, fun _ => fits_conditionalExpression h,
    fun hkind => fits_subscript h (h.parts hkind rfl), fun _ => hleaf, fun _ => hleaf,
    fun _ => hleaf, fun _ => hleaf, fun _ => hleaf, fun _ => hleaf, fun _ => hleaf,
    fun _ => fits_collection h _, fun _ => fits_collection h _, fun _ => fits_collection h _,
    fun _ => fits_collection h _, fun _ => fits_collection h _, fun _ => fits_collection h _,
    fun _ => fits_collection h _, fun _ => fits_collection h _,
    fun hkind => fits_pair h (h.parts hkind rfl), fun _ => fits_parenthesized h,
    fun hkind => fits_lambda h (h.parts hkind rfl), fun _ => fits_yielding h,
    fun _ => fits_keywordArgument h, fun hkind => fits_assignment h (h.parts hkind rfl),
    fun hkind => fits_assignment h (h.parts hkind rfl), fun _ => fits_patternTarget h,
    fun _ => fits_typeRef h⟩

theorem fits_expression : Yields (Fits .python t.span) (expression calls t) :=
  settled_apply (fits_expressionRules h) (fits_otherExpression h)

end

end CodeEvolution.Lowering.Python
