import CodeEvolution.Proofs.Lowering.JavaExpression
import CodeEvolution.Proofs.Lowering.Settled
/-!
# Java expressions from settled parts

The rules for expressions, parameters and types settle their nodes.
-/
namespace CodeEvolution.Lowering.Java

open Syntax (Tree)

variable {s : Setting} {t x : Tree}

/-! ## Types, parameters and arguments -/

section

variable (h : Settles s t)

include h

theorem settled_typeRef : s.Gives (s.SuitsAs t (·.isTypeRef = true)) (typeRef · t) := by
  have hleaf (name : String) : s.Suits t (nodeOf (.typeRef name) t []) :=
    h.node (typeRef_isLaidOut (by simp)) (by simp)
  unfold typeRef
  split
  · have hbelow : ∀ x ∈ (t.namedOf "type_arguments").flatMap Tree.named, x.IsBelow t := by
      intro x hx
      obtain ⟨list, hlist, hx⟩ := List.mem_flatMap.1 hx
      exact (Tree.isBelow_of_named hx).trans (Tree.isBelow_of_namedOf hlist)
    refine (h.typeRefs hbelow).bind fun nodes hnodes => ?_
    exact .answer ⟨h.node (typeRef_isLaidOut fun node hnode => (hnodes node hnode).2)
      fun node hnode => (hnodes node hnode).1, rfl⟩
  · refine (h.typeField "element" fun hn => (h.within_self hn).startPoint).bind fun _ _ => ?_
    exact .answer ⟨hleaf _, rfl⟩
  · exact .answer ⟨hleaf _, rfl⟩

theorem areVariables_parameterNode {name : String}
    {sort : ParameterSort} {type : Node}
    (htype : s.Suits t type ∧ type.kind.isTypeSlot = true) :
    s.AreVariables t [parameterNode t name sort type] := by
  intro node hnode
  rw [List.mem_singleton.1 hnode]
  exact ⟨h.node (variable_isLaidOut htype.2) (by simp [htype.1, h.absentAfter]), rfl⟩

theorem settled_parameter : s.Gives (s.AreVariables t) (parameter · t) := by
  unfold parameter
  split
  · refine (h.typeField "type" fun hn => (h.within_self hn).startPoint).bind fun type htype => ?_
    exact .answer (areVariables_parameterNode h htype)
  · refine (h.typeSlot (fun x hx => Tree.isBelow_of_named (List.mem_of_find?_eq_some hx))
      fun hn => (h.within_self hn).startPoint).bind fun type htype => ?_
    exact .answer (areVariables_parameterNode h htype)
  · exact .answer (areVariables_parameterNode h ⟨h.absentBefore, rfl⟩)
  · exact .answer (by simp [Setting.AreVariables])

theorem settled_parameters : s.Gives (s.AreVariables t) (parameters · t) := by
  refine (settled_mapM_all (Q := s.AreVariables t) fun x hx => ?_).bind fun lists hlists => ?_
  · have hx := Tree.isBelow_of_named hx
    exact (settled_parameter (h.below hx)).imp fun _ => h.areVariables hx
  · refine .answer fun node hnode => ?_
    obtain ⟨list, hlist, hnode⟩ := List.mem_flatten.1 hnode
    exact hlists list hlist node hnode

theorem settled_argumentsField (name : String) :
    s.Gives (fun nodes => ∀ node ∈ nodes, s.Suits t node) (argumentsOf · (t.field? name)) := by
  cases hlist : t.field? name with
  | none => exact .answer (by simp)
  | some list =>
    exact h.expressions fun x hx => (Tree.isBelow_of_named hx).trans (Tree.isBelow_of_field? hlist)

end

/-! ## Expressions -/

theorem settling_fieldAccess : Settling fieldAccess := by
  intro s t h
  refine (h.expressionField "object" h.absentBefore).bind fun receiver hreceiver => ?_
  exact h.gives rfl (by simp [hreceiver])

theorem settling_invocation : Settling invocation := by
  intro s t h
  have habsent : s.Suits t (absentBefore ((t.field? "name").getD t)) := by
    cases hname : t.field? "name" with
    | none => exact h.absentBefore
    | some name =>
      have hbelow := Tree.isBelow_of_field? hname
      exact h.widen hbelow (h.below hbelow).absentBefore
  refine (h.expressionField "object" habsent).bind fun receiver hreceiver => ?_
  refine (settled_argumentsField h "arguments").bind fun nodes hnodes => ?_
  exact h.gives invocation_isLaidOut (by simpa [hreceiver] using hnodes)

theorem settling_creation : Settling creation := by
  intro s t h
  refine (settled_argumentsField h "arguments").bind fun nodes hnodes => ?_
  exact .answer (h.collect rfl hnodes)

theorem settled_assignmentAt (h : Settles s t)
    (hx : x = t ∨ x.IsBelow t) :
    s.Gives (s.Suits t) (assignmentAt t.span · x) := by
  obtain ⟨hx, hwiden⟩ := h.inner hx
  refine (hx.expressionField "left" hx.absentBefore).bind fun target htarget => ?_
  refine (hx.expressionField "right" hx.absentAfter).bind fun value hvalue => ?_
  have htarget := hwiden _ htarget
  exact h.gives rfl (by simp [htarget, htarget.absentAfter, hwiden _ hvalue])

theorem settling_assignment : Settling assignment :=
  fun h => settled_assignmentAt h (.inl rfl)

theorem settling_typeTest : Settling typeTest := by
  intro s t h
  refine (h.expressionField "left" h.absentBefore).bind fun left hleft => ?_
  refine (h.typeField "right" fun hn => (h.within_self hn).endPoint).bind fun right hright => ?_
  exact h.gives rfl (by simp [hleft, hright.1])

theorem settling_unary : Settling unary := by
  intro s t h
  refine (h.expressionField "operand" h.absentAfter).bind fun operand hoperand => ?_
  exact h.gives rfl (by simp [hoperand])

theorem settling_update : Settling update := by
  intro s t h
  refine (h.firstExpression h.absentAfter).bind fun operand hoperand => ?_
  exact h.gives rfl (by simp [hoperand])

theorem settling_ternary : Settling ternary := by
  intro s t h
  refine (h.expressionField "condition" h.absentAfter).bind fun test htest => ?_
  refine (h.expressionField "consequence" h.absentAfter).bind fun first hfirst => ?_
  refine (h.expressionField "alternative" h.absentAfter).bind fun second hsecond => ?_
  exact h.gives rfl (by simp [htest, hfirst, hsecond])

theorem settling_subscript : Settling subscript := by
  intro s t h
  refine (h.expressionField "array" h.absentBefore).bind fun array harray => ?_
  refine (h.expressionField "index" h.absentAfter).bind fun index hindex => ?_
  exact h.gives rfl (by simp [harray, hindex])

theorem settled_lambdaParameters (h : Settles s t) :
    s.Gives (s.AreVariables t) (lambdaParameters · (t.field? "parameters")) := by
  cases hlist : t.field? "parameters" with
  | none => exact .answer (by simp [Setting.AreVariables])
  | some list =>
    have hbelow := Tree.isBelow_of_field? hlist
    have hwiden : ∀ nodes, s.AreVariables list nodes → s.AreVariables t nodes :=
      fun _ => h.areVariables hbelow
    unfold lambdaParameters
    dsimp only
    split
    · exact .answer (hwiden _ (areVariables_parameterNode (h.below hbelow)
        ⟨(h.below hbelow).absentBefore, rfl⟩))
    · exact (settled_parameters (h.below hbelow)).imp hwiden

theorem settled_lambdaBody (h : Settles s t) :
    s.Gives (s.Suits t) (lambdaBody · t (t.field? "body")) := by
  cases hbody : t.field? "body" with
  | none => exact .answer h.absentAfter
  | some body =>
    have hbelow := Tree.isBelow_of_field? hbody
    unfold lambdaBody
    dsimp only
    split
    · exact .answer (h.widen hbelow ((h.below hbelow).other (by simp)))
    · exact h.expression hbelow

theorem settling_lambda : Settling lambda := by
  intro s t h
  rw [lambda_eq, lambda_eq]
  refine (settled_lambdaParameters h).bind fun nodes hnodes => ?_
  refine (settled_lambdaBody h).bind fun body hbody => ?_
  refine h.gives (lambda_isLaidOut fun node hnode => (hnodes node hnode).2) ?_
  intro node hnode
  rcases List.mem_append.1 hnode with hnode | hnode
  · exact (hnodes node hnode).1
  · rwa [List.mem_singleton.1 hnode]

theorem settling_arrayDisplay : Settling arrayDisplay := by
  intro s t h
  refine h.namedExpressions.bind fun nodes hnodes => ?_
  exact .answer (h.collect rfl hnodes)

theorem settling_typeRef : Settling typeRef :=
  fun h => (settled_typeRef h).imp fun _ hnode => hnode.1

theorem settling_expressionRules : ∀ entry ∈ expressionRules, Settling entry.2 := by
  simp only [expressionRules, List.forall_mem_cons, List.not_mem_nil, false_implies, implies_true,
    and_true, settling_nameNode, settling_literalNode, settling_typeRef, settling_fieldAccess,
    settling_invocation, settling_creation, settling_assignment, settling_binary,
    settling_typeTest, settling_unary, settling_update, settling_ternary, settling_subscript,
    settling_parenthesized, settling_lambda, settling_arrayDisplay]

theorem settling_expression : Settling expression := fun h =>
  settled_apply (fun entry hentry _ => settling_expressionRules entry hentry h)
    (settling_otherExpression h)

end CodeEvolution.Lowering.Java
