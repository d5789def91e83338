import CodeEvolution.Proofs.Lowering.PythonExpression
import CodeEvolution.Proofs.Lowering.Settled
/-!
# Python expressions from settled parts

The rules for expressions, parameters and type expressions settle their nodes.
-/
namespace CodeEvolution.Lowering.Python

open Syntax (Tree)

variable {s : Setting} {t x : Tree} {trees : List Tree}

/-! ## Types, parameters and arguments -/

section

variable (h : Settles s t)

include h

theorem settled_typeRefOver (htrees : ∀ x ∈ trees, x.IsBelow t) (name : String) :
    s.Gives (s.SuitsAs t (·.isTypeRef = true)) (fun calls => do
      return nodeOf (.typeRef name) t (← trees.mapM calls.typeRef)) := by
  refine (h.typeRefs htrees).bind fun nodes hnodes => ?_
  exact .answer ⟨h.node (typeRef_isLaidOut fun node hnode => (hnodes node hnode).2)
    fun node hnode => (hnodes node hnode).1, rfl⟩

theorem settled_typeRef : s.Gives (s.SuitsAs t (·.isTypeRef = true)) (typeRef · t) := by
  have hleaf (name : String) : s.Gives (s.SuitsAs t (·.isTypeRef = true)) fun _ =>
      some (nodeOf (.typeRef name) t []) :=
    .answer ⟨h.node (typeRef_isLaidOut (by simp)) (by simp), rfl⟩
  have hinner : ∀ inner ∈ (if t.kind == "type" then t.named.head? else some t),
      ∀ x : Tree, x.IsBelow inner → x.IsBelow t := by
    intro inner hmem x hx
    split at hmem
    · exact hx.trans (Tree.isBelow_of_named (List.mem_of_head? hmem))
    · cases hmem
      exact hx
  unfold typeRef
  dsimp only
  split
  · exact hleaf _
  · rename_i inner hmem
    have hbelow := hinner inner hmem
    split
    · exact hleaf _
    · exact hleaf _
    · refine settled_typeRefOver h (fun x hx => hbelow x ?_) _
      obtain ⟨list, hlist, hx⟩ := List.mem_flatMap.1 hx
      exact (Tree.isBelow_of_named hx).trans (Tree.isBelow_of_namedOf hlist)
    · exact settled_typeRefOver h
        (fun x hx => hbelow x (Tree.isBelow_of_named (List.mem_of_mem_drop hx))) _
    · exact settled_typeRefOver h (fun x hx => hbelow x (Tree.isBelow_of_named hx)) _
    · exact settled_typeRefOver h (fun x hx => hbelow x (Tree.isBelow_of_named hx)) _
    · exact hleaf _

theorem areVariables_parameterNode {name : String}
    {sort : ParameterSort} {type default : Node}
    (htype : s.Suits t type ∧ type.kind.isTypeSlot = true)
    (hdefault : s.Suits t default) :
    s.AreVariables t [parameterNode t name sort type default] := by
  intro node hnode
  rw [List.mem_singleton.1 hnode]
  exact ⟨h.node (variable_isLaidOut htype.2) (by simp [htype.1, hdefault]), rfl⟩

theorem settled_withDefault : s.Gives (s.AreVariables t) (parameter.withDefault · t) := by
  unfold parameter.withDefault
  split
  · exact .answer (by simp [Setting.AreVariables])
  · rename_i name hname
    have hname := Tree.isBelow_of_field? hname
    refine (h.typeField "type" fun hn => (h.within hname hn).endPoint).bind fun type htype => ?_
    refine (h.expressionField "value" h.absentAfter).bind fun default hdefault => ?_
    exact .answer (areVariables_parameterNode h htype hdefault)

theorem settled_parameter : s.Gives (s.AreVariables t) (parameter · t) := by
  have habsent := h.absentAfter
  unfold parameter
  split
  · exact .answer (areVariables_parameterNode h ⟨habsent, rfl⟩ habsent)
  · exact .answer (areVariables_parameterNode h ⟨habsent, rfl⟩ habsent)
  · exact .answer (areVariables_parameterNode h ⟨habsent, rfl⟩ habsent)
  · dsimp only
    split
    · exact .answer (by simp [Setting.AreVariables])
    · rename_i inner hinner
      have hinner := Tree.isBelow_of_named (List.mem_of_find?_eq_some hinner)
      refine (h.typeField "type" fun hn => (h.within hinner hn).endPoint).bind fun type htype => ?_
      exact .answer (areVariables_parameterNode h htype habsent)
  · exact settled_withDefault h
  · exact settled_withDefault h
  · exact .answer (by simp [Setting.AreVariables])

theorem settled_parametersOf (name : String) :
    s.Gives (s.AreVariables t) (parametersOf · (t.field? name)) := by
  cases hlist : t.field? name with
  | none => exact .answer (by simp [Setting.AreVariables])
  | some list =>
    refine (settled_mapM_all (Q := s.AreVariables t) fun x hx => ?_).bind
      fun lists hlists => .answer fun node hnode => ?_
    · have hx := (Tree.isBelow_of_named hx).trans (Tree.isBelow_of_field? hlist)
      exact (settled_parameter (h.below hx)).imp fun _ => h.areVariables hx
    · obtain ⟨nodes, hnodes, hnode⟩ := List.mem_flatten.1 hnode
      exact hlists nodes hnodes node hnode

theorem settled_argumentsOf {tree : Option Tree}
    (htree : ∀ x ∈ tree, x.IsBelow t) :
    s.Gives (fun nodes => ∀ node ∈ nodes, s.Suits t node) (argumentsOf · tree) := by
  cases tree with
  | none => exact .answer (by simp)
  | some list =>
    have hlist := htree list rfl
    unfold argumentsOf arguments
    dsimp only
    split
    · exact h.expressions fun x hx => (Tree.isBelow_of_named hx).trans hlist
    · refine (h.expression hlist).bind fun node hnode => ?_
      exact .answer (by simpa using hnode)

end

/-! ## Expressions -/

theorem settling_memberAccess : Settling memberAccess := by
  intro s t h
  refine (h.expressionField "object" h.absentBefore).bind fun receiver hreceiver => ?_
  exact h.gives rfl (by simp [hreceiver])

theorem settling_call : Settling call := by
  intro s t h
  refine (settled_argumentsOf h fun _ hx => Tree.isBelow_of_field? hx).bind fun nodes hnodes => ?_
  have hinvocation : ∀ (name : String) (receiver : Node), s.Suits t receiver →
      s.Suits t (nodeOf (.invocation name) t (receiver :: nodes)) := fun _ _ hreceiver =>
    h.node invocation_isLaidOut (by simpa [hreceiver] using hnodes)
  split
  · exact .answer (h.other hnodes)
  · rename_i function hfunction
    have hbelow := Tree.isBelow_of_field? hfunction
    have hfunction := h.below hbelow
    have habsent := h.widen hbelow hfunction.absentBefore
    split
    · refine (hfunction.expressionField "object" hfunction.absentBefore).bind
        fun receiver hreceiver => ?_
      exact .answer (hinvocation _ _ (h.widen hbelow hreceiver))
    · exact .answer (hinvocation _ _ habsent)
    · exact .answer (hinvocation _ _ habsent)

theorem settling_comparison : Settling comparison := by
  intro s t h
  have hnamed : ∀ x ∈ t.named, x.IsBelow t := fun _ hx => Tree.isBelow_of_named hx
  unfold comparison
  dsimp only
  split
  · rename_i left right _ hoperands _
    rw [hoperands] at hnamed
    refine (h.expression (hnamed left (by simp))).bind fun left hleft => ?_
    refine (h.expression (hnamed right (by simp))).bind fun right hright => ?_
    exact h.gives rfl (by simp [hleft, hright])
  · exact settling_otherExpression h

theorem settled_unary (h : Settles s t) (operator : String)
    {operand : Option Tree} (hoperand : ∀ x ∈ operand, x.IsBelow t) :
    s.Gives (s.Suits t) (unary operator operand · t) := by
  refine (h.expressionSlot hoperand h.absentAfter).bind fun node hnode => ?_
  exact h.gives rfl (by simp [hnode])

theorem settling_unaryField (operator : Tree → String) (name : String) :
    Settling fun calls tree => unary (operator tree) (tree.field? name) calls tree :=
  fun h => settled_unary h _ fun _ hx => Tree.isBelow_of_field? hx

theorem settling_unaryFirst (operator : String) :
    Settling fun calls tree => unary operator tree.named.head? calls tree :=
  fun h => settled_unary h _ fun _ hx => Tree.isBelow_of_named (List.mem_of_head? hx)

theorem settling_conditionalExpression : Settling conditionalExpression := by
  intro s t h
  have hnamed : ∀ x ∈ t.named, x.IsBelow t := fun _ hx => Tree.isBelow_of_named hx
  unfold conditionalExpression
  split
  · rename_i first test second hparts
    rw [hparts] at hnamed
    refine (h.expression (hnamed test (by simp))).bind fun test htest => ?_
    refine (h.expression (hnamed first (by simp))).bind fun first hfirst => ?_
    refine (h.expression (hnamed second (by simp))).bind fun second hsecond => ?_
    exact h.gives rfl (by simp [htest, hfirst, hsecond])
  · exact settling_otherExpression h

theorem settled_tupled (h : Settles s t) {fallback : Node} (htrees : trees.Sublist t.children)
    (hf : s.Suits t fallback) : s.Gives (s.Suits t) (tupled · trees fallback) := by
  have hbelow : ∀ x ∈ trees, x.IsBelow t := fun x hx => Tree.isBelow_of_mem (htrees.subset hx)
  unfold tupled
  split
  · exact .answer hf
  · exact h.expression (hbelow _ (by simp))
  · refine (settled_mapM fun x hx => (h.settledAt (hbelow x hx)).expression).bind
      fun nodes hnodes => ?_
    exact .answer (h.spanning rfl htrees (exists_of_forall₂ hnodes) fun _ => hf)

theorem settling_subscript : Settling subscript := by
  intro s t h
  refine (h.expressionField "value" h.absentBefore).bind fun value hvalue => ?_
  refine (settled_tupled h (List.filter_sublist.trans List.filter_sublist) h.absentAfter).bind
    fun index hindex => ?_
  exact h.gives rfl (by simp [hvalue, hindex])

theorem settling_collection (sort : CollectionSort) : Settling (collection sort) := by
  intro s t h
  refine h.namedExpressions.bind fun nodes hnodes => ?_
  exact .answer (h.collect rfl hnodes)

theorem settling_pair : Settling pair := by
  intro s t h
  refine (h.expressionField "key" h.absentBefore).bind fun key hkey => ?_
  refine (h.expressionField "value" h.absentAfter).bind fun value hvalue => ?_
  exact h.gives rfl (by simp [hkey, hvalue])

theorem settling_lambda : Settling lambda := by
  intro s t h
  refine (settled_parametersOf h "parameters").bind fun nodes hnodes => ?_
  refine (h.expressionField "body" h.absentAfter).bind fun body hbody => ?_
  refine h.gives (lambda_isLaidOut fun node hnode => (hnodes node hnode).2) ?_
  intro node hnode
  rcases List.mem_append.1 hnode with hnode | hnode
  · exact (hnodes node hnode).1
  · rwa [List.mem_singleton.1 hnode]

theorem settling_yielding : Settling yielding := by
  intro s t h
  refine (h.firstExpression h.absentAfter).bind fun value hvalue => ?_
  exact h.gives rfl (by simp [hvalue])

theorem settling_keywordArgument : Settling keywordArgument := by
  intro s t h
  refine (h.expressionField "value" h.absentAfter).bind fun value hvalue => ?_
  exact h.gives rfl (by simp [hvalue])

theorem settled_assignmentAt (h : Settles s t)
    (hx : x = t ∨ x.IsBelow t) :
    s.Gives (s.Suits t) (assignmentAt t.span · x) := by
  obtain ⟨hx, hwiden⟩ := h.inner hx
  refine (hx.expressionField "left" hx.absentBefore).bind fun target htarget => ?_
  refine (hx.typeField "type" fun hn => (htarget.within hn).endPoint).bind fun type htype => ?_
  refine (hx.expressionField "right" hx.absentAfter).bind fun value hvalue => ?_
  exact h.gives (by simp [Node.isLaidOut, NodeKind.layout, htype.2])
    (by simp [hwiden _ htarget, hwiden _ htype.1, hwiden _ hvalue])

theorem settling_assignment : Settling assignment :=
  fun h => settled_assignmentAt h (.inl rfl)

theorem settling_patternTarget : Settling patternTarget := by
  intro s t h
  unfold patternTarget
  split
  · rename_i inner hinner
    exact h.expression (Tree.isBelow_of_named (List.mem_of_head? hinner))
  · exact .answer (h.other (by simp))

theorem settling_typeRef : Settling typeRef :=
  fun h => (settled_typeRef h).imp fun _ hnode => hnode.1

theorem settling_expressionRules : ∀ entry ∈ expressionRules, Settling entry.2 := by
  have hnot : Settling fun calls tree => unary "not" (tree.field? "argument") calls tree :=
    settling_unaryField (fun _ => "not") _
  have hunary : Settling fun calls tree =>
      unary (tree.fieldText "operator") (tree.field? "argument") calls tree :=
    settling_unaryField (·.fieldText "operator") _
  simp only [expressionRules, List.forall_mem_cons, List.not_mem_nil, false_implies, implies_true,
    and_true, settling_nameNode, settling_literalNode, settling_memberAccess, settling_call,
    settling_binary, settling_comparison, settling_unaryFirst, settling_conditionalExpression,
    settling_subscript, settling_collection, settling_pair, settling_parenthesized,
    settling_lambda, settling_yielding, settling_keywordArgument, settling_assignment,
    settling_patternTarget, settling_typeRef, hnot, hunary]

theorem settling_expression : Settling expression := fun h =>
  settled_apply (fun entry hentry _ => settling_expressionRules entry hentry h)
    (settling_otherExpression h)

end CodeEvolution.Lowering.Python
