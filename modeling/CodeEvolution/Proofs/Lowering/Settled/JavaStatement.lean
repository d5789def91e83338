import CodeEvolution.Proofs.Lowering.JavaStatement
import CodeEvolution.Proofs.Lowering.Settled.JavaExpression
/-!
# Java declarations and statements from settled parts

The rules for declarations and statements settle their nodes. The grammar's name for a local class
stands apart: its rule calls for the declaration of the node itself.
-/
namespace CodeEvolution.Lowering.Java

open Syntax (Tree)

variable {anchor : Span} {s : Setting} {t x : Tree} {sources parts : List Tree} {nodes : List Node}

/-! ## Declarations -/

theorem isBelow_of_modifierList (h : x ∈ modifierList t) : x.IsBelow t := by
  unfold modifierList at h
  split at h
  · rename_i list hlist
    exact (Tree.isBelow_of_mem h).trans (Tree.isBelow_of_mem (List.mem_of_find?_eq_some hlist))
  · cases h

section

variable (h : Settles s t)

include h

theorem settled_decoratorArgument (hx : x.IsBelow t) :
    s.Gives (s.Suits t) (decoratorArgument · x) := by
  unfold decoratorArgument
  split
  · have hx' := h.below hx
    refine (hx'.expressionField "value" hx'.absentAfter).bind fun value hvalue => ?_
    exact .answer (h.widen hx (hx'.node rfl (by simp [hvalue])))
  · exact h.expression hx

theorem settled_decorator : s.Gives (s.SuitsAs t (·.isDecorator = true)) (decorator · t) := by
  unfold decorator
  cases hlist : t.field? "arguments" with
  | none => exact .answer ⟨h.node rfl (by simp), rfl⟩
  | some list =>
    refine (settled_mapM_all fun x hx => settled_decoratorArgument h
      ((Tree.isBelow_of_named hx).trans (Tree.isBelow_of_field? hlist))).bind fun nodes hnodes => ?_
    exact .answer ⟨h.collect rfl hnodes, rfl⟩

theorem settled_decorators : s.Gives (s.AreDecorators t) (decorators · t) := by
  refine settled_mapM_all fun x hx => ?_
  have hx := isBelow_of_modifierList (List.mem_filter.1 hx).1
  exact h.widenAs hx (settled_decorator (h.below hx))

end

theorem settling_packageDeclaration : Settling packageDeclaration :=
  fun h => .answer (h.collect rfl (by simp))

theorem settling_importing : Settling importing :=
  fun h => .answer (h.leaf (.inl rfl))

theorem isBelow_of_memberTrees (h : x ∈ memberTrees t) : x.IsBelow t := by
  obtain ⟨member, hmember, hx⟩ := List.mem_flatMap.1 h
  have hmember := Tree.isBelow_of_statements hmember
  split at hx
  · exact (Tree.isBelow_of_statements hx).trans hmember
  · rwa [List.mem_singleton.1 hx]

section

variable (h : Settles s t)

include h

variable (name : String)

theorem settled_typeBody : s.Gives (s.IsBlock t) (typeBody · (t.field? name) t.span.endPoint) := by
  cases hbody : t.field? name with
  | none =>
    exact .answer ⟨Node.suits_leaf (.inr rfl) fun hn => (h.within_self hn).endPoint, rfl⟩
  | some body =>
    have hbelow := Tree.isBelow_of_field? hbody
    have hbody := h.below hbelow
    refine (settled_mapM_all fun x hx => ?_).bind fun members hmembers =>
      .answer ⟨h.widen hbelow (hbody.collect rfl hmembers), rfl⟩
    have hx := isBelow_of_memberTrees hx
    exact (hbody.settledAt hx).declaration.imp fun node hnode => hbody.widen hx hnode

theorem settled_parametersOf : s.Gives (s.AreVariables t) (parametersOf · (t.field? name)) := by
  cases hlist : t.field? name with
  | none => exact .answer (by simp [Setting.AreVariables])
  | some list =>
    have hbelow := Tree.isBelow_of_field? hlist
    exact (settled_parameters (h.below hbelow)).imp fun _ => h.areVariables hbelow

theorem settled_components (sort : TypeSort) :
    s.Gives (s.AreVariables t) (components · t sort) := by
  cases sort with
  | recordType => exact settled_parametersOf h _
  | _ => exact .answer (by simp [Setting.AreVariables])

end

theorem settling_typeDeclaration (sort : TypeSort) : Settling (typeDeclaration sort) := by
  intro s t h
  rw [typeDeclaration_eq, typeDeclaration_eq]
  refine (settled_decorators h).bind fun decorators hdecorators => ?_
  refine (settled_components h sort).bind fun components hcomponents => ?_
  refine (settled_typeBody h "body").bind fun body hbody => ?_
  refine h.gives ?_ ?_
  · exact typeDeclaration_isLaidOut (fun node hnode => (hdecorators node hnode).2)
      (fun node hnode => (hcomponents node hnode).2) hbody.2
  · simp only [List.mem_append, List.mem_singleton]
    rintro node ((hnode | hnode) | rfl)
    · exact (hdecorators node hnode).1
    · exact (hcomponents node hnode).1
    · exact hbody.1

section

variable (h : Settles s t)

include h

theorem settled_block : s.Gives (s.IsBlock t) (block · t) :=
  h.statements.bind fun _ hnodes => .answer ⟨h.collect rfl hnodes, rfl⟩

theorem settled_parameterEnd (hn : s.nested) : (parameterEnd t).Within t.span := by
  unfold parameterEnd
  split
  · rename_i list hlist
    exact (h.within (Tree.isBelow_of_field? hlist) hn).endPoint
  · exact (h.within_self hn).endPoint

theorem settled_methodBody :
    s.Gives (s.SuitsAs t fun kind => kind = .block ∨ kind = .absent) fun calls =>
      fieldSlot (block calls) t "body" (absentAfter t) := by
  refine settled_slot (fun x hx => ?_) ⟨h.absentAfter, .inr rfl⟩
  have hx := Tree.isBelow_of_field? hx
  exact (settled_block (h.below hx)).imp fun _ hnode => ⟨h.widen hx hnode.1, .inl hnode.2⟩

end

theorem settling_method (isConstructor : Bool) : Settling (method isConstructor) := by
  intro s t h
  have hreturned : ∀ x ∈ (if isConstructor then none else t.field? "type"), x.IsBelow t := by
    intro x hx
    split at hx
    · cases hx
    · exact Tree.isBelow_of_field? hx
  rw [method_eq, method_eq]
  refine (settled_decorators h).bind fun decorators hdecorators => ?_
  refine (settled_parametersOf h "parameters").bind fun parameters hparameters => ?_
  refine (h.typeSlot hreturned (settled_parameterEnd h)).bind fun type htype => ?_
  refine (settled_methodBody h).bind fun body hbody => ?_
  refine h.gives ?_ ?_
  · exact methodDeclaration_isLaidOut (fun node hnode => (hdecorators node hnode).2)
      (fun node hnode => (hparameters node hnode).2) htype.2 hbody.2
  · simp only [List.mem_append, List.mem_cons, List.not_mem_nil, or_false]
    rintro node ((hnode | hnode) | rfl | rfl)
    · exact (hdecorators node hnode).1
    · exact (hparameters node hnode).1
    · exact htype.1
    · exact hbody.1

theorem settled_declarator (h : Settles s t) :
    s.Gives (s.SuitsAs t (·.isVariable = true)) (declarator · t) := by
  refine (h.expressionField "value" h.absentAfter).bind fun value hvalue => ?_
  exact .answer ⟨h.node (variable_isLaidOut rfl) (by simp [hvalue, h.absentBefore]), rfl⟩

theorem settling_variableDeclaration : Settling variableDeclaration := by
  intro s t h
  refine (h.typeField "type" fun hn => (h.within_self hn).startPoint).bind fun type htype => ?_
  refine (settled_mapM_all (Q := s.SuitsAs t (·.isVariable = true)) fun x hx => ?_).bind
    fun declarators hdeclarators => ?_
  · have hx := Tree.isBelow_of_namedOf hx
    exact h.widenAs hx (settled_declarator (h.below hx))
  · refine h.gives ?_ ?_
    · exact variableDeclaration_isLaidOut htype.2 fun node hnode => (hdeclarators node hnode).2
    · simpa [htype.1] using fun node hnode => (hdeclarators node hnode).1

theorem settling_enumConstant : Settling enumConstant := by
  intro s t h
  refine (settled_argumentsField h "arguments").bind fun nodes hnodes => ?_
  exact .answer (h.collect rfl hnodes)

theorem settling_declarationRules : ∀ entry ∈ declarationRules, Settling entry.2 := by
  simp only [declarationRules, List.forall_mem_cons, List.not_mem_nil, false_implies, implies_true,
    and_true, settling_packageDeclaration, settling_importing, settling_typeDeclaration,
    settling_variableDeclaration, settling_method, settling_enumConstant, settling_commentNode]

/-! ## Simple statements -/

section

variable (h : Settles s t)

include h

theorem settled_bodyAt {tree : Option Tree} (htree : ∀ x ∈ tree, x.IsBelow t)
    (hanchor : s.nested → anchor.Within t.span) : s.Gives (s.IsBlock t) (bodyAt · tree anchor) := by
  cases tree with
  | none => exact .answer ⟨Node.suits_leaf (.inr rfl) hanchor, rfl⟩
  | some body =>
    have hbelow := htree body rfl
    have hbody := h.below hbelow
    unfold bodyAt
    dsimp only
    split
    · exact h.widenAs hbelow (settled_block hbody)
    · refine (h.settledAt hbelow).statement.bind fun inner hinner =>
        .answer ⟨h.widen hbelow ?_, rfl⟩
      exact hbody.collect rfl (by simp [hinner.1])

theorem settled_bodyField (name : String) (hanchor : s.nested → anchor.Within t.span) :
    s.Gives (s.IsBlock t) (bodyAt · (t.field? name) anchor) :=
  settled_bodyAt h (fun _ hx => Tree.isBelow_of_field? hx) hanchor

theorem settled_condition : s.Gives (s.Suits t) (condition · t) := by
  unfold condition
  split
  · rename_i test htest
    have hbelow := Tree.isBelow_of_field? htest
    split
    · have htest := h.below hbelow
      exact (htest.firstExpression htest.absentAfter).imp fun _ hnode => h.widen hbelow hnode
    · exact h.expression hbelow
  · exact .answer h.absentBefore

end

theorem settling_expressionStatement : Settling expressionStatement := by
  intro s t h
  unfold expressionStatement
  split
  · exact .answer (h.other (by simp))
  · rename_i inner hinner
    have hbelow := Tree.isBelow_of_named (List.mem_of_head? hinner)
    split
    · exact settled_assignmentAt h (.inr hbelow)
    · refine (h.expression hbelow).bind fun node hnode => ?_
      exact h.gives rfl (by simp [hnode])

theorem settling_constructorCall : Settling constructorCall := by
  intro s t h
  refine (h.expressionField "object" h.absentBefore).bind fun receiver hreceiver => ?_
  refine (settled_argumentsField h "arguments").bind fun nodes hnodes => ?_
  refine h.gives rfl fun node hnode => ?_
  rw [List.mem_singleton.1 hnode]
  exact h.node invocation_isLaidOut (by simpa [hreceiver] using hnodes)

theorem settling_valueStatement {kind : NodeKind} (hlayout : kind.layout = [LayoutPart.any]) :
    Settling (valueStatement kind) := by
  intro s t h
  refine (h.firstExpression h.absentAfter).bind fun value hvalue => ?_
  exact h.gives (by rw [Node.isLaidOut, hlayout]; rfl) (by simp [hvalue])

theorem settling_throwing : Settling throwing := by
  intro s t h
  refine (h.firstExpression h.absentAfter).bind fun value hvalue => ?_
  exact h.gives rfl (by simp [hvalue, h.absentAfter])

theorem settling_synchronized : Settling synchronized := by
  intro s t h
  refine (h.expressionSlot (fun x hx => ?_) h.absentBefore).bind fun lock hlock => ?_
  · obtain ⟨inner, hinner, hx⟩ := Option.bind_eq_some_iff.1 hx
    exact (Tree.isBelow_of_named (List.mem_of_head? hx)).trans
      (Tree.isBelow_of_namedOf (List.mem_of_head? hinner))
  · refine (settled_bodyField h "body" fun hn => (h.within_self hn).endPoint).bind
      fun body hbody => ?_
    exact h.gives (by simp [Node.isLaidOut, NodeKind.layout, hbody.2])
      (by simp [hlock, hbody.1])

theorem settling_labelled : Settling labelled := by
  intro s t h
  unfold labelled
  split
  · rename_i inner hinner
    split
    · exact h.statement (Tree.isBelow_of_named (List.mem_of_getLast? hinner))
    · exact .answer (h.other (by simp))
  · exact .answer (h.other (by simp))

/-! ## Loops and branches -/

theorem settled_alternativeOf (h : Settles s t) {consequence : Span}
    (hanchor : s.nested → anchor.Within t.span)
    (hconsequence : s.nested → consequence.Within t.span) :
    s.Gives (s.IsBranch t) (alternativeOf · anchor consequence (t.field? "alternative")) := by
  cases halternative : t.field? "alternative" with
  | none => exact .answer ⟨Node.suits_absentAt hconsequence, .inr (.inr rfl)⟩
  | some alternative =>
    have hbelow := Tree.isBelow_of_field? halternative
    simp only [alternativeOf]
    split
    · rename_i hkind
      exact (h.settledAt hbelow).statement.imp fun node hnode =>
        ⟨h.widen hbelow hnode.1, .inr (.inl (hnode.2 (by simpa using hkind)))⟩
    · exact (settled_bodyAt h (by simpa using hbelow) hanchor).imp fun node hnode =>
        ⟨hnode.1, .inl hnode.2⟩

theorem settled_conditional (h : Settles s t) :
    s.Gives (s.SuitsAs t (· = .conditional)) (conditional · t) := by
  have hend (hn : s.nested) := (h.within_self hn).endPoint
  simp only [conditional_eq]
  refine (settled_condition h).bind fun test htest => ?_
  refine (settled_bodyField h "consequence" hend).bind fun consequence hconsequence => ?_
  refine (settled_alternativeOf h hend fun hn => (hconsequence.1.within hn).endPoint).bind
    fun alternative halternative => ?_
  exact .answer ⟨h.node (conditional_isLaidOut hconsequence.2 halternative.2)
    (by simp [htest, hconsequence.1, halternative.1]), rfl⟩

theorem settling_whileLoop : Settling whileLoop := by
  intro s t h
  have hend (hn : s.nested) := (h.within_self hn).endPoint
  refine (settled_condition h).bind fun test htest => ?_
  refine (settled_bodyField h "body" hend).bind fun body hbody => ?_
  exact h.gives (by simp [Node.isLaidOut, NodeKind.layout, hbody.2])
    (by simp [htest, hbody.1, hbody.1.absentAfter])

theorem settling_doLoop : Settling doLoop := by
  intro s t h
  have hstart (hn : s.nested) := (h.within_self hn).startPoint
  refine (settled_bodyField h "body" hstart).bind fun body hbody => ?_
  refine (settled_condition h).bind fun test htest => ?_
  exact h.gives (by simp [Node.isLaidOut, NodeKind.layout, hbody.2])
    (by simp [htest, hbody.1, h.absentAfter])

def loopSpan (type : Span) : Option Tree → Span
  | some name => type.through name.span
  | none => type

theorem forEach_eq (calls : Calls) (tree : Tree) :
    forEach calls tree = do
      let type ← fieldSlot calls.typeRef tree "type" (absentBefore tree)
      let span := loopSpan type.span (tree.field? "name")
      let iterable ← fieldSlot calls.expression tree "value" (Node.absentAt span.endPoint)
      let body ← bodyAt calls (tree.field? "body") tree.span.endPoint
      return nodeOf (.forLoop .each) tree
        [⟨.variable (tree.fieldText "name") .regular, span, [type, Node.absentAt span.endPoint]⟩,
          iterable, body, Node.absentAt body.span.endPoint] := by
  unfold forEach
  cases tree.field? "name" <;> rfl

/-- The type of a loop variable does not end after its name. -/
theorem settled_loopType (h : Settles s t)
    (hkind : t.kind = "enhanced_for_statement") :
    s.Gives (fun type => s.Suits t type ∧ type.kind.isTypeSlot = true ∧
        ∀ name ∈ t.field? "name", s.nested → type.span.endOffset ≤ name.span.endOffset)
          (fieldSlot ·.typeRef t "type" (absentBefore t)) := by
  have hname : ∀ name ∈ t.field? "name", s.nested → name.span.Within t.span := fun name hname =>
    h.within (Tree.isBelow_of_field? hname)
  refine settled_slot (fun x hx => ?_) ⟨h.absentBefore, rfl, fun name hmem hn => ?_⟩
  · have hbelow := Tree.isBelow_of_field? hx
    refine (h.settledAt hbelow).typeRef.imp fun type htype => ⟨h.widen hbelow htype.1, ?_, ?_⟩
    · rw [NodeKind.isTypeSlot, htype.2, Bool.true_or]
    · intro name hmem hn
      have hfirst := (Tree.isNested_iff.1 (h.isNested hn)).2.1
      simp only [Tree.typeFirst, Option.mem_def.1 hx, Option.mem_def.1 hmem, hkind,
        bne_self_eq_false, Bool.false_or, decide_eq_true_eq] at hfirst
      exact Nat.le_trans (htype.1.within hn).2.2 (Nat.le_trans hfirst (hname name hmem hn).2.1)
  · exact Nat.le_trans (hname name hmem hn).1 (hname name hmem hn).2.1

theorem within_loopSpan {type : Span} {name : Option Tree} (htype : type.Within t.span)
    (hname : ∀ x ∈ name, x.span.Within t.span)
    (hordered : ∀ x ∈ name, type.endOffset ≤ x.span.endOffset) :
    (loopSpan type name).Within t.span ∧ type.Within (loopSpan type name) := by
  cases name with
  | none => exact ⟨htype, .refl, htype.2.1, .refl⟩
  | some name =>
    have hordered := hordered name rfl
    exact ⟨htype.through (hname name rfl) (Nat.le_trans htype.2.1 hordered),
      .refl, htype.2.1, hordered⟩

theorem suits_loopVariable {name : String} {type : Node} {span : Span}
    (htype : s.Suits t type) (hslot : type.kind.isTypeSlot = true)
    (hspan : s.nested → span.Within t.span ∧ type.span.Within span) :
    s.Suits t ⟨.variable name .regular, span, [type, Node.absentAt span.endPoint]⟩ := by
  have hself (hn : s.nested) : span.endPoint.Within span := ⟨(hspan hn).1.2.1, .refl, .refl⟩
  have htype := htype.narrow fun hn => (hspan hn).2
  exact Node.suits_of_children (variable_isLaidOut hslot) (fun hn => (hspan hn).1)
    (by simp [htype, Node.suits_absentAt hself])

theorem settled_forEach (h : Settles s t)
    (hkind : t.kind = "enhanced_for_statement") :
    s.Gives (s.Suits t) (forEach · t) := by
  simp only [forEach_eq]
  refine (settled_loopType h hkind).bind fun type htype => ?_
  obtain ⟨htype, hslot, hordered⟩ := htype
  have hspan (hn : s.nested) := within_loopSpan (htype.within hn)
    (fun x hx => h.within (Tree.isBelow_of_field? hx) hn) fun x hx => hordered x hx hn
  have hanchor (hn : s.nested) := (hspan hn).1.endPoint
  refine (h.expressionField "value" (Node.suits_absentAt hanchor)).bind fun iterable hiterable => ?_
  refine (settled_bodyField h "body" fun hn => (h.within_self hn).endPoint).bind
    fun body hbody => ?_
  exact h.gives (by simp [Node.isLaidOut, NodeKind.layout, hbody.2])
    (by simp [suits_loopVariable htype hslot hspan, hiterable, hbody.1, hbody.1.absentAfter])

/-! ## Loops with three parts -/

theorem pairwise_span_of_forall₂
    (h : List.Forall₂ (fun x node => node.span.Within x.span) sources nodes)
    (hordered : sources.Pairwise fun x y => x.span.endOffset ≤ y.span.startOffset) :
    (nodes.map Node.span).Pairwise fun r s => r.endOffset ≤ s.startOffset := by
  induction h with
  | nil => exact .nil
  | @cons x node sources nodes hnode hnodes ih =>
    obtain ⟨hx, hordered⟩ := List.pairwise_cons.1 hordered
    refine .cons (List.forall_mem_map.2 fun other hother => ?_) (ih hordered)
    obtain ⟨y, hy, hwithin⟩ := exists_of_forall₂ hnodes other hother
    exact Nat.le_trans hnode.2.2 (Nat.le_trans (hx y hy) hwithin.1)

theorem suits_listOver (h : Settles s t) (hsources : sources.Sublist t.children)
    (hnodes : List.Forall₂ (fun x node => s.Suits x node) sources nodes)
    (hanchor : s.nested → anchor.Within t.span) : s.Suits t (listOver nodes anchor) := by
  have hsuits : ∀ node ∈ nodes, s.Suits t node := by
    intro node hnode
    obtain ⟨x, hx, hnode⟩ := exists_of_forall₂ hnodes node hnode
    exact h.widen (Tree.isBelow_of_mem (hsources.subset hx)) hnode
  unfold listOver
  split
  · rename_i first last hfirst hlast
    have hspans (hn : s.nested) := Span.within_through (t := t.span)
      (List.forall_mem_map.2 fun node hnode => (hsuits node hnode).within hn)
      (pairwise_span_of_forall₂ (hnodes.imp fun _ _ hnode => hnode.within hn)
        ((Tree.children_pairwise (h.isNested hn)).sublist hsources))
      (by rw [List.head?_map, hfirst, Option.map_some])
      (by rw [List.getLast?_map, hlast, Option.map_some])
    refine Node.suits_of_children (LayoutPart.admits_anyNumber _) (fun hn => (hspans hn).1) ?_
    intro node hnode
    exact (hsuits node hnode).narrow fun hn => (hspans hn).2 _ (List.mem_map_of_mem hnode)
  · exact Node.suits_leaf (.inr rfl) hanchor

theorem listOver_kind (nodes : List Node) (anchor : Span) :
    (listOver nodes anchor).kind = .expressionList := by
  unfold listOver
  split <;> rfl

theorem staged_sublist (stage : Nat) (trees : List Tree) :
    ((staged stage trees).map Prod.snd).Sublist trees := by
  induction trees generalizing stage with
  | nil => exact List.Sublist.refl _
  | cons tree rest ih =>
    rw [staged]
    repeat' split
    all_goals first | exact .cons _ (ih _) | exact (ih _).cons_cons _

theorem partsAt_sublist (test : Nat → Bool) (t : Tree) :
    ((partsAt test).select t).Sublist t.children :=
  (List.filter_sublist.map Prod.snd).trans (staged_sublist 0 t.children)

theorem settled_initNode (h : Settles s t) (hx : x.IsBelow t) :
    s.Gives (s.Suits x) (initNode · x) := by
  simp only [initNode]
  split
  · exact settling_variableDeclaration (h.below hx)
  · exact (h.settledAt hx).expression

theorem settling_forLoop : Settling forLoop := by
  intro s t h
  have hself (hn : s.nested) := h.within_self hn
  have hbelow {test : Nat → Bool} : ∀ x ∈ (partsAt test).select t, x.IsBelow t :=
    fun x hx => Tree.isBelow_of_mem ((partsAt_sublist test t).subset hx)
  have hanchor : ∀ found : Option Span, (∀ span ∈ found, span ∈ separators t) → s.nested →
      (found.getD t.span.startPoint).startPoint.Within t.span := by
    intro found hfound hn
    cases found with
    | none => exact (hself hn).startPoint.startPoint
    | some span =>
      obtain ⟨x, hx, rfl⟩ := List.mem_map.1 (hfound span rfl)
      exact (h.within (Tree.isBelow_of_mem (List.mem_filter.1 hx).1) hn).startPoint
  rw [forLoop_eq, forLoop_eq]
  refine (settled_mapM fun x hx => settled_initNode h (hbelow x hx)).bind fun init hinit => ?_
  refine (h.expressions hbelow).bind fun tests htests => ?_
  refine (settled_mapM fun x hx => (h.settledAt (hbelow x hx)).expression).bind
    fun updates hupdates => ?_
  refine (settled_bodyAt h (fun x hx => hbelow x (List.mem_of_getLast? hx))
    fun hn => (hself hn).endPoint).bind fun body hbody => ?_
  have hinit := suits_listOver h (partsAt_sublist _ t) hinit
    (hanchor (separators t).head? fun _ => List.mem_of_head?)
  have hupdate := suits_listOver h (partsAt_sublist _ t) hupdates
    (hanchor (separators t).getLast? fun _ => List.mem_of_getLast?)
  have htest : s.Suits t (tests.getLast?.getD
      (Node.absentAt ((separators t)[1]?.getD t.span.startPoint).startPoint)) := by
    cases htest : tests.getLast? with
    | none => exact Node.suits_absentAt (hanchor _ fun _ => List.mem_of_getElem?)
    | some test => exact htests test (List.mem_of_getLast? htest)
  exact h.gives (by
    simp [Node.isLaidOut, NodeKind.layout, headNodes, listOver_kind, hbody.2])
    (by simp [headNodes, hinit, htest, hupdate, hbody.1])

/-! ## Switches -/

theorem sublist_of_filter_statements (test : Tree → Bool) :
    (t.statements.filter test).Sublist t.children :=
  List.filter_sublist.trans List.filter_sublist

section

variable (h : Settles s t)

include h

theorem settled_groupBody (hparts : parts.Sublist t.children) :
    s.Gives (s.IsBlock t) (groupBody · t parts) := by
  have hbelow : ∀ x ∈ parts, x.IsBelow t := fun x hx => Tree.isBelow_of_mem (hparts.subset hx)
  refine (settled_mapM fun x hx => (h.settledAt (hbelow x hx)).statement).bind
    fun inner hinner => ?_
  have hend (hn : s.nested) := (h.within_self hn).endPoint
  refine .answer ⟨h.spanning rfl hparts (fun node hnode => ?_)
    fun _ => Node.suits_leaf (.inr rfl) hend, spanning_kind rfl⟩
  obtain ⟨x, hx, hnode⟩ := exists_of_forall₂ hinner node hnode
  exact ⟨x, hx, hnode.1⟩

theorem settled_caseBody (hparts : parts.Sublist t.children) :
    s.Gives (s.IsBlock t) (caseBody · t parts) := by
  unfold caseBody
  split
  · split
    · rename_i single _
      have hsingle : single.IsBelow t := Tree.isBelow_of_mem (hparts.subset (by simp))
      exact h.widenAs hsingle (settled_block (h.below hsingle))
    · exact settled_groupBody h hparts
  · exact settled_groupBody h hparts

theorem settled_caseClause : s.Gives (s.SuitsAs t (·.isCase = true)) (caseClause · t) := by
  have hlabels : (labels.select t).Sublist t.children := sublist_of_filter_statements _
  have hparts : (groupParts.select t).Sublist t.children := sublist_of_filter_statements _
  have hpattern : ∀ x ∈ (labels.select t).flatMap Tree.named,
      s.Gives (fun node => ∃ label ∈ labels.select t, s.Suits label node) (·.expression x) := by
    intro x hx
    obtain ⟨label, hlabel, hx⟩ := List.mem_flatMap.1 hx
    have hlabelled := h.below (Tree.isBelow_of_mem (hlabels.subset hlabel))
    exact (hlabelled.expression (Tree.isBelow_of_named hx)).imp fun _ hnode =>
      ⟨label, hlabel, hnode⟩
  simp only [caseClause_eq]
  refine (settled_mapM_all hpattern).bind fun patterns hpatterns => ?_
  have hlist : s.Suits t (spanning .expressionList (labels.select t) patterns
      ⟨.expressionList, t.span.startPoint, patterns⟩) := by
    refine h.spanning rfl hlabels hpatterns fun hnone => ?_
    -- without labels there are no patterns
    rw [hnone] at hpatterns
    have hpatterns : patterns = [] := List.eq_nil_iff_forall_not_mem.2 fun node hnode => by
      simpa using hpatterns node hnode
    rw [hpatterns]
    exact Node.suits_leaf (.inr rfl) fun hn => (h.within_self hn).startPoint
  refine (settled_caseBody h hparts).bind fun body hbody => ?_
  refine .answer ⟨h.node ?_ (by simp [hlist, hlist.absentAfter, hbody.1]), rfl⟩
  simp [Node.isLaidOut, NodeKind.layout, spanning_kind, hbody.2]

end

theorem settling_switching : Settling switching := by
  intro s t h
  have hgroups : ∀ x ∈ (match t.field? "body" with
      | some body => body.named.filter isSwitchGroup
      | none => []), x.IsBelow t := by
    intro x hx
    split at hx
    · rename_i body hbody
      exact (Tree.isBelow_of_named (List.mem_filter.1 hx).1).trans (Tree.isBelow_of_field? hbody)
    · cases hx
  refine (settled_condition h).bind fun subject hsubject => ?_
  refine (settled_mapM_all (Q := s.SuitsAs t (·.isCase = true))
    fun x hx => ?_).bind fun clauses hclauses => ?_
  · exact (settled_caseClause (h.below (hgroups x hx))).imp fun _ hnode =>
      ⟨h.widen (hgroups x hx) hnode.1, hnode.2⟩
  · refine h.gives (switch_isLaidOut fun node hnode => (hclauses node hnode).2) ?_
    simpa [hsubject] using fun node hnode => (hclauses node hnode).1

/-! ## Exceptions -/

section

variable (h : Settles s t)

include h

theorem settled_resource : s.Gives (s.Suits t) (resource · t) := by
  unfold resource
  split
  · refine (h.typeField "type" fun hn => (h.within_self hn).startPoint).bind fun type htype => ?_
    refine (h.expressionField "value" h.absentAfter).bind fun value hvalue => ?_
    exact h.gives (variable_isLaidOut htype.2) (by simp [htype.1, hvalue])
  · exact h.firstExpression (h.other (by simp))

theorem settled_resourcesOf (hanchor : s.nested → anchor.Within t.span) :
    s.Gives (s.SuitsAs t (· = .expressionList)) (resourcesOf · anchor (t.field? "resources")) := by
  cases hlist : t.field? "resources" with
  | none =>
    exact .answer ⟨Node.suits_leaf (.inr rfl) fun hn => (hanchor hn).startPoint, rfl⟩
  | some list =>
    have hbelow := Tree.isBelow_of_field? hlist
    have hlist := h.below hbelow
    refine (settled_mapM_all (Q := s.Suits list) fun x hx => ?_).bind
      fun nodes hnodes => .answer ⟨h.widen hbelow (hlist.collect rfl hnodes), rfl⟩
    have hx := Tree.isBelow_of_named hx
    exact (settled_resource (hlist.below hx)).imp fun _ hnode => hlist.widen hx hnode

theorem settled_catchClause : s.Gives (s.SuitsAs t (· = .catchClause)) (catchClause · t) := by
  have hbody := settled_bodyField h "body" fun hn => (h.within_self hn).endPoint
  unfold catchClause
  dsimp only
  cases hparameter : (t.namedOf "catch_formal_parameter").head? with
  | none =>
    refine hbody.bind fun body hbody => ?_
    have hlist : s.Suits t (emptyList t.span.startPoint) :=
      Node.suits_leaf (.inr rfl) fun hn => (h.within_self hn).startPoint
    exact .answer ⟨h.node (by simp [Node.isLaidOut, NodeKind.layout, hbody.2])
      (by simp [hlist, h.absentBefore, hbody.1]), rfl⟩
  | some parameter =>
    have hbelow := Tree.isBelow_of_namedOf (List.mem_of_head? hparameter)
    have hparameter := h.below hbelow
    have htypes : ∀ x ∈ (parameter.namedOf "catch_type").flatMap Tree.named,
        x.IsBelow parameter := by
      intro x hx
      obtain ⟨list, hlist, hx⟩ := List.mem_flatMap.1 hx
      exact (Tree.isBelow_of_named hx).trans (Tree.isBelow_of_namedOf hlist)
    have hname : s.Suits t (((parameter.field? "name").map nameNode).getD
        (absentAfter parameter)) := by
      cases hname : parameter.field? "name" with
      | none => exact h.widen hbelow hparameter.absentAfter
      | some name =>
        have hname := (Tree.isBelow_of_field? hname).trans hbelow
        exact h.widen hname ((h.below hname).leaf (.inl rfl))
    simp only [pure_bind]
    refine (hparameter.typeRefs htypes).bind fun types htypes => ?_
    refine hbody.bind fun body hbody => ?_
    have hlist : s.Suits t (nodeOf .expressionList parameter types) :=
      h.widen hbelow (hparameter.collect rfl fun node hnode => (htypes node hnode).1)
    exact .answer ⟨h.node (by simp [Node.isLaidOut, NodeKind.layout, hbody.2])
      (by simp [hlist, hname, hbody.1]), rfl⟩

theorem settled_finallyClause : s.Gives (s.SuitsAs t (· = .finallyClause)) (finallyClause · t) := by
  have hblock : ∀ x ∈ (t.namedOf "block").head?, x.IsBelow t := fun _ hx =>
    Tree.isBelow_of_namedOf (List.mem_of_head? hx)
  refine (settled_bodyAt h hblock fun hn => (h.within_self hn).endPoint).bind fun body hbody => ?_
  exact .answer ⟨h.node (by simp [Node.isLaidOut, NodeKind.layout, hbody.2]) (by simp [hbody.1]),
    rfl⟩

end

theorem settling_tryStatement : Settling tryStatement := by
  intro s t h
  have hresources : s.nested → (((t.field? "body").map Tree.span).getD t.span).Within t.span := by
    intro hn
    cases hbody : t.field? "body" with
    | none => exact h.within_self hn
    | some body => exact h.within (Tree.isBelow_of_field? hbody) hn
  rw [tryStatement_eq, tryStatement_eq]
  refine (settled_resourcesOf h hresources).bind fun resources hresources => ?_
  refine (settled_bodyField h "body" fun hn => (h.within_self hn).endPoint).bind
    fun body hbody => ?_
  refine (settled_mapM_all (Q := s.SuitsAs t (· = .catchClause)) fun x hx => ?_).bind
    fun catches hcatches => ?_
  · have hx := Tree.isBelow_of_namedOf hx
    exact h.widenAs hx (settled_catchClause (h.below hx))
  · have hanchor := clauses_within hbody hcatches
    exact settled_cleanup hbody hcatches h hresources ⟨Node.suits_absentAt hanchor, .inr rfl⟩
      (fun x hx => settled_finallyClause (h.below hx)) hanchor

/-! ## Entry points -/

/-- The grammar's name for a local class: the rule for statements and the one for declarations
hand it to each other. -/
def localClass : String := "local_class_declaration"

section

variable (h : Settles s t)

include h

theorem settled_statementRules
    (hlocal : t.kind ≠ localClass) : ∀ entry ∈ statementRules, entry.1 = t.kind →
      s.Gives (s.Suits t) (entry.2 · t) := by
  have hlocal : "local_class_declaration" ≠ t.kind := fun hkind => hlocal hkind.symm
  simp only [statementRules, List.forall_mem_cons, List.not_mem_nil, false_implies, implies_true,
    and_true, hlocal, true_and]
  exact ⟨fun _ => settling_variableDeclaration h, fun _ => settling_expressionStatement h,
    fun _ => settling_constructorCall h, fun _ => (settled_block h).imp fun _ hnode => hnode.1,
    fun _ => (settled_conditional h).imp fun _ hnode => hnode.1, fun _ => settling_whileLoop h,
    fun _ => settling_doLoop h, fun _ => settling_forLoop h,
    fun hkind => settled_forEach h hkind.symm,
    fun _ => settling_switching h, fun _ => settling_switching h, fun _ => settling_tryStatement h,
    fun _ => settling_tryStatement h, fun _ => settling_valueStatement rfl h,
    fun _ => settling_throwing h, fun _ => settling_asserting h,
    fun _ => settling_valueStatement rfl h, fun _ => settling_breakStatement h,
    fun _ => settling_continueStatement h, fun _ => settling_synchronized h,
    fun _ => settling_labelled h, fun _ => settling_typeDeclaration _ h,
    fun _ => settling_typeDeclaration _ h, fun _ => settling_typeDeclaration _ h,
    fun _ => settling_typeDeclaration _ h, fun _ => settling_commentNode h,
    fun _ => settling_commentNode h⟩

theorem settled_statement (hlocal : t.kind ≠ localClass) :
    s.Gives (s.IsStatement t) (statement · t) := by
  refine settled_conditionalOr (fun hif calls => ?_) (settled_conditional h)
    (settled_apply (settled_statementRules h hlocal) (.answer (h.other (by simp))))
  rw [statement, RuleTable.apply, hif]
  rfl

theorem settled_declaration (hlocal : t.kind ≠ localClass) :
    s.Gives (s.Suits t) (declaration · t) :=
  settled_apply (fun entry hentry _ => settling_declarationRules entry hentry h)
    ((settled_statement h hlocal).imp fun _ hnode => hnode.1)

end

theorem statement_localClass (h : t.kind = localClass) :
    statement calls t = calls.declaration t := by
  rw [statement, RuleTable.apply, h]
  rfl

theorem declaration_localClass (h : t.kind = localClass) :
    declaration calls t = calls.declaration t := by
  rw [← statement_localClass h, declaration, RuleTable.apply, h]
  rfl

/-- However long the chain of calls may be, a local class has no answer. -/
theorem tie_localClass (bound : Nat) (h : t.kind = localClass) :
    (tie step bound).statement t = none ∧ (tie step bound).declaration t = none := by
  induction bound with
  | zero => exact ⟨rfl, rfl⟩
  | succ bound ih =>
    exact ⟨(statement_localClass h).trans ih.2, (declaration_localClass h).trans ih.2⟩

theorem settledAt_tie {silent nested : Prop} {bound bound' : Nat}
    (hlocal : t.kind = localClass → silent)
    (h : Settles ⟨silent, nested, tie step bound, tie step bound'⟩ t) :
    SettledAt ⟨silent, nested, tie step (bound + 1), tie step (bound' + 1)⟩ t := by
  by_cases hkind : t.kind = localClass
  · have hanswers (bound : Nat) := tie_localClass bound hkind
    refine ⟨settling_expression h, ?_, settled_typeRef h, ?_⟩
    · simp only [Setting.Gives, hanswers]
      exact .silence (hlocal hkind)
    · simp only [Setting.Gives, hanswers]
      exact .silence (hlocal hkind)
  · exact ⟨settling_expression h, settled_statement h hkind, settled_typeRef h,
      settled_declaration h hkind⟩

end CodeEvolution.Lowering.Java
