import CodeEvolution.Proofs.Lowering.PythonStatement
import CodeEvolution.Proofs.Lowering.Settled.PythonExpression
/-!
# Python statements from settled parts

The rules for statements and definitions settle their nodes.
-/
namespace CodeEvolution.Lowering.Python

open Syntax (Tree)

variable {anchor : Span} {s : Setting} {t x : Tree} {tree : Option Tree} {outer : Span}
  {decorators : List Node}

/-! ## Simple statements -/

theorem settled_blockAt (h : Settles s t) (htree : ∀ x ∈ tree, x.IsBelow t)
    (hanchor : s.nested → anchor.Within t.span) :
    s.Gives (s.IsBlock t) (blockAt · tree anchor) := by
  cases tree with
  | none => exact .answer ⟨Node.suits_leaf (.inr rfl) hanchor, rfl⟩
  | some block =>
    have hbelow := htree block rfl
    have hblock := h.below hbelow
    refine hblock.statements.bind fun nodes hnodes => ?_
    exact .answer ⟨h.widen hbelow (hblock.collect rfl hnodes), rfl⟩

theorem settled_blockField (h : Settles s t) (name : String) :
    s.Gives (s.IsBlock t) (blockAt · (t.field? name) t.span.endPoint) :=
  settled_blockAt h (fun _ hx => Tree.isBelow_of_field? hx) fun hn => (h.within_self hn).endPoint

theorem isBelow_of_blockIn (h : x ∈ blockIn t) : x.IsBelow t :=
  Tree.isBelow_of_namedOf (List.mem_of_head? h)

theorem settling_returning : Settling returning := by
  intro s t h
  refine (settled_tupled h List.filter_sublist h.absentAfter).bind fun value hvalue => ?_
  exact h.gives rfl (by simp [hvalue])

theorem settling_deleting : Settling deleting := by
  intro s t h
  refine (h.expressions fun x hx => ?_).bind fun nodes hnodes => .answer (h.collect rfl hnodes)
  obtain ⟨target, htarget, hx⟩ := List.mem_flatMap.1 hx
  have htarget := Tree.isBelow_of_named htarget
  split at hx
  · exact (Tree.isBelow_of_named hx).trans htarget
  · rwa [List.mem_singleton.1 hx]

theorem settling_expressionStatement : Settling expressionStatement := by
  intro s t h
  unfold expressionStatement
  split
  · rename_i single hparts
    have hbelow : single.IsBelow t := Tree.isBelow_of_named (by simp [hparts])
    split
    · exact settled_assignmentAt h (.inr hbelow)
    · exact settled_assignmentAt h (.inr hbelow)
    · exact h.expression hbelow
    · refine (h.expression hbelow).bind fun node hnode => ?_
      exact h.gives rfl (by simp [hnode])
  · refine h.namedExpressions.bind fun nodes hnodes => ?_
    have htuple : s.Suits t (nodeOf (.collection .tuple) t nodes) := h.collect rfl hnodes
    exact h.gives rfl (by simp [htuple])

theorem settling_raising : Settling raising := by
  intro s t h
  refine (h.expressionSlot (fun x hx => ?_) h.absentAfter).bind fun exception hexception => ?_
  · exact Tree.isBelow_of_named (List.mem_of_find?_eq_some hx)
  · refine (h.expressionField "cause" h.absentAfter).bind fun cause hcause => ?_
    exact h.gives rfl (by simp [hexception, hcause])

theorem settling_importing : Settling importing :=
  fun h => .answer (h.leaf (.inl rfl))

/-! ## Conditionals and loops -/

def chainSpan (first : Tree) (rest : List Tree) : Span :=
  first.span.through ((rest.getLast?.map Tree.span).getD first.span)

theorem within_chainSpan {first : Tree} {rest : List Tree}
    (hwithin : ∀ x ∈ first :: rest, x.span.Within outer)
    (hordered : (first :: rest).Pairwise fun x y => x.span.endOffset ≤ y.span.startOffset) :
    (chainSpan first rest).Within outer ∧
      ∀ x ∈ first :: rest, x.span.Within (chainSpan first rest) := by
  have hlast : ((first :: rest).map Tree.span).getLast? =
      some ((rest.getLast?.map Tree.span).getD first.span) := by
    rw [List.map_cons, List.getLast?_cons, List.getLast?_map]
  have hspans := Span.within_through (List.forall_mem_map.2 hwithin) (List.pairwise_map.2 hordered)
    rfl hlast
  exact ⟨hspans.1, List.forall_mem_map.1 hspans.2⟩

section

variable (h : Settles s t)

include h

/-- A chain of clauses lies wherever its clauses and its anchor do. -/
theorem settled_elseChain {clauses : List Tree} (hclauses : clauses.Sublist t.children)
    (houter : s.nested → ∀ x ∈ clauses, x.span.Within outer)
    (hanchor : s.nested → anchor.Within outer) :
    s.Gives (fun node => node.Suits s.nested outer ∧
      (node.kind = .block ∨ node.kind = .conditional ∨ node.kind = .absent))
      (elseChain · anchor clauses) := by
  induction clauses generalizing anchor outer with
  | nil => exact .answer ⟨Node.suits_absentAt hanchor, .inr (.inr rfl)⟩
  | cons first rest ih =>
    have hfirst := h.below (Tree.isBelow_of_mem (hclauses.subset (List.mem_cons_self ..)))
    simp only [elseChain]
    split
    · have hin (hn : s.nested) := houter hn first (List.mem_cons_self ..)
      exact (settled_blockField hfirst "body").imp fun node hnode =>
        ⟨hnode.1.mono hin, .inl hnode.2⟩
    · -- the conditional reaches from its own clause to the last one
      have hspan (hn : s.nested) := within_chainSpan (houter hn)
        ((Tree.children_pairwise (h.isNested hn)).sublist hclauses)
      have hin (hn : s.nested) := (hspan hn).2 first (List.mem_cons_self ..)
      refine (hfirst.expressionField "condition" hfirst.absentBefore).bind fun test htest => ?_
      refine (settled_blockField hfirst "consequence").bind fun consequence hconsequence => ?_
      have hconsequence := And.intro (hconsequence.1.mono hin) hconsequence.2
      refine (ih ((List.sublist_cons_self ..).trans hclauses)
        (fun hn x hx => (hspan hn).2 x (List.mem_cons_of_mem _ hx))
        fun hn => (hconsequence.1.within hn).endPoint).bind fun alternative halternative => ?_
      have hnode : Node.Suits s.nested outer
          ⟨.conditional, chainSpan first rest, [test, consequence, alternative]⟩ :=
        Node.suits_of_children (conditional_isLaidOut hconsequence.2 halternative.2)
          (fun hn => (hspan hn).1) (by simp [htest.mono hin, hconsequence.1, halternative.1])
      exact .answer ⟨hnode, .inr (.inl rfl)⟩

theorem settled_conditional : s.Gives (s.SuitsAs t (· = .conditional)) (conditional · t) := by
  refine (h.expressionField "condition" h.absentBefore).bind fun test htest => ?_
  refine (settled_blockField h "consequence").bind fun consequence hconsequence => ?_
  have hclauses : (t.named.filter fun child => child.kind == "elif_clause" ||
      child.kind == "else_clause").Sublist t.children :=
    List.filter_sublist.trans List.filter_sublist
  refine (settled_elseChain h hclauses
    (fun hn x hx => h.within (Tree.isBelow_of_mem (hclauses.subset hx)) hn)
    fun hn => (hconsequence.1.within hn).endPoint).bind fun alternative halternative => ?_
  exact .answer ⟨h.node (conditional_isLaidOut hconsequence.2 halternative.2)
    (by simp [htest, hconsequence.1, halternative.1]), rfl⟩

theorem settled_elseClause : s.Gives (s.SuitsAs t (· = .elseClause)) (elseClause · t) := by
  have hbody : ∀ x ∈ (t.field? "body").or (blockIn t), x.IsBelow t := by
    intro x hx
    rcases Option.or_eq_some_iff.1 hx with hx | ⟨_, hx⟩
    · exact Tree.isBelow_of_field? hx
    · exact isBelow_of_blockIn hx
  refine (settled_blockAt h hbody fun hn => (h.within_self hn).endPoint).bind fun body hbody => ?_
  exact .answer ⟨h.node (by simp [Node.isLaidOut, NodeKind.layout, hbody.2]) (by simp [hbody.1]),
    rfl⟩

theorem settled_elseSlot (htree : ∀ x ∈ tree, x.IsBelow t)
    (hanchor : s.nested → anchor.Within t.span) :
    s.Gives (s.SuitsAs t fun kind => kind = .elseClause ∨ kind = .absent) (fun calls =>
      slot (elseClause calls) tree (Node.absentAt anchor)) := by
  refine settled_slot (fun x hx => ?_) ⟨Node.suits_absentAt hanchor, .inr rfl⟩
  exact (settled_elseClause (h.below (htree x hx))).imp fun _ hnode =>
    ⟨h.widen (htree x hx) hnode.1, .inl hnode.2⟩

end

theorem settling_whileLoop : Settling whileLoop := by
  intro s t h
  refine (h.expressionField "condition" h.absentBefore).bind fun test htest => ?_
  refine (settled_blockField h "body").bind fun body hbody => ?_
  refine (settled_elseSlot h (fun _ hx => Tree.isBelow_of_field? hx)
    fun hn => (hbody.1.within hn).endPoint).bind fun alternative halternative => ?_
  exact h.gives (by simp [Node.isLaidOut, NodeKind.layout, hbody.2, halternative.2])
    (by simp [htest, hbody.1, halternative.1])

theorem suits_wrapAsync (h : Settles s t) {node : Node}
    (hnode : s.Suits t node) : s.Suits t (wrapAsync t node) := by
  unfold wrapAsync
  split
  · exact h.node rfl (by simp [hnode])
  · exact hnode

theorem settling_forLoop : Settling forLoop := by
  intro s t h
  refine (h.expressionField "left" h.absentBefore).bind fun target htarget => ?_
  refine (h.expressionField "right" htarget.absentAfter).bind fun iterable hiterable => ?_
  refine (settled_blockField h "body").bind fun body hbody => ?_
  refine (settled_elseSlot h (fun _ hx => Tree.isBelow_of_field? hx)
    fun hn => (hbody.1.within hn).endPoint).bind fun alternative halternative => ?_
  refine .answer (suits_wrapAsync h (h.node ?_ ?_))
  · simp [Node.isLaidOut, NodeKind.layout, hbody.2, halternative.2]
  · simp [htarget, hiterable, hbody.1, halternative.1]

/-! ## Exceptions and contexts -/

theorem settled_aliasTarget (h : Settles s t) (hx : x.IsBelow t) :
    s.Gives (s.Suits t) (aliasTarget · x) := by
  unfold aliasTarget
  split
  · split
    · rename_i inner hinner
      exact h.expression ((Tree.isBelow_of_named (List.mem_of_head? hinner)).trans hx)
    · exact h.expression hx
  · exact h.expression hx

theorem isBelow_of_alias {value : Tree}
    (hx : x ∈ (value.field? "alias").or value.named[1]?) : x.IsBelow value := by
  rcases Option.or_eq_some_iff.1 hx with hx | ⟨_, hx⟩
  · exact Tree.isBelow_of_field? hx
  · exact Tree.isBelow_of_named (List.mem_of_getElem? hx)

theorem isBelow_of_exceptionHead {heads : List Tree} (hheads : ∀ x ∈ heads, x.IsBelow t) :
    (∀ x ∈ (exceptionHead heads).1, x.IsBelow t) ∧ ∀ x ∈ (exceptionHead heads).2, x.IsBelow t := by
  unfold exceptionHead
  split
  · simp
  · rename_i single
    have hsingle := hheads single (by simp)
    split
    · exact ⟨fun x hx => (Tree.isBelow_of_named (List.mem_of_getElem? hx)).trans hsingle,
        fun x hx => (isBelow_of_alias hx).trans hsingle⟩
    · exact ⟨by simpa using hsingle, by simp⟩
  · rename_i exception shown _
    exact ⟨by simpa using hheads exception (by simp), by simpa using hheads shown (by simp)⟩

theorem isBelow_of_exceptionTypes (h : x ∈ exceptionTypes t) : x = t ∨ x.IsBelow t := by
  unfold exceptionTypes at h
  split at h
  · obtain ⟨item, hitem, hx⟩ := List.mem_flatMap.1 h
    have hitem := Tree.isBelow_of_named hitem
    split at hx
    · exact .inr ((Tree.isBelow_of_named hx).trans hitem)
    · rw [List.mem_singleton.1 hx]
      exact .inr hitem
  · exact .inl (List.mem_singleton.1 h)

section

variable (h : Settles s t)

include h

theorem settled_typesOf {exception : Option Tree} (hexception : ∀ x ∈ exception, x.IsBelow t)
    (hanchor : s.nested → anchor.Within t.span) :
    s.Gives (s.SuitsAs t (· = .expressionList)) (typesOf · anchor exception) := by
  cases exception with
  | none => exact .answer ⟨Node.suits_leaf (.inr rfl) hanchor, rfl⟩
  | some exception =>
    have hbelow := hexception exception rfl
    have hexception := h.below hbelow
    refine (settled_mapM_all (Q := s.Suits exception) fun x hx => ?_).bind
      fun nodes hnodes => .answer ⟨h.widen hbelow (hexception.collect rfl hnodes), rfl⟩
    rcases isBelow_of_exceptionTypes hx with rfl | hx
    · exact (h.settledAt hbelow).expression
    · exact hexception.expression hx

theorem settled_catchClause : s.Gives (s.SuitsAs t (· = .catchClause)) (catchClause · t) := by
  have hheads : ∀ x ∈ t.named.filter fun child => child.kind != "block", x.IsBelow t := fun x hx =>
    Tree.isBelow_of_named (List.mem_filter.1 hx).1
  obtain ⟨hexception, hshown⟩ := isBelow_of_exceptionHead hheads
  have hself (hn : s.nested) := h.within_self hn
  simp only [catchClause_eq]
  refine (settled_typesOf h hexception fun hn => (hself hn).startPoint).bind fun types htypes => ?_
  refine (settled_slot (fun x hx => settled_aliasTarget h (hshown x hx))
    htypes.1.absentAfter).bind fun name hname => ?_
  refine (settled_blockAt h (fun _ hx => isBelow_of_blockIn hx)
    fun hn => (hself hn).endPoint).bind fun body hbody => ?_
  exact .answer ⟨h.node (by simp [Node.isLaidOut, NodeKind.layout, htypes.2, hbody.2])
    (by simp [htypes.1, hname, hbody.1]), rfl⟩

theorem settled_finallyClause : s.Gives (s.SuitsAs t (· = .finallyClause)) (finallyClause · t) := by
  refine (settled_blockAt h (fun _ hx => isBelow_of_blockIn hx)
    fun hn => (h.within_self hn).endPoint).bind fun body hbody => ?_
  exact .answer ⟨h.node (by simp [Node.isLaidOut, NodeKind.layout, hbody.2]) (by simp [hbody.1]),
    rfl⟩

end

theorem settling_tryStatement : Settling tryStatement := by
  intro s t h
  refine (settled_blockField h "body").bind fun body hbody => ?_
  refine (settled_mapM_all (Q := s.SuitsAs t (· = .catchClause)) fun x hx => ?_).bind
    fun catches hcatches => ?_
  · have hx := Tree.isBelow_of_named (List.mem_filter.1 hx).1
    exact h.widenAs hx (settled_catchClause (h.below hx))
  · have hresources : s.Suits t (emptyList body.span.startPoint) :=
      Node.suits_leaf (.inr rfl) fun hn => (hbody.1.within hn).startPoint
    refine (settled_elseSlot h (fun x hx => Tree.isBelow_of_namedOf (List.mem_of_getLast? hx))
      (clauses_within hbody hcatches)).bind fun alternative halternative => ?_
    exact settled_cleanup hbody hcatches h ⟨hresources, rfl⟩ halternative
      (fun x hx => settled_finallyClause (h.below hx))
      fun hn => (halternative.1.within hn).endPoint

theorem isBelow_of_withItem {value : Tree}
    (hvalue : (t.field? "value").or t.named.head? = some value) : value.IsBelow t := by
  rcases Option.or_eq_some_iff.1 hvalue with hvalue | ⟨_, hvalue⟩
  · exact Tree.isBelow_of_field? hvalue
  · exact Tree.isBelow_of_named (List.mem_of_head? hvalue)

theorem settled_withItem (h : Settles s t) :
    s.Gives (s.SuitsAs t (· = .withItem)) (withItem · t) := by
  unfold withItem
  split
  · exact .answer ⟨h.node rfl (by simp [h.absentBefore, h.absentAfter]), rfl⟩
  · rename_i value hvalue
    have hbelow := isBelow_of_withItem hvalue
    have hvalue := h.below hbelow
    have habsent := h.widen hbelow hvalue.absentAfter
    split
    · refine (hvalue.nthExpression 0 hvalue.absentBefore).bind fun context hcontext => ?_
      refine (settled_slot (fun x hx => settled_aliasTarget hvalue (isBelow_of_alias hx))
        hvalue.absentAfter).bind fun shown hshown => ?_
      exact .answer ⟨h.node rfl (by simp [h.widen hbelow hcontext, h.widen hbelow hshown]), rfl⟩
    · refine (h.expression hbelow).bind fun context hcontext => ?_
      exact .answer ⟨h.node rfl (by simp [hcontext, habsent]), rfl⟩

theorem settling_withStatement : Settling withStatement := by
  intro s t h
  refine (settled_mapM_all (Q := s.SuitsAs t (· = .withItem)) fun x hx => ?_).bind
    fun items hitems => ?_
  · obtain ⟨clause, hclause, hx⟩ := List.mem_flatMap.1 hx
    have hx := (Tree.isBelow_of_namedOf hx).trans (Tree.isBelow_of_namedOf hclause)
    exact h.widenAs hx (settled_withItem (h.below hx))
  · refine (settled_blockField h "body").bind fun body hbody => ?_
    refine .answer (suits_wrapAsync h (h.node ?_ ?_))
    · exact withStatement_isLaidOut (fun node hnode => (hitems node hnode).2) hbody.2
    · intro node hnode
      rcases List.mem_append.1 hnode with hnode | hnode
      · exact (hitems node hnode).1
      · rw [List.mem_singleton.1 hnode]
        exact hbody.1

/-! ## Matches -/

theorem settled_casePattern (h : Settles s t) : s.Gives (s.Suits t) (casePattern · t) := by
  unfold casePattern
  split
  · rename_i inner hinner
    exact h.expression (Tree.isBelow_of_named (by simp [hinner]))
  · exact .answer (h.other (by simp))

theorem settled_caseClause (h : Settles s t) :
    s.Gives (s.SuitsAs t (·.isCase = true)) (caseClause · t) := by
  have hpatterns : (t.namedOf "case_pattern").Sublist t.children :=
    List.filter_sublist.trans List.filter_sublist
  have hguard : ∀ x ∈ (t.field? "guard").bind fun clause => clause.named.head?, x.IsBelow t := by
    intro x hx
    obtain ⟨clause, hclause, hx⟩ := Option.bind_eq_some_iff.1 hx
    exact (Tree.isBelow_of_named (List.mem_of_head? hx)).trans (Tree.isBelow_of_field? hclause)
  refine (settled_mapM fun x hx => settled_casePattern
    (h.below (Tree.isBelow_of_namedOf hx))).bind fun patterns hnodes => ?_
  have hlist : s.Suits t (spanning .expressionList (t.namedOf "case_pattern") patterns
      (emptyList t.span.startPoint)) :=
    h.spanning rfl hpatterns (exists_of_forall₂ hnodes)
      fun _ => Node.suits_leaf (.inr rfl) fun hn => (h.within_self hn).startPoint
  refine (h.expressionSlot hguard hlist.absentAfter).bind fun guard hguard => ?_
  refine (settled_blockField h "consequence").bind fun body hbody => ?_
  refine .answer ⟨h.node ?_ (by simp [hlist, hguard, hbody.1]), rfl⟩
  have hkind : (spanning .expressionList (t.namedOf "case_pattern") patterns
    (emptyList t.span.startPoint)).kind = .expressionList := spanning_kind rfl
  simp [Node.isLaidOut, NodeKind.layout, hkind, hbody.2]

theorem settling_matching : Settling matching := by
  intro s t h
  refine (h.expressionField "subject" h.absentBefore).bind fun subject hsubject => ?_
  refine (settled_mapM_all (Q := s.SuitsAs t (·.isCase = true))
    fun x hx => ?_).bind fun clauses hclauses => ?_
  · have hx : x.IsBelow t := by
      split at hx
      · rename_i body hbody
        exact (Tree.isBelow_of_namedOf hx).trans (Tree.isBelow_of_field? hbody)
      · cases hx
    exact h.widenAs hx (settled_caseClause (h.below hx))
  · refine h.gives (switch_isLaidOut fun node hnode => (hclauses node hnode).2) ?_
    simpa [hsubject] using fun node hnode => (hclauses node hnode).1

/-! ## Definitions -/

section

variable (h : Settles s t)

include h

theorem settled_decorator : s.Gives (s.SuitsAs t (·.isDecorator = true)) (decorator · t) := by
  have hleaf : ∀ name : String, s.Suits t (nodeOf (.decorator name) t []) := fun _ =>
    h.leaf (.inr rfl)
  unfold decorator
  split
  · exact .answer ⟨hleaf _, rfl⟩
  · rename_i expression hexpression
    have hbelow := Tree.isBelow_of_named (List.mem_of_head? hexpression)
    split
    · refine (settled_argumentsOf h fun x hx =>
        (Tree.isBelow_of_field? hx).trans hbelow).bind fun nodes hnodes => ?_
      exact .answer ⟨h.collect rfl hnodes, rfl⟩
    · exact .answer ⟨hleaf _, rfl⟩

theorem settled_functionAt (hdecorators : s.AreDecorators t decorators) (hx : x = t ∨ x.IsBelow t) :
    s.Gives (s.Suits t) (functionAt decorators t.span · x) := by
  obtain ⟨hx, hwiden⟩ := h.inner hx
  refine (settled_parametersOf hx "parameters").bind fun parameters hparameters => ?_
  refine (hx.typeField "return_type" fun hn => ?_).bind fun type htype => ?_
  · split
    · rename_i list hlist
      exact (hx.within (Tree.isBelow_of_field? hlist) hn).endPoint
    · exact (hx.within_self hn).startPoint
  refine (settled_blockField hx "body").bind fun body hbody => ?_
  refine h.gives ?_ ?_
  · exact methodDeclaration_isLaidOut (fun node hnode => (hdecorators node hnode).2)
      (fun node hnode => (hparameters node hnode).2) htype.2 (.inl hbody.2)
  · simp only [List.mem_append, List.mem_cons, List.not_mem_nil, or_false]
    rintro node ((hnode | hnode) | rfl | rfl)
    · exact (hdecorators node hnode).1
    · exact hwiden _ (hparameters node hnode).1
    · exact hwiden _ htype.1
    · exact hwiden _ hbody.1

theorem settled_classAt (hdecorators : s.AreDecorators t decorators) (hx : x = t ∨ x.IsBelow t) :
    s.Gives (s.Suits t) (classAt decorators t.span · x) := by
  obtain ⟨hx, hwiden⟩ := h.inner hx
  refine (settled_blockField hx "body").bind fun body hbody => ?_
  refine h.gives ?_ ?_
  · rw [← List.append_nil decorators]
    exact typeDeclaration_isLaidOut (fun node hnode => (hdecorators node hnode).2) (by simp) hbody.2
  · intro node hnode
    rcases List.mem_append.1 hnode with hnode | hnode
    · exact (hdecorators node hnode).1
    · rw [List.mem_singleton.1 hnode]
      exact hwiden _ hbody.1

end

theorem settling_decorated : Settling decorated := by
  intro s t h
  refine (settled_mapM_all (Q := s.SuitsAs t (·.isDecorator = true)) fun x hx => ?_).bind
    fun decorators hdecorators => ?_
  · have hx := Tree.isBelow_of_namedOf hx
    exact h.widenAs hx (settled_decorator (h.below hx))
  · have hother := h.other fun node hnode => (hdecorators node hnode).1
    split
    · rename_i definition hdefinition
      have hbelow := Tree.isBelow_of_field? hdefinition
      split
      · exact settled_functionAt h hdecorators (.inr hbelow)
      · split
        · exact settled_classAt h hdecorators (.inr hbelow)
        · exact .answer hother
    · exact .answer hother

/-! ## Entry points -/

theorem settling_statementRules : ∀ entry ∈ statementRules, Settling entry.2 := by
  have hpass : Settling fun _ tree => some (nodeOf .pass tree []) :=
    settling_leaf (fun _ => .pass) fun _ => rfl
  have hglobal : Settling fun _ tree =>
      some (nodeOf (.globalNames (tree.named.map Tree.text)) tree []) :=
    settling_leaf (fun tree => .globalNames (tree.named.map Tree.text)) fun _ => rfl
  have hnonlocal : Settling fun _ tree =>
      some (nodeOf (.nonlocalNames (tree.named.map Tree.text)) tree []) :=
    settling_leaf (fun tree => .nonlocalNames (tree.named.map Tree.text)) fun _ => rfl
  have hconditional : Settling conditional := fun h =>
    (settled_conditional h).imp fun _ hnode => hnode.1
  have hfunction : Settling fun calls tree => functionAt [] tree.span calls tree := fun h =>
    settled_functionAt h (by simp [Setting.AreDecorators]) (.inl rfl)
  have hclass : Settling fun calls tree => classAt [] tree.span calls tree := fun h =>
    settled_classAt h (by simp [Setting.AreDecorators]) (.inl rfl)
  simp only [statementRules, List.forall_mem_cons, List.not_mem_nil, false_implies, implies_true,
    and_true, settling_expressionStatement, settling_returning, settling_breakStatement,
    settling_continueStatement, settling_whileLoop, settling_forLoop, settling_tryStatement,
    settling_withStatement, settling_raising, settling_asserting, settling_deleting,
    settling_importing, settling_decorated, settling_matching, settling_commentNode, hpass,
    hglobal, hnonlocal, hconditional, hfunction, hclass]

theorem settled_statement (h : Settles s t) : s.Gives (s.IsStatement t) (statement · t) := by
  refine settled_conditionalOr (fun hif calls => ?_) (settled_conditional h)
    (settled_apply (fun entry hentry _ => settling_statementRules entry hentry h)
      (settling_otherExpression h))
  rw [statement, RuleTable.apply, hif]
  rfl

theorem settledAt_tie {silent nested : Prop} {bound bound' : Nat}
    (h : Settles ⟨silent, nested, tie step bound, tie step bound'⟩ t) :
    SettledAt ⟨silent, nested, tie step (bound + 1), tie step (bound' + 1)⟩ t :=
  ⟨settling_expression h, settled_statement h, settled_typeRef h,
    (settled_statement h).imp fun _ hnode => hnode.1⟩

end CodeEvolution.Lowering.Python
