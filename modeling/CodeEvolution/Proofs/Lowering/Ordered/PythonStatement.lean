import CodeEvolution.Proofs.Lowering.Ordered.PythonExpression
import CodeEvolution.Proofs.Lowering.Settled.PythonStatement
/-!
# Python statements from parts in order

The rules for statements and definitions build tidy nodes. Of a `raise` that names a cause but no
exception the empty slot stands behind the cause.
-/
namespace CodeEvolution.Lowering.Python

open Syntax (Tree)
open Node (Row)

variable {tree : Option Tree} {calls : Calls} {t x : Tree} {start stop cut : Nat} {name : String}
  {decorators : List Node} {span : Span}

/-! ## Simple statements -/

theorem row_blockAt (h : Orders .python calls t) {anchor : Span}
    (horder : Tree.inOrder start stop tree.toList = true) (htree : ∀ x ∈ tree, x.IsBelow t)
    (hf : tree = none → Row .python start stop [Node.leaf .block anchor]) :
    YieldsIn .python start stop (blockAt calls tree anchor) := by
  cases tree with
  | none => exact .answer (hf rfl)
  | some block =>
    have hbounds := Tree.bounds_of_inOrder horder (by simp : block ∈ (some block).toList)
    refine (h.below (htree block rfl)).statements.bind fun nodes hnodes => ?_
    exact .answer (Node.row_of_children rfl hbounds.1 hbounds.2.2 hnodes)

theorem row_endBlock (hstart : start ≤ t.span.endOffset) :
    Row .python start t.span.endOffset [Node.leaf .block t.span.endPoint] :=
  Node.row_leaf .refl hstart .refl

section

variable (h : Orders .python calls t)

include h

theorem row_lastBlock (horder : Tree.inOrder start t.span.endOffset tree.toList = true)
    (htree : ∀ x ∈ tree, x.IsBelow t) :
    YieldsIn .python start t.span.endOffset (blockAt calls tree t.span.endPoint) :=
  row_blockAt h horder htree fun _ => row_endBlock (Tree.le_of_inOrder horder)

theorem row_blockField
    (horder : Tree.inOrder start t.span.endOffset ((Path.field name).select t) = true) :
    YieldsIn .python start t.span.endOffset (blockAt calls (t.field? name) t.span.endPoint) :=
  row_lastBlock h horder fun _ hx => Tree.isBelow_of_field? hx

theorem row_requiredBlock (hfield : t.field? name ≠ none)
    (horder : Tree.inOrder start stop ((Path.field name).select t) = true) :
    YieldsIn .python start stop (blockAt calls (t.field? name) t.span.endPoint) :=
  row_blockAt h horder (fun _ hx => Tree.isBelow_of_field? hx) (absurd · hfield)

theorem fits_onlyBlock (htree : ∀ x ∈ tree, x.IsBelow t) {kind : NodeKind}
    (hkind : kind.isReordered = false) :
    Yields (Fits .python t.span) (do return nodeOf kind t [← blockAt calls tree t.span.endPoint]) :=
  (row_lastBlock h (Tree.inOrder_of_isBelow h.isNested htree) htree).bind fun _ hbody =>
    yields_node hkind hbody

theorem fits_returning : Yields (Fits .python t.span) (returning calls t) :=
  (row_tupled h (Tree.inOrder_named h.isNested) (fun _ hx => Tree.isBelow_of_named hx)
    h.absentAfter).bind fun _ hvalue => yields_node rfl hvalue

theorem fits_asserting : Yields (Fits .python t.span) (asserting calls t) :=
  h.firstTwo rfl

theorem fits_deleting : Yields (Fits .python t.span) (deleting calls t) := by
  have hnested : ∀ target ∈ t.named, target.isNested = true := fun target htarget =>
    ((Tree.isBelow_of_named htarget).isNested_and_within h.isNested).1
  refine (h.expressions (Tree.inOrder_flatMap (Tree.inOrder_named h.isNested)
    fun target htarget => ?_) fun x hx => ?_).bind fun _ hnodes => yields_node rfl hnodes
  · have hnested := hnested target htarget
    split
    · exact Tree.inOrder_named hnested
    · exact Tree.inOrder_singleton.2 (Tree.within_self hnested)
  · obtain ⟨target, htarget, hx⟩ := List.mem_flatMap.1 hx
    have htarget := Tree.isBelow_of_named htarget
    split at hx
    · exact (Tree.isBelow_of_named hx).trans htarget
    · rwa [List.mem_singleton.1 hx]

theorem fits_expressionStatement : Yields (Fits .python t.span) (expressionStatement calls t) := by
  unfold expressionStatement
  split
  · rename_i single hparts
    have hbelow : single.IsBelow t := Tree.isBelow_of_named (by simp [hparts])
    have hsingle := h.below hbelow
    have hwithin := (hbelow.isNested_and_within h.isNested).2
    split
    · rename_i hkind
      exact fits_assignmentAt hsingle hwithin (hsingle.parts hkind.symm rfl)
    · rename_i hkind
      exact fits_assignmentAt hsingle hwithin (hsingle.parts hkind.symm rfl)
    · exact (h.expression hbelow).imp fun _ hnode => h.widen hbelow hnode
    · exact (h.expression hbelow).bind fun _ hnode => yields_node rfl (h.widen hbelow hnode)
  · refine h.namedExpressions.bind fun nodes hnodes => ?_
    have htuple : Fits .python t.span (nodeOf (.collection .tuple) t nodes) := fits_node rfl hnodes
    exact yields_node rfl htuple

theorem fits_raising (hparts : AllParts t [Path.besides "cause", Path.field "cause"]) :
    Yields (Fits .python t.span) (raising calls t) := by
  obtain ⟨cut, hexception, hcause⟩ := hparts.cut
  have hcause := h.expressionField hcause.last fun _ => row_absentAfter (Tree.le_of_inOrder hcause)
  unfold raising
  dsimp only
  rw [← List.head?_filter]
  cases hfirst : (t.named.filter fun child => !child.sameRangeAs (t.field? "cause")).head? with
  | some exception =>
    have hmem := List.mem_of_head? hfirst
    have hbounds := Tree.bounds_of_inOrder hexception hmem
    refine (h.expression (Tree.isBelow_of_named (List.mem_filter.1 hmem).1)).bind
      fun node hnode => hcause.bind fun cause hcause => ?_
    exact yields_node rfl ((row_of_fits hnode hbounds.1 hbounds.2.2).append hcause)
  | none =>
    refine hcause.bind fun cause hcause => .answer ?_
    have hcause := (hcause.bounds (List.mem_singleton_self cause)).2.2.2
    have habsent := (Row.bounds h.absentAfter (List.mem_singleton_self _)).2.2.2
    exact h.straying rfl (List.pairwise_pair.2 (Node.le_or_isLate rfl rfl))
      (by simpa using ⟨habsent, hcause⟩)

end

/-! ## Conditionals and loops -/

theorem row_elseChain (h : Orders .python calls t) {clauses : List Tree}
    (hclauses : ∀ x ∈ clauses, x.IsBelow t ∧ (x.kind = "elif_clause" ∨ x.kind = "else_clause"))
    (horder : Tree.inOrder cut stop clauses = true) {block : Span}
    (hblock : block.endOffset ≤ cut) :
    YieldsIn .python block.endOffset stop (elseChain calls block.endPoint clauses) := by
  induction clauses generalizing block cut stop with
  | nil =>
    have hle := Tree.le_of_inOrder horder
    exact .answer (Node.row_absentAt rfl .refl (Nat.le_trans hblock hle))
  | cons first rest ih =>
    obtain ⟨hbelow, hkind⟩ := hclauses first (List.mem_cons_self ..)
    have hfirst := h.below hbelow
    rw [Tree.inOrder_cons] at horder
    have hstop := Tree.le_of_inOrder horder.2.2
    rw [elseChain]
    split
    · refine (row_blockField hfirst (Tree.inOrder_of_isBelow hfirst.isNested
        fun _ hx => Tree.isBelow_of_field? hx)).imp fun node hnode => ?_
      exact hnode.mono (by omega) hstop
    · rename_i helse
      have hkind := (hkind.resolve_right (by simpa using helse)).symm
      obtain ⟨middle, htest, hconsequence⟩ := (hfirst.parts hkind rfl).cut
      -- the conditional reaches from its own clause to the last one
      have hlast : Tree.inOrder first.span.endOffset
          ((rest.getLast?.map Tree.span).getD first.span).endOffset rest = true ∧
          ((rest.getLast?.map Tree.span).getD first.span).endOffset ≤ stop := by
        cases hlast : rest.getLast? with
        | none =>
          rw [List.getLast?_eq_none_iff.1 hlast]
          exact ⟨by simp [Tree.inOrder], hstop⟩
        | some last => exact Tree.inOrder_upToLast horder.2.2 hlast
      refine (hfirst.expressionField htest fun _ =>
        row_absentBefore (Tree.le_of_inOrder htest)).bind fun test htest => ?_
      refine (row_blockField hfirst hconsequence.last).bind fun consequence hconsequence => ?_
      refine (ih (fun x hx => hclauses x (List.mem_cons_of_mem _ hx)) hlast.1
        (hconsequence.bounds (List.mem_singleton_self _)).2.2.1).bind
          fun alternative halternative => .answer ?_
      exact Node.row_of_children rfl (Nat.le_trans hblock horder.1) hlast.2
        (htest.append ((hconsequence.upToLast rfl).append halternative))

theorem fits_conditional (h : Orders .python calls t) (hkind : "if_statement" = t.kind) :
    Yields (Fits .python t.span) (conditional calls t) := by
  obtain ⟨cut, htest, hparts⟩ := (h.parts hkind rfl).cut
  obtain ⟨cut', hconsequence, hclauses⟩ := hparts.cut
  refine (h.expressionField htest fun _ => row_absentBefore (Tree.le_of_inOrder htest)).bind
    fun test htest => ?_
  refine (row_requiredBlock h (h.field?_ne_none hkind rfl (by simp)) hconsequence).bind
    fun consequence hconsequence => ?_
  refine (row_elseChain h (fun x hx => ?_) hclauses.last
    (hconsequence.bounds (List.mem_singleton_self _)).2.2.1).bind fun alternative halternative => ?_
  · obtain ⟨hx, hkind⟩ := List.mem_filter.1 hx
    exact ⟨Tree.isBelow_of_named hx, by simpa using hkind⟩
  · exact yields_node rfl (htest.append ((hconsequence.upToLast rfl).append halternative))

theorem isBelow_of_clauseBody (hx : x ∈ (t.field? "body").or (blockIn t)) : x.IsBelow t := by
  rcases Option.or_eq_some_iff.1 hx with hx | ⟨_, hx⟩
  · exact Tree.isBelow_of_field? hx
  · exact isBelow_of_blockIn hx

theorem fits_elseClause (h : Orders .python calls t) :
    Yields (Fits .python t.span) (elseClause calls t) :=
  fits_onlyBlock h (fun _ hx => isBelow_of_clauseBody hx) rfl

theorem fits_whileLoop (h : Orders .python calls t) (hkind : "while_statement" = t.kind) :
    Yields (Fits .python t.span) (whileLoop calls t) := by
  obtain ⟨cut, htest, hparts⟩ := (h.parts hkind rfl).cut
  obtain ⟨cut', hbody, halternative⟩ := hparts.cut
  refine (h.expressionField htest fun _ => row_absentBefore (Tree.le_of_inOrder htest)).bind
    fun test htest => ?_
  refine (row_requiredBlock h (h.field?_ne_none hkind rfl (by simp)) hbody).bind
    fun body hbody => ?_
  refine (row_slotAfter (htest.append hbody) rfl halternative.last fun x hx =>
    fits_elseClause (h.below (Tree.isBelow_of_field? hx))).bind fun alternative halternative => ?_
  exact yields_node rfl halternative

theorem fits_wrapAsync {node : Node} (hnode : Fits .python t.span node) :
    Fits .python t.span (wrapAsync t node) := by
  unfold wrapAsync
  split
  · exact fits_node rfl hnode
  · exact hnode

theorem fits_forLoop (h : Orders .python calls t) (hkind : "for_statement" = t.kind) :
    Yields (Fits .python t.span) (forLoop calls t) := by
  obtain ⟨_, htarget, hparts⟩ := (h.parts hkind rfl).cut
  obtain ⟨_, hiterable, hparts⟩ := hparts.cut
  obtain ⟨_, hbody, halternative⟩ := hparts.cut
  refine (h.expressionField htarget fun _ => row_absentBefore (Tree.le_of_inOrder htarget)).bind
    fun target htarget => ?_
  refine (row_slotAfter htarget rfl hiterable fun x hx =>
    h.expression (Tree.isBelow_of_field? hx)).bind fun iterable hiterable => ?_
  refine (row_requiredBlock h (h.field?_ne_none hkind rfl (by simp)) hbody).bind
    fun body hbody => ?_
  refine (row_slotAfter (hiterable.append hbody) rfl halternative.last fun x hx =>
    fits_elseClause (h.below (Tree.isBelow_of_field? hx))).bind fun alternative halternative => ?_
  exact .answer (fits_wrapAsync (fits_node rfl halternative))

/-! ## Exceptions and contexts -/

section

variable (h : Orders .python calls t)

include h

theorem fits_aliasTarget (hx : x.IsBelow t) :
    Yields (Fits .python x.span) (aliasTarget calls x) := by
  unfold aliasTarget
  split
  · split
    · rename_i inner hinner
      have hbelow := Tree.isBelow_of_named (List.mem_of_head? hinner)
      exact ((h.below hx).expression hbelow).imp fun _ hnode => (h.below hx).widen hbelow hnode
    · exact h.expression hx
  · exact h.expression hx

theorem inOrder_asPattern (hkind : "as_pattern" = t.kind) :
    ∃ cut, Tree.inOrder t.span.startOffset cut t.named[0]?.toList = true ∧
      Tree.inOrder cut t.span.endOffset ((t.field? "alias").or t.named[1]?).toList = true := by
  cases halias : t.field? "alias" with
  | some target =>
    obtain ⟨cut, hfirst, htarget⟩ := (h.parts hkind rfl).cut
    refine ⟨cut, by rw [← List.head?_eq_getElem?]; exact hfirst, ?_⟩
    have htarget := htarget.last
    rwa [show (Path.field "alias").select t = (t.field? "alias").toList from rfl, halias] at htarget
  | none =>
    have horder := Tree.inOrder_named h.isNested
    generalize t.named = named at horder ⊢
    rcases named with _ | ⟨first, rest⟩
    · exact ⟨t.span.endOffset, horder, by simp [Tree.inOrder]⟩
    · rw [Tree.inOrder_cons] at horder
      refine ⟨first.span.endOffset, Tree.inOrder_singleton.2 ⟨horder.1, horder.2.1, .refl⟩, ?_⟩
      refine Tree.inOrder_sublist ?_ horder.2.2
      cases rest <;> simp

theorem inOrder_exceptionHead {heads : List Tree}
    (hheads : ∀ x ∈ heads, x.IsBelow t) (horder : Tree.inOrder start stop heads = true) :
    ∃ cut, Tree.inOrder start cut (exceptionHead heads).1.toList = true ∧
      Tree.inOrder cut stop (exceptionHead heads).2.toList = true := by
  unfold exceptionHead
  split
  · exact ⟨start, by simp [Tree.inOrder], horder⟩
  · rename_i single
    have hsingle := h.below (hheads single (by simp))
    have hbounds := Tree.inOrder_singleton.1 horder
    split
    · rename_i hkind
      obtain ⟨cut, hfirst, htarget⟩ := inOrder_asPattern hsingle (beq_iff_eq.1 hkind).symm
      exact ⟨cut, Tree.inOrder_mono hfirst hbounds.1 .refl,
        Tree.inOrder_mono htarget .refl hbounds.2.2⟩
    · exact ⟨stop, horder, by simp [Tree.inOrder]⟩
  · rename_i exception shown rest
    rw [Tree.inOrder_cons, Tree.inOrder_cons] at horder
    exact ⟨exception.span.endOffset,
      Tree.inOrder_singleton.2 ⟨horder.1, horder.2.1, .refl⟩,
      Tree.inOrder_singleton.2 ⟨horder.2.2.1, horder.2.2.2.1, Tree.le_of_inOrder horder.2.2.2.2⟩⟩

end

theorem inOrder_exceptionTypes (h : t.isNested = true) :
    Tree.inOrder t.span.startOffset t.span.endOffset (exceptionTypes t) = true := by
  unfold exceptionTypes
  split
  · refine Tree.inOrder_flatMap (Tree.inOrder_named h) fun item hitem => ?_
    have hitem := ((Tree.isBelow_of_named hitem).isNested_and_within h).1
    split
    · exact Tree.inOrder_named hitem
    · exact Tree.inOrder_singleton.2 (Tree.within_self hitem)
  · exact Tree.inOrder_singleton.2 (Tree.within_self h)

section

variable (h : Orders .python calls t)

include h

theorem row_typesOf {exception : Option Tree}
    (horder : Tree.inOrder t.span.startOffset stop exception.toList = true)
    (hexception : ∀ x ∈ exception, x.IsBelow t) :
    YieldsIn .python t.span.startOffset stop (typesOf calls t.span.startPoint exception) := by
  cases exception with
  | none =>
    exact .answer (Node.row_leaf .refl .refl (Tree.le_of_inOrder horder))
  | some exception =>
    have hbelow := hexception exception rfl
    have hbounds := Tree.inOrder_singleton.1 horder
    refine (h.expressions (inOrder_exceptionTypes (h.below hbelow).isNested) fun x hx => ?_).bind
      fun nodes hnodes => .answer (row_of_fits (fits_node rfl hnodes) hbounds.1 hbounds.2.2)
    rcases isBelow_of_exceptionTypes hx with rfl | hx
    · exact hbelow
    · exact hx.trans hbelow

theorem fits_catchClause
    (hparts : AllParts t [Path.named.having (· != "block"), Path.namedOf "block"]) :
    Yields (Fits .python t.span) (catchClause calls t) := by
  obtain ⟨cut, hheads, hblocks⟩ := hparts.cut
  have hbelow : ∀ x ∈ t.named.filter fun child => child.kind != "block", x.IsBelow t :=
    fun x hx => Tree.isBelow_of_named (List.mem_filter.1 hx).1
  obtain ⟨hexception, hshown⟩ := isBelow_of_exceptionHead hbelow
  obtain ⟨_, htypes, hname⟩ := inOrder_exceptionHead h hbelow hheads
  have hblock : Tree.inOrder cut t.span.endOffset (blockIn t).toList = true :=
    Tree.inOrder_head? hblocks.last
  rw [catchClause_eq]
  refine (row_typesOf h htypes hexception).bind fun types htypes => ?_
  refine (row_slotAfter htypes rfl hname fun x hx => fits_aliasTarget h (hshown x hx)).bind
    fun name hname => ?_
  refine (row_lastBlock h hblock fun _ hx => isBelow_of_blockIn hx).bind fun body hbody => ?_
  exact yields_node rfl (hname.append hbody)

theorem fits_finallyClause : Yields (Fits .python t.span) (finallyClause calls t) :=
  fits_onlyBlock h (fun _ hx => isBelow_of_blockIn hx) rfl

theorem fits_tryStatement (hkind : "try_statement" = t.kind) :
    Yields (Fits .python t.span) (tryStatement calls t) := by
  obtain ⟨_, hbody, hparts⟩ := (h.parts hkind rfl).cut
  obtain ⟨_, hcatches, hparts⟩ := hparts.cut
  obtain ⟨_, halternative, hcleanup⟩ := hparts.cut
  have hcatch : ∀ x ∈ t.named.filter isExceptClause,
      Yields (Fits .python x.span) (catchClause calls x) := by
    intro x hx
    obtain ⟨hx, hkind⟩ := List.mem_filter.1 hx
    have hx := h.below (Tree.isBelow_of_named hx)
    rcases Bool.or_eq_true_iff.1 hkind with hkind | hkind
    · exact fits_catchClause hx (hx.parts (beq_iff_eq.1 hkind).symm rfl)
    · exact fits_catchClause hx (hx.parts (beq_iff_eq.1 hkind).symm rfl)
  have hclause {kind : String} : ∀ x ∈ (t.namedOf kind).getLast?, x.IsBelow t := fun _ hx =>
    Tree.isBelow_of_namedOf (List.mem_of_getLast? hx)
  refine (row_requiredBlock h (h.field?_ne_none hkind rfl (by simp)) hbody).bind
    fun body hbody => ?_
  refine (row_mapM hcatches hcatch).bind fun catches hcatches => ?_
  have hlast : (body :: catches).getLast? = some (catches.getLast?.getD body) := List.getLast?_cons
  rw [Option.getD_map]
  refine (row_slotAfter (hbody.append hcatches) hlast (Tree.inOrder_getLast? halternative)
    fun x hx => fits_elseClause (h.below (hclause x hx))).bind fun alternative halternative => ?_
  refine (row_slotAfter halternative List.getLast?_concat (Tree.inOrder_getLast? hcleanup.last)
    fun x hx => fits_finallyClause (h.below (hclause x hx))).bind fun cleanup hcleanup => ?_
  exact yields_node rfl (by simpa [emptyList] using hcleanup.leafBefore)

theorem fits_withItem : Yields (Fits .python t.span) (withItem calls t) := by
  unfold withItem
  split
  · exact yields_node rfl (Row.append h.absentBefore (row_absentAfter .refl))
  · rename_i value hvalue
    have hbelow := isBelow_of_withItem hvalue
    have hvalue := h.below hbelow
    have hwithin := (hbelow.isNested_and_within h.isNested).2
    split
    · rename_i hkind
      obtain ⟨cut, hcontext, hshown⟩ := inOrder_asPattern hvalue (beq_iff_eq.1 hkind).symm
      refine (hvalue.expressionSlot hcontext (fun x hx => Tree.isBelow_of_named
        (List.mem_of_getElem? hx)) fun _ => row_absentBefore (Tree.le_of_inOrder hcontext)).bind
          fun context hcontext => ?_
      refine (row_slot hshown (fun x hx => fits_aliasTarget hvalue (isBelow_of_alias hx)) fun _ =>
        row_absentAfter (Tree.le_of_inOrder hshown)).bind fun shown hshown => ?_
      exact yields_node rfl ((hcontext.append hshown).mono hwithin.1 hwithin.2.2)
    · refine (h.expression hbelow).bind fun context hcontext => ?_
      have hrow := Row.append hcontext (row_absentAfter (Nat.le_refl value.span.endOffset))
      exact yields_node rfl (hrow.mono hwithin.1 hwithin.2.2)

theorem fits_withStatement (hparts : AllParts t [Path.namedOf "with_clause", Path.field "body"]) :
    Yields (Fits .python t.span) (withStatement calls t) := by
  obtain ⟨cut, hclauses, hbody⟩ := hparts.cut
  have hitems := Tree.inOrder_flatMap (f := fun clause : Tree => clause.namedOf "with_item")
    hclauses fun clause hclause => Tree.inOrder_namedOf _
      ((Tree.isBelow_of_namedOf hclause).isNested_and_within h.isNested).1
  have hitem : ∀ x ∈ (t.namedOf "with_clause").flatMap fun clause => clause.namedOf "with_item",
      Yields (Fits .python x.span) (withItem calls x) := by
    intro x hx
    obtain ⟨clause, hclause, hx⟩ := List.mem_flatMap.1 hx
    exact fits_withItem (h.below ((Tree.isBelow_of_namedOf hx).trans
      (Tree.isBelow_of_namedOf hclause)))
  refine (row_mapM hitems hitem).bind fun items hitems => ?_
  refine (row_blockField h hbody.last).bind fun body hbody => ?_
  exact .answer (fits_wrapAsync (fits_node rfl (hitems.append hbody)))

end

/-! ## Matches -/

section

variable (h : Orders .python calls t)

include h

theorem fits_casePattern : Yields (Fits .python t.span) (casePattern calls t) := by
  unfold casePattern
  split
  · rename_i inner hinner
    have hbelow : inner.IsBelow t := Tree.isBelow_of_named (by simp [hinner])
    exact (h.expression hbelow).imp fun _ hnode => h.widen hbelow hnode
  · exact .answer h.leaf

theorem fits_caseClause (hparts : AllParts t
      [Path.namedOf "case_pattern", Path.field "guard", Path.field "consequence"]) :
    Yields (Fits .python t.span) (caseClause calls t) := by
  obtain ⟨cut, hpatterns, hparts⟩ := hparts.cut
  obtain ⟨cut', hguard, hbody⟩ := hparts.cut
  have hguard : Tree.inOrder cut cut'
      ((t.field? "guard").bind fun clause => clause.named.head?).toList = true := by
    rw [Path.toList_bind]
    refine Tree.inOrder_flatMap hguard fun clause hclause => ?_
    have hclause : clause.IsBelow t := Tree.isBelow_of_field? (by simpa [Path.field] using hclause)
    exact Tree.inOrder_head? (Tree.inOrder_named (hclause.isNested_and_within h.isNested).1)
  refine (settled_mapM fun x hx => fits_casePattern (h.below (Tree.isBelow_of_namedOf hx))).bind
    fun patterns hnodes => ?_
  have hlist : Row .python t.span.startOffset cut
      [spanning .expressionList (t.namedOf "case_pattern") patterns
        (emptyList t.span.startPoint)] :=
    row_spanning rfl hpatterns (fun horder => row_of_forall₂ horder hnodes) fun _ =>
      Node.row_leaf .refl .refl (Tree.le_of_inOrder hpatterns)
  refine (row_slotAfter hlist rfl hguard fun x hx => h.expression ?_).bind fun guard hguard => ?_
  · obtain ⟨clause, hclause, hx⟩ := Option.bind_eq_some_iff.1 hx
    exact (Tree.isBelow_of_named (List.mem_of_head? hx)).trans (Tree.isBelow_of_field? hclause)
  · refine (row_blockField h hbody.last).bind fun body hbody => ?_
    exact yields_node rfl (hguard.append hbody)

theorem fits_matching (hparts : AllParts t [Path.field "subject", Path.field "body"]) :
    Yields (Fits .python t.span) (matching calls t) := by
  obtain ⟨cut, hsubject, hbody⟩ := hparts.cut
  refine (h.expressionField hsubject fun _ => row_absentBefore (Tree.le_of_inOrder hsubject)).bind
    fun subject hsubject => ?_
  cases hfield : t.field? "body" with
  | none =>
    exact yields_node rfl (hsubject.mono .refl (Tree.le_of_inOrder hbody))
  | some body =>
    have hbelow := Tree.isBelow_of_field? hfield
    have hbounds := bounds_of_field hbody.last hfield
    have hclauses := Tree.inOrder_mono
      (Tree.inOrder_namedOf "case_clause" (h.below hbelow).isNested) hbounds.1 hbounds.2.2
    refine (row_mapM hclauses fun x hx => ?_).bind fun clauses hclauses =>
      yields_node rfl (hsubject.append hclauses)
    have hclause := h.below ((Tree.isBelow_of_namedOf hx).trans hbelow)
    exact fits_caseClause hclause (hclause.parts (beq_iff_eq.1 (List.mem_filter.1 hx).2).symm rfl)

end

/-! ## Definitions -/

theorem fits_decorator (h : Orders .python calls t) :
    Yields (Fits .python t.span) (decorator calls t) := by
  unfold decorator
  split
  · exact .answer h.leaf
  · rename_i expression hexpression
    have hbelow := Tree.isBelow_of_named (List.mem_of_head? hexpression)
    have harguments : ∀ x ∈ expression.field? "arguments", x.IsBelow t := fun x hx =>
      (Tree.isBelow_of_field? hx).trans hbelow
    split
    · exact (row_argumentsOf h (Tree.inOrder_of_isBelow h.isNested harguments) harguments).bind
        fun _ hnodes => yields_node rfl hnodes
    · exact .answer h.leaf

def signatureEnd (tree : Tree) : Span :=
  match tree.field? "parameters" with
  | some list => list.span.endPoint
  | none => tree.span.startPoint

theorem functionAt_eq (decorators : List Node) (span : Span) (calls : Calls) (tree : Tree) :
    functionAt decorators span calls tree = do
      let parameters ← parametersOf calls (tree.field? "parameters")
      let returnType ← fieldSlot calls.typeRef tree "return_type"
        (Node.absentAt (signatureEnd tree))
      let body ← blockAt calls (tree.field? "body") tree.span.endPoint
      return ⟨.methodDeclaration ⟨tree.fieldText "name", {}, false, tree.hasToken "async"⟩, span,
        decorators ++ parameters ++ [returnType, body]⟩ := by
  unfold functionAt signatureEnd
  cases tree.field? "parameters" <;> rfl

theorem inOrder_signature
    (h : Tree.inOrder t.span.startOffset cut ((Path.field "parameters").select t) = true) :
    Tree.inOrder t.span.startOffset (signatureEnd t).endOffset
      ((Path.field "parameters").select t) = true ∧ (signatureEnd t).endOffset ≤ cut ∧
        (signatureEnd t).startOffset = (signatureEnd t).endOffset := by
  have hselect : (Path.field "parameters").select t = (t.field? "parameters").toList := rfl
  rw [hselect] at h ⊢
  unfold signatureEnd
  cases hlist : t.field? "parameters" with
  | none => exact ⟨by simp [Tree.inOrder, Span.startPoint, Span.emptyAt],
      Tree.le_of_inOrder h, rfl⟩
  | some list =>
    rw [hlist] at h
    have hbounds := Tree.inOrder_singleton.1 h
    exact ⟨Tree.inOrder_singleton.2 ⟨hbounds.1, hbounds.2.1, .refl⟩, hbounds.2.2, rfl⟩

section

variable (h : Orders .python calls t)

include h

theorem fits_functionAt (hkind : "function_definition" = t.kind)
    (hdecorators : Row .python span.startOffset t.span.startOffset decorators)
    (hspan : t.span.endOffset ≤ span.endOffset) :
    Yields (Fits .python span) (functionAt decorators span calls t) := by
  obtain ⟨_, hlist, hparts⟩ := (h.parts hkind rfl).cut
  obtain ⟨_, htype, hbody⟩ := hparts.cut
  obtain ⟨hlist, hend, hempty⟩ := inOrder_signature hlist
  have htype := Tree.inOrder_mono htype hend .refl
  rw [functionAt_eq]
  refine (row_parametersOf h hlist).bind fun parameters hparameters => ?_
  refine (h.typeField htype fun _ => Node.row_absentAt hempty (Nat.le_of_eq hempty.symm)
    (Tree.le_of_inOrder htype)).bind fun type htype => ?_
  refine (row_blockField h hbody.last).bind fun body hbody => ?_
  have hchildren := (hdecorators.append hparameters).append (htype.append hbody)
  exact .answer (Node.row_of_written .refl .refl (hchildren.mono .refl hspan))

theorem fits_classAt (hdecorators : Row .python span.startOffset t.span.startOffset decorators)
    (hspan : t.span.endOffset ≤ span.endOffset) :
    Yields (Fits .python span) (classAt decorators span calls t) := by
  refine (row_blockField h (Tree.inOrder_of_isBelow h.isNested
    fun _ hx => Tree.isBelow_of_field? hx)).bind fun body hbody => ?_
  exact .answer (Node.row_of_children rfl .refl .refl ((hdecorators.append hbody).mono .refl hspan))

theorem fits_decorated (hparts : AllParts t [Path.namedOf "decorator", Path.field "definition"]) :
    Yields (Fits .python t.span) (decorated calls t) := by
  obtain ⟨cut, hdecorators, hdefinition⟩ := hparts.cut
  refine (row_mapM hdecorators fun x hx =>
    fits_decorator (h.below (Tree.isBelow_of_namedOf hx))).bind fun decorators hdecorators => ?_
  have hother : Fits .python t.span (otherNode t decorators) :=
    fits_other (hdecorators.mono .refl (Tree.le_of_inOrder hdefinition))
  split
  · rename_i definition hfield
    have hbelow := h.below (Tree.isBelow_of_field? hfield)
    have hbounds := bounds_of_field hdefinition.last hfield
    have hdecorators := hdecorators.mono .refl hbounds.1
    split
    · rename_i hkind
      exact fits_functionAt hbelow (beq_iff_eq.1 hkind).symm hdecorators hbounds.2.2
    · split
      · exact fits_classAt hbelow hdecorators hbounds.2.2
      · exact .answer hother
  · exact .answer hother

end

/-! ## Entry points -/

theorem fits_statementRules (h : Orders .python calls t) : ∀ entry ∈ statementRules,
    entry.1 = t.kind → Yields (Fits .python t.span) (entry.2 calls t) := by
  have hleaf {kind : NodeKind} : Yields (Fits .python t.span) (some (nodeOf kind t [])) :=
    .answer h.leaf
  have hnone : Row .python t.span.startOffset t.span.startOffset [] := .refl
  simp only [statementRules, List.forall_mem_cons, List.not_mem_nil, false_implies, implies_true,
    and_true]
  exact ⟨fun _ => fits_expressionStatement h, fun _ => fits_returning h, fun _ => hleaf,
    fun _ => hleaf, fun _ => hleaf, fun hkind => fits_conditional h hkind,
    fun hkind => fits_whileLoop h hkind, fun hkind => fits_forLoop h hkind,
    fun hkind => fits_tryStatement h hkind, fun hkind => fits_withStatement h (h.parts hkind rfl),
    fun hkind => fits_raising h (h.parts hkind rfl), fun _ => fits_asserting h, fun _ => hleaf,
    fun _ => hleaf, fun _ => fits_deleting h, fun _ => hleaf, fun _ => hleaf, fun _ => hleaf,
    fun hkind => fits_functionAt h hkind hnone .refl,
    fun _ => fits_classAt h hnone .refl,
    fun hkind => fits_decorated h (h.parts hkind rfl),
    fun hkind => fits_matching h (h.parts hkind rfl), fun _ => hleaf⟩

theorem fits_statement (h : Orders .python calls t) :
    Yields (Fits .python t.span) (statement calls t) :=
  settled_apply (fits_statementRules h) (fits_otherExpression h)

theorem ordersAt_tie {bound : Nat} (h : Orders .python (tie step bound) t) :
    OrdersAt .python (tie step (bound + 1)) t :=
  ⟨fits_expression h, (fits_statement h).imp fun _ hnode => ⟨hnode, nofun⟩, fits_typeRef h,
    fits_statement h⟩

end CodeEvolution.Lowering.Python
