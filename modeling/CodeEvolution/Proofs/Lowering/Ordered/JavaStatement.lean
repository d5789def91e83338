import CodeEvolution.Proofs.Lowering.Ordered.JavaLoop
/-!
# Java statements from parts in order

The other rules for statements build tidy nodes too. The types of an exception take the span of its
name as well, and the body of a group of a `switch` may start with a comment that stands before
some of the labels.
-/
namespace CodeEvolution.Lowering.Java

open Syntax (Tree)
open Node (Row)

variable {trees : List Tree} {calls : Calls} {t x : Tree} {start stop cut : Nat}

/-! ## Simple statements -/

section

variable (h : Orders .java calls t)

include h

theorem fits_expressionStatement : Yields (Fits .java t.span) (expressionStatement calls t) := by
  unfold expressionStatement
  split
  · exact .answer h.leaf
  · rename_i inner hinner
    have hbelow := Tree.isBelow_of_named (List.mem_of_head? hinner)
    split
    · rename_i hkind
      have hinner := h.below hbelow
      exact fits_assignmentAt hinner (hbelow.isNested_and_within h.isNested).2
        (hinner.parts (beq_iff_eq.1 hkind).symm rfl)
    · exact (h.expression hbelow).bind fun _ hnode => yields_node rfl (h.widen hbelow hnode)

theorem fits_constructorCall (hparts : AllParts t [Path.field "object", Path.field "arguments"]) :
    Yields (Fits .java t.span) (constructorCall calls t) := by
  obtain ⟨_, hreceiver, harguments⟩ := hparts.cut
  refine (h.expressionField hreceiver fun _ =>
    row_absentBefore (Tree.le_of_inOrder hreceiver)).bind fun receiver hreceiver => ?_
  refine (row_argumentsField h harguments.last).bind fun nodes hnodes => .answer ?_
  have hcall : Row .java t.span.startOffset t.span.endOffset
      [nodeOf (.invocation (((t.field? "constructor").map Tree.text).getD "super")) t
        (receiver :: nodes)] := fits_node rfl (hreceiver.append hnodes)
  exact fits_node rfl hcall

theorem fits_valueStatement {kind : NodeKind}
    (hkind : kind.isReordered = false) : Yields (Fits .java t.span) (valueStatement kind calls t) :=
  (h.firstExpression h.absentAfter).bind fun _ hvalue => yields_node hkind hvalue

theorem fits_throwing : Yields (Fits .java t.span) (throwing calls t) :=
  (h.firstExpression h.absentAfter).bind fun _ hvalue =>
    yields_node rfl (Row.append hvalue (row_absentAfter .refl))

theorem fits_synchronized
    (hparts : AllParts t [(Path.namedOf "parenthesized_expression").first, Path.field "body"]) :
    Yields (Fits .java t.span) (synchronized calls t) := by
  obtain ⟨cut, hlock, hbody⟩ := hparts.cut
  have hlock : Tree.inOrder t.span.startOffset cut
      ((t.namedOf "parenthesized_expression").head?.bind fun inner => inner.named.head?).toList =
        true := by
    rw [Path.toList_bind]
    refine Tree.inOrder_flatMap hlock fun inner hinner => ?_
    have hinner : inner.IsBelow t :=
      Tree.isBelow_of_namedOf (List.mem_of_head? (Option.mem_toList.1 hinner))
    exact Tree.inOrder_head? (Tree.inOrder_named (hinner.isNested_and_within h.isNested).1)
  refine (h.expressionSlot hlock (fun x hx => ?_) fun _ =>
    row_absentBefore (Tree.le_of_inOrder hlock)).bind fun lock hlock => ?_
  · obtain ⟨inner, hinner, hx⟩ := Option.bind_eq_some_iff.1 hx
    exact (Tree.isBelow_of_named (List.mem_of_head? hx)).trans
      (Tree.isBelow_of_namedOf (List.mem_of_head? hinner))
  · refine (row_bodyField h hbody.last).bind fun body hbody => ?_
    exact yields_node rfl (hlock.append hbody)

theorem fits_labelled : Yields (Fits .java t.span) (labelled calls t) := by
  unfold labelled
  split
  · rename_i inner hinner
    have hbelow := Tree.isBelow_of_named (List.mem_of_getLast? hinner)
    split
    · exact (h.statement hbelow).imp fun _ hnode => h.widen hbelow hnode
    · exact .answer h.leaf
  · exact .answer h.leaf

end

/-! ## Switches -/

section

variable (h : Orders .java calls t)

include h

theorem row_groupBody (htrees : ∀ x ∈ trees, x.IsBelow t)
    (horder : Tree.inOrder start t.span.endOffset trees = true) :
    YieldsIn .java start t.span.endOffset (groupBody calls t trees) := by
  refine (settled_mapM fun x hx => h.statement (htrees x hx)).bind fun nodes hnodes => .answer ?_
  refine row_spanning rfl horder (fun horder => row_of_forall₂ horder hnodes) fun _ => ?_
  exact Node.row_leaf .refl (Tree.le_of_inOrder horder) .refl

theorem row_caseBody (htrees : ∀ x ∈ trees, x.IsBelow t)
    (horder : Tree.inOrder start t.span.endOffset trees = true) :
    YieldsIn .java start t.span.endOffset (caseBody calls t trees) := by
  unfold caseBody
  split
  · rename_i single
    split
    · have hbounds := Tree.inOrder_singleton.1 horder
      exact (fits_block (h.below (htrees single (by simp)))).imp fun _ hnode =>
        row_of_fits hnode hbounds.1 hbounds.2.2
    · exact row_groupBody h htrees horder
  · exact row_groupBody h htrees horder

/-- A body whose first part is a comment has a comment as its first child. -/
theorem head_caseBody {first : Tree} {rest : List Tree}
    (htrees : ∀ x ∈ first :: rest, x.IsBelow t)
    (hcomment : first.kind = "line_comment" ∨ first.kind = "block_comment") :
    Yields (fun node => node.children.head? = some (commentNode first))
      (caseBody calls t (first :: rest)) := by
  have hgroup : caseBody calls t (first :: rest) = groupBody calls t (first :: rest) := by
    unfold caseBody
    split
    · rename_i single heq
      cases heq
      rw [if_neg]
      rcases hcomment with hcomment | hcomment <;> simp [hcomment]
    · rfl
  rw [hgroup]
  refine (settled_mapM fun x hx => (h.ordersAt (htrees x hx)).statement).bind
    fun nodes hnodes => .answer ?_
  cases hnodes with
  | @cons _ node _ _ hnode _ =>
    have hspanning : ∀ fallback : Node, ∀ others,
        (spanning .block (first :: rest) (node :: others) fallback).children = node :: others := by
      intro fallback others
      simp [spanning, List.getLast?_cons]
    rw [hspanning, hnode.2 rfl hcomment]
    rfl

theorem row_patternList
    (hlabels : Tree.inOrder t.span.startOffset stop (labels.select t) = true) {patterns : List Node}
    (hpatterns : List.Forall₂ (fun x node => Fits .java x.span node)
      ((labels.select t).flatMap Tree.named) patterns) :
    Row .java t.span.startOffset stop
      [spanning .expressionList (labels.select t) patterns
        ⟨.expressionList, t.span.startPoint, patterns⟩] := by
  refine row_spanning rfl hlabels (fun horder => row_of_forall₂ ?_ hpatterns) fun hnone => ?_
  · refine Tree.inOrder_flatMap_named horder fun label hlabel => ?_
    have hlabel := Tree.isBelow_of_statements (List.mem_filter.1 hlabel).1
    exact (hlabel.isNested_and_within h.isNested).1
  · rw [hnone] at hpatterns
    cases hpatterns
    exact Node.row_leaf .refl .refl (Tree.le_of_inOrder hlabels)

end

/-- If the first of some trees is kept, all of them lie where the kept ones do. -/
theorem inOrder_of_keptFirst {test : Tree → Bool} (horder : Tree.inOrder start stop trees = true)
    (hkept : Tree.inOrder cut stop (trees.filter test) = true)
    (hfirst : ∀ first ∈ trees.head?, test first = true) : Tree.inOrder cut stop trees = true := by
  cases trees with
  | nil => exact hkept
  | cons first rest =>
    have hmem : first ∈ (first :: rest).filter test :=
      List.mem_filter.2 ⟨List.mem_cons_self .., hfirst first rfl⟩
    rw [Tree.inOrder_cons] at horder ⊢
    exact ⟨(Tree.bounds_of_inOrder hkept hmem).1, horder.2⟩

theorem fits_caseClause (h : Orders .java calls t)
    (hparts : AllParts t groupOrder) :
    Yields (Fits .java t.span) (caseClause calls t) := by
  obtain ⟨cut, hlabels, hgroup⟩ := hparts.cut
  have hbelow : ∀ x ∈ groupParts.select t, x.IsBelow t := fun x hx =>
    Tree.isBelow_of_statements (List.mem_filter.1 hx).1
  have horder : Tree.inOrder t.span.startOffset t.span.endOffset (groupParts.select t) = true :=
    Tree.inOrder_sublist List.filter_sublist (Tree.inOrder_statements h.isNested)
  rw [caseClause_eq]
  refine (settled_mapM fun x hx => h.expression ?_).bind fun patterns hpatterns => ?_
  · obtain ⟨label, hlabel, hx⟩ := List.mem_flatMap.1 hx
    exact (Tree.isBelow_of_named hx).trans (Tree.isBelow_of_statements (List.mem_filter.1 hlabel).1)
  have hlist := (row_patternList h hlabels hpatterns).absentAfter rfl
  by_cases hcomment : ∃ first rest, groupParts.select t = first :: rest ∧
      (first.kind = "line_comment" ∨ first.kind = "block_comment")
  · -- the comment may stand before the last label, but then the body strays
    obtain ⟨first, rest, heq, hcomment⟩ := hcomment
    rw [heq] at hbelow horder ⊢
    have hfirst := Tree.inOrder_cons.2 ⟨.refl, (Tree.inOrder_cons.1 horder).2⟩
    refine ((row_caseBody h hbelow hfirst).and (head_caseBody h hbelow hcomment)).bind
      fun body hbody => .answer ?_
    refine h.straying rfl ?_ fun child hchild => ?_
    · refine List.pairwise_append.2 ⟨hlist.pairwise.imp .inl, List.pairwise_singleton _ _,
        fun earlier _ later hlater => ?_⟩
      rw [List.mem_singleton.1 hlater]
      by_cases hearlier : earlier.span.endOffset ≤ first.span.startOffset
      · exact .inl (Nat.le_trans hearlier (hbody.1.bounds (List.mem_singleton_self body)).1)
      · have hcomment : (commentNode first).span.startOffset < earlier.span.endOffset :=
          Nat.lt_of_not_le hearlier
        have hkind : (commentNode first).kind.isComment = true := rfl
        exact .inr (by simp [Node.strays, nodeOf, hbody.2, hkind, hcomment])
    · rcases List.mem_append.1 (show child ∈ [_, _] ++ [body] from hchild) with hchild | hchild
      · exact (hlist.bounds hchild).2.2.2
      · exact (hbody.1.bounds hchild).2.2.2
  · have horder := inOrder_of_keptFirst horder hgroup.last fun first hfirst => by
      obtain ⟨rest, heq⟩ := List.head?_eq_some_iff.1 hfirst
      have hother : ¬(first.kind = "line_comment" ∨ first.kind = "block_comment") :=
        fun hkind => hcomment ⟨first, rest, heq, hkind⟩
      simpa using hother
    exact (row_caseBody h hbelow horder).bind fun body hbody =>
      yields_node rfl (hlist.append hbody)

theorem fits_switching (h : Orders .java calls t)
    (hparts : AllParts t [Path.field "condition", Path.field "body"]) :
    Yields (Fits .java t.span) (switching calls t) := by
  obtain ⟨cut, hsubject, hbody⟩ := hparts.cut
  refine (row_firstCondition h hsubject).bind fun subject hsubject => ?_
  cases hfield : t.field? "body" with
  | none =>
    exact yields_node rfl (hsubject.mono .refl (Tree.le_of_inOrder hbody))
  | some body =>
    have hbelow := Tree.isBelow_of_field? hfield
    have hbounds := bounds_of_field hbody.last hfield
    have hgroups : Tree.inOrder cut t.span.endOffset (body.named.filter isSwitchGroup) = true :=
      Tree.inOrder_mono (Tree.inOrder_sublist List.filter_sublist
        (Tree.inOrder_named (h.below hbelow).isNested)) hbounds.1 hbounds.2.2
    refine (row_mapM hgroups fun x hx => ?_).bind fun clauses hclauses =>
      yields_node rfl (hsubject.append hclauses)
    obtain ⟨hx, hkind⟩ := List.mem_filter.1 hx
    have hgroup := h.below ((Tree.isBelow_of_named hx).trans hbelow)
    rcases Bool.or_eq_true_iff.1 hkind with hkind | hkind
    · exact fits_caseClause hgroup (hgroup.parts (beq_iff_eq.1 hkind).symm rfl)
    · exact fits_caseClause hgroup (hgroup.parts (beq_iff_eq.1 hkind).symm rfl)

/-! ## Exceptions -/

section

variable (h : Orders .java calls t)

include h

theorem fits_resource : Yields (Fits .java t.span) (resource calls t) := by
  obtain ⟨cut, htype, hvalue⟩ := (commonParts_of_isGrammatical h.isGrammatical).cut
  unfold resource
  split
  · refine (h.typeField htype fun _ => row_absentBefore (Tree.le_of_inOrder htype)).bind
      fun type htype => ?_
    refine (h.expressionField hvalue.last fun _ =>
      row_absentAfter (Tree.le_of_inOrder hvalue)).bind fun value hvalue => ?_
    exact yields_node rfl (htype.append hvalue)
  · exact h.firstExpression h.leaf

theorem row_resourcesOf {anchor : Span}
    (horder : Tree.inOrder start anchor.startOffset ((Path.field "resources").select t) = true) :
    YieldsIn .java start anchor.startOffset (resourcesOf calls anchor (t.field? "resources")) := by
  cases hlist : t.field? "resources" with
  | none =>
    exact .answer (Node.row_leaf .refl (Tree.le_of_inOrder horder) .refl)
  | some list =>
    have hbelow := h.below (Tree.isBelow_of_field? hlist)
    have hbounds := bounds_of_field horder hlist
    refine (row_mapM (Tree.inOrder_named hbelow.isNested) fun x hx =>
      fits_resource (hbelow.below (Tree.isBelow_of_named hx))).bind fun nodes hnodes => ?_
    exact .answer (row_of_fits (fits_node rfl hnodes) hbounds.1 hbounds.2.2)

/-- The name of an exception is part of the span of its types. -/
theorem fits_catchNode {types name body : Node}
    (htypes : Row .java t.span.startOffset cut [types])
    (hname : Row .java t.span.startOffset cut [name]) (hkind : name.kind ≠ .block)
    (habsent : name.kind = .absent → types.span.endOffset ≤ name.span.startOffset)
    (hbody : Row .java cut t.span.endOffset [body]) :
    Fits .java t.span (nodeOf .catchClause t [types, name, body]) := by
  have htypes := htypes.bounds (List.mem_singleton_self _)
  have hname := hname.bounds (List.mem_singleton_self _)
  have hbody := hbody.bounds (List.mem_singleton_self _)
  have hpair : types.span.endOffset ≤ name.span.startOffset ∨
      (nodeOf .catchClause t [types, name, body]).strays .java types name = true := by
    by_cases hname : name.kind = .absent
    · exact .inl (habsent hname)
    · exact .inr (by simp [Node.strays, nodeOf, hkind, hname])
  refine h.straying rfl ?_ (by simp [htypes, hname, hbody])
  simp only [List.pairwise_cons, List.forall_mem_cons, List.not_mem_nil, false_implies,
    implies_true, List.Pairwise.nil, and_true]
  exact ⟨⟨hpair, .inl (by omega)⟩, .inl (by omega)⟩

theorem fits_catchClause
    (hparts : AllParts t [(Path.namedOf "catch_formal_parameter").first, Path.field "body"]) :
    Yields (Fits .java t.span) (catchClause calls t) := by
  obtain ⟨cut, hparameters, hbody⟩ := hparts.cut
  have hcut := Tree.le_of_inOrder hparameters
  have hbody := row_bodyField h hbody.last
  unfold catchClause
  dsimp only
  cases hparameter : (t.namedOf "catch_formal_parameter").head? with
  | none =>
    refine hbody.bind fun body hbody => .answer ?_
    exact fits_catchNode h (Node.row_leaf .refl .refl hcut)
      (row_absentBefore hcut) nofun (fun _ => .refl) hbody
  | some parameter =>
    have hbelow := Tree.isBelow_of_namedOf (List.mem_of_head? hparameter)
    have hbounds := Tree.bounds_of_inOrder hparameters
      (Option.mem_toList.2 hparameter : parameter ∈ _)
    have hparameter := h.below hbelow
    have htypes := Tree.inOrder_flatMap_named
      (Tree.inOrder_namedOf "catch_type" hparameter.isNested) fun list hlist =>
        ((Tree.isBelow_of_namedOf hlist).isNested_and_within hparameter.isNested).1
    have hname : Row .java t.span.startOffset cut
          [((parameter.field? "name").map nameNode).getD (absentAfter parameter)] ∧
        (((parameter.field? "name").map nameNode).getD (absentAfter parameter)).kind ≠ .block ∧
        ((((parameter.field? "name").map nameNode).getD (absentAfter parameter)).kind = .absent →
          parameter.span.endOffset ≤ (((parameter.field? "name").map nameNode).getD
            (absentAfter parameter)).span.startOffset) := by
      cases hname : parameter.field? "name" with
      | none =>
        exact ⟨row_of_fits hparameter.absentAfter hbounds.1 hbounds.2.2, nofun, fun _ => .refl⟩
      | some name =>
        have hname := Tree.isBelow_of_field? hname
        exact ⟨row_of_fits (hparameter.widen hname (hparameter.below hname).leaf) hbounds.1
          hbounds.2.2, nofun, nofun⟩
    simp only [pure_bind]
    refine (hparameter.typeRefs htypes fun x hx => ?_).bind fun types htypes => ?_
    · obtain ⟨list, hlist, hx⟩ := List.mem_flatMap.1 hx
      exact (Tree.isBelow_of_named hx).trans (Tree.isBelow_of_namedOf hlist)
    · refine hbody.bind fun body hbody => .answer ?_
      exact fits_catchNode h (row_of_fits (fits_node rfl htypes) hbounds.1 hbounds.2.2) hname.1
        hname.2.1 hname.2.2 hbody

theorem fits_finallyClause : Yields (Fits .java t.span) (finallyClause calls t) := by
  have hblock : ∀ x ∈ (t.namedOf "block").head?, x.IsBelow t := fun _ hx =>
    Tree.isBelow_of_namedOf (List.mem_of_head? hx)
  exact (row_lastBody h (Tree.inOrder_of_isBelow h.isNested hblock) hblock).bind fun _ hbody =>
    yields_node rfl hbody

theorem fits_tryStatement (hparts : AllParts t tryParts)
    (hrequired : ∃ body, t.field? "body" = some body) :
    Yields (Fits .java t.span) (tryStatement calls t) := by
  obtain ⟨body, hfield⟩ := hrequired
  obtain ⟨_, hresources, hparts⟩ := hparts.cut
  obtain ⟨_, hbody, hparts⟩ := hparts.cut
  obtain ⟨_, hcatches, hcleanup⟩ := hparts.cut
  rw [select_field hfield] at hbody
  have hbounds := Tree.inOrder_singleton.1 hbody
  have hcatch : ∀ x ∈ t.namedOf "catch_clause",
      Yields (Fits .java x.span) (catchClause calls x) := by
    intro x hx
    have hclause := h.below (Tree.isBelow_of_namedOf hx)
    exact fits_catchClause hclause (hclause.parts (beq_iff_eq.1 (List.mem_filter.1 hx).2).symm rfl)
  rw [tryStatement_eq, hfield]
  refine (row_resourcesOf h (Tree.inOrder_mono hresources .refl hbounds.1)).bind
    fun resources hresources => ?_
  refine (row_bodyAt h (Tree.inOrder_singleton.2 ⟨.refl, hbounds.2⟩)
    (fun x hx => Tree.isBelow_of_field? (hfield.trans hx)) (by simp)).bind fun body hbody => ?_
  refine (row_mapM hcatches hcatch).bind fun catches hcatches => ?_
  have hlast : (resources :: body :: catches).getLast? = some (catches.getLast?.getD body) := by
    simp [List.getLast?_cons]
  rw [Option.getD_map]
  have hbefore := ((hresources.append hbody).append hcatches).absentAfter hlast
  refine (row_slotAfter hbefore List.getLast?_concat (Tree.inOrder_getLast? hcleanup.last)
    fun x hx => fits_finallyClause (h.below (Tree.isBelow_of_namedOf
      (List.mem_of_getLast? hx)))).bind fun cleanup hcleanup => ?_
  exact yields_node rfl (by simpa using hcleanup)

end

/-! ## Entry points -/

theorem fits_statementRules (h : Orders .java calls t) (hlocal : t.kind ≠ localClass) :
    ∀ entry ∈ statementRules, entry.1 = t.kind → Yields (Fits .java t.span) (entry.2 calls t) := by
  have hlocal : "local_class_declaration" ≠ t.kind := fun hkind => hlocal hkind.symm
  have hleaf {kind : NodeKind} : Yields (Fits .java t.span) (some (nodeOf kind t [])) :=
    .answer h.leaf
  have htype (sort : TypeSort) {kind : String} (hkind : kind = t.kind)
      (hpaths : Java.partOrder.lookup kind = some typeParts) :
      Yields (Fits .java t.span) (typeDeclaration sort calls t) :=
    fits_typeDeclaration h sort (h.parts hkind hpaths)
  have hbody {kind : String} (hkind : kind = t.kind)
      (hnames : (requiredFields .java).lookup kind = some ["body"]) :
      ∃ body, t.field? "body" = some body :=
    exists_field_of_isGrammatical h.isGrammatical hkind.symm hnames (List.mem_singleton_self _)
  simp only [statementRules, List.forall_mem_cons, List.not_mem_nil, false_implies, implies_true,
    and_true, hlocal, true_and]
  exact ⟨fun hkind => fits_variableDeclaration h (h.parts hkind rfl),
    fun _ => fits_expressionStatement h, fun hkind => fits_constructorCall h (h.parts hkind rfl),
    fun _ => fits_block h, fun hkind => fits_conditional h hkind,
    fun hkind => fits_whileLoop h (h.parts hkind rfl), fun hkind => fits_doLoop h hkind,
    fun hkind => fits_forLoop h hkind, fun hkind => fits_forEach h (h.parts hkind rfl),
    fun hkind => fits_switching h (h.parts hkind rfl),
    fun hkind => fits_switching h (h.parts hkind rfl),
    fun hkind => fits_tryStatement h (h.parts hkind rfl) (hbody hkind rfl),
    fun hkind => fits_tryStatement h (h.parts hkind rfl) (hbody hkind rfl),
    fun _ => fits_valueStatement h rfl, fun _ => fits_throwing h, fun _ => h.firstTwo rfl,
    fun _ => fits_valueStatement h rfl, fun _ => hleaf, fun _ => hleaf,
    fun hkind => fits_synchronized h (h.parts hkind rfl), fun _ => fits_labelled h,
    fun hkind => htype _ hkind rfl, fun hkind => htype _ hkind rfl, fun hkind => htype _ hkind rfl,
    fun hkind => htype _ hkind rfl, fun _ => hleaf, fun _ => hleaf⟩

theorem fits_statement (h : Orders .java calls t) (hlocal : t.kind ≠ localClass) :
    Yields (Fits .java t.span) (statement calls t) :=
  settled_apply (fits_statementRules h hlocal) (.answer h.leaf)

theorem ordersAt_tie {bound : Nat} (h : Orders .java (tie step bound) t) :
    OrdersAt .java (tie step (bound + 1)) t := by
  by_cases hlocal : t.kind = localClass
  · have hanswers := tie_localClass (bound + 1) hlocal
    refine ⟨fits_expression h, ?_, fits_typeRef h, ?_⟩
    · rw [hanswers.1]
      exact .silence trivial
    · rw [hanswers.2]
      exact .silence trivial
  · have hstatement := fits_statement h hlocal
    refine ⟨fits_expression h, hstatement.and ?_, fits_typeRef h,
      settled_apply (fits_declarationRules h) hstatement⟩
    by_cases hkind : t.kind = "line_comment" ∨ t.kind = "block_comment"
    · rw [statement_of_comment _ hkind]
      exact .answer fun _ _ => rfl
    · exact hstatement.imp fun _ _ _ hcomment => absurd hcomment hkind

end CodeEvolution.Lowering.Java
