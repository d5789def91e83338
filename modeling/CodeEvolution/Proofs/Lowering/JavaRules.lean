import CodeEvolution.Proofs.Lowering.JavaStatement
/-!
# Comments among the rules for Java

Wherever a rule looks for the first or the second child of a node, a comment is taken for code. In
two places a comment that becomes a comment changes the code around it all the same: behind a label
it stands for the statement, and beside the one block of a `switch` group it makes a list of that
block. Main results: every rule respects its reading, and spares the comments that are not taken
for code and do not stand in one of these two places.
-/
namespace CodeEvolution.Lowering.Java

open Syntax (Tree Deletion)
open Lowering.Path Lowering.Reading

variable {d : Deletion commentKinds} {calls calls' : Calls} {s t : Tree} {parts : List Tree}

/-- The comments in a group of a `switch` in which the only other part is a block. -/
def besideBlock : Path :=
  (((groupParts.having fun kind => !commentKinds.contains kind).when (· == 1)).having
    (· == "block")).hereIf (· == 1) / groupParts.having commentKinds.contains

/-- The comments that change the code around them without being taken for code. -/
def standingReading : String → Reading
  | "labeled_statement" => [(named.last, .text)]
  | "switch_expression" | "switch_statement" =>
    within (field "body" / named.having fun kind =>
      kind == "switch_block_statement_group" || kind == "switch_rule") [(besideBlock, .text)]
  | _ => []

/-! ## Assertions and labels -/

theorem handles_asserting {more : Reading} :
    Handles commentKinds asserting [(named.nth 0, .expression), (named.nth 1, .expression)]
      more where
  respects calls s t h := by
    simp only [meets_cons] at h
    exact rel_asserting (k := (.reformatting calls : Agreement commentKinds)) h.1 h.2.1
  spares d calls calls' hhush t h := by
    obtain ⟨hclean, -⟩ := clean_append.1 h
    simp only [clean_cons] at hclean
    obtain ⟨htest, hmessage, -⟩ := hclean
    have hkept {index : Nat}
        (hclean : ∀ x ∈ (named.nth index).select t, Use.expression.Clean d calls calls' x) :
        ∀ x ∈ t.named[index]?, d.keeps x = true :=
      fun x hx => (hclean x (Option.mem_toList.2 hx)).isKept rfl
    have hparts := Tree.getElem?_without (hkept htest) (hkept hmessage)
    have hpart {index : Nat}
        (hwithout : ((t.named.filter d.keeps).map (Tree.without d))[index]? =
          t.named[index]?.map (Tree.without d))
        (hclean : ∀ x ∈ (named.nth index).select t, Use.expression.Clean d calls calls' x) :
        List.Forall₂ ((hhush.agreement calls').Uses .expression) ((named.nth index).select t)
          ((named.nth index).select (t.without d)) := by
      have hselect : (named.nth index).select (t.without d) =
          ((named.nth index).select t).map (Tree.without d) := by
        simp only [nth, named, Tree.without_named, hwithout, toList_map]
      rw [hselect, List.forall₂_map_right_iff, List.forall₂_same]
      exact fun x hx => ⟨hclean x hx, rfl⟩
    exact rel_asserting (hpart hparts.1 htest) (hpart hparts.2 hmessage)

theorem handles_labelled :
    Handles commentKinds labelled labelReading (standingReading "labeled_statement") where
  respects calls _ _ h := rel_labelled (k := .reformatting calls) h
    (rel_toList_iff.1 (meets_cons.1 h).2.of_within)
  spares d calls calls' hhush t h := by
    obtain ⟨hreading, hstanding⟩ := clean_append.1 h
    refine rel_labelled (k := hhush.agreement calls') ⟨rfl, hreading⟩ ?_
    have hlast : ∀ x ∈ t.named.getLast?, d.keeps x = true := fun x hx =>
      ((clean_cons.1 hstanding).1 x (Option.mem_toList.2 hx)).isKept rfl
    rw [Tree.without_named, Tree.getLast?_without hlast]
    cases hsome : t.named.getLast? with
    | none => exact .none
    | some inner =>
      exact .some ⟨rfl, (clean_cons.1 hreading).2.of_within (by simp [last, named, hsome])⟩

/-! ## Groups of `switch` -/

theorem rel_caseBody (hst : s.Reformats t)
    (hsingle : List.Forall₂ (Meets calls (onKind ["block"] blockReading ++
        offKind ["block"] [(here, .statement)])) ((groupParts.when (· == 1)).select s)
      ((groupParts.when (· == 1)).select t))
    (hseveral : List.Forall₂ (Use.statement.Meets calls) ((groupParts.when (· != 1)).select s)
      ((groupParts.when (· != 1)).select t)) :
    Option.Rel Node.Same (caseBody calls s (groupParts.select s))
      (caseBody calls t (groupParts.select t)) := by
  have hsingle (hlength : (groupParts.select s).length = 1) :=
    rel_of_when hsingle (groupParts.respects hst).length_eq (by simpa using hlength)
  have hseveral (hlength : (groupParts.select s).length ≠ 1) :=
    rel_of_when hseveral (groupParts.respects hst).length_eq (by simpa using hlength)
  have hpairs := groupParts.respects hst
  have hgroup {ss ts : List Tree} (h : List.Forall₂ (Use.statement.Meets calls) ss ts) :
      Option.Rel Node.Same (groupBody calls s ss) (groupBody calls t ts) :=
    rel_groupBody (k := .reformatting calls) h
  generalize groupParts.select s = xs at hpairs hsingle hseveral ⊢
  generalize groupParts.select t = ys at hpairs hsingle hseveral ⊢
  rcases hpairs with _ | ⟨hfirst, _ | ⟨hsecond, hrest⟩⟩
  · exact hgroup .nil
  · have h : (Agreement.reformatting calls : Agreement commentKinds).Meets
        (onKind ["block"] blockReading ++ offKind ["block"] [(here, .statement)]) _ _ :=
      (List.forall₂_cons.1 (hsingle rfl)).1
    obtain ⟨hblock, hother⟩ := Agreement.meets_append.1 h
    simp only [caseBody, ← hfirst.kind_eq]
    split
    · rename_i hkind
      exact agrees_block.respects _ _ _ (hblock.of_onKind (by simpa using hkind))
    · rename_i hkind
      exact hgroup (.cons (hother.here_of_offKind (by simpa using hkind)) .nil)
  · exact hgroup (hseveral (by simp))

def groupSpan (tree : Tree) (parts : List Tree) : Span :=
  match parts.head?, parts.getLast? with
  | some first, some last => first.span.through last.span
  | _, _ => tree.span.endPoint

theorem groupBody_eq (calls : Calls) (tree : Tree) (parts : List Tree) :
    groupBody calls tree parts = do
      let inner ← parts.mapM calls.statement
      return ⟨.block, groupSpan tree parts, inner⟩ := by
  cases parts with
  | nil => rfl
  | cons first rest =>
    rw [groupBody, groupSpan, List.head?_cons, List.getLast?_cons]
    simp only [spanning, List.head?_cons, List.getLast?_cons]

theorem keeps_groupBody (hhush : Hushes d calls)
    (h : ∀ x ∈ parts, Use.statement.Clean d calls calls' x) :
    Keeps Node.Like (groupBody calls s parts)
      (groupBody calls' t ((parts.filter d.keeps).map (Tree.without d))) := by
  rw [groupBody_eq, groupBody_eq]
  exact keeps_statements rfl (fun x hx => (h x hx).outcome) (hhush .statement rfl)

theorem caseBody_eq_groupBody (h : ∀ single, parts = [single] → single.kind ≠ "block") :
    caseBody calls t parts = groupBody calls t parts := by
  rcases parts with _ | ⟨single, _ | ⟨second, rest⟩⟩
  · rfl
  · rw [caseBody, if_neg (by simpa using h single rfl)]
  · rfl

theorem select_hereIf_block {path : Path} {block : Tree} (h : path.select t = [block])
    (hblock : block.kind = "block") :
    (((path.when (· == 1)).having (· == "block")).hereIf (· == 1)).select t = [t] := by
  simp [hereIf, having, when, h, hblock]

theorem mem_besideBlock {x block : Tree} (hblock : block.kind = "block")
    (hparts : (groupParts.select t).filter (fun part => !commentKinds.contains part.kind) = [block])
    (hx : x ∈ groupParts.select t) (hkind : commentKinds.contains x.kind = true) :
    x ∈ besideBlock.select t := by
  have hothers : (groupParts.having fun kind => !commentKinds.contains kind).select t = [block] :=
    hparts
  refine List.mem_flatMap.2 ⟨t, ?_, List.mem_filter.2 ⟨hx, hkind⟩⟩
  rw [select_hereIf_block hothers hblock]
  exact List.mem_singleton_self t

/-- A block is left alone in its group only if it was alone there. -/
theorem eq_of_filter_keeps {block : Tree}
    (hbeside : ∀ x ∈ besideBlock.select t, d.keeps x = true) (hblock : block.kind = "block")
    (h : (groupParts.select t).filter d.keeps = [block]) : groupParts.select t = [block] := by
  have hothers : (groupParts.select t).filter (fun part => !commentKinds.contains part.kind) =
      [block] := by
    have htwice : ((groupParts.select t).filter d.keeps).filter
        (fun part => !commentKinds.contains part.kind) = [block] := by
      rw [h]
      simp [hblock, commentKinds]
    rw [← htwice, List.filter_filter]
    refine List.filter_congr fun x _ => ?_
    cases hkind : commentKinds.contains x.kind with
    | true => rfl
    | false => rw [d.keeps_of_kind hkind]; rfl
  rw [← h, Tree.filter_keeps]
  intro x hx
  rcases d.keeps_or_drops x with hkeeps | hdrops
  · exact hkeeps
  · exact hbeside x (mem_besideBlock hblock hothers hx (by simpa using d.kind_of_drops hdrops))

theorem keeps_caseBody (hhush : Hushes d calls)
    (hsingle : ∀ x ∈ (groupParts.when (· == 1)).select t, Clean d calls calls'
      (onKind ["block"] blockReading ++ offKind ["block"] [(here, .statement)]) x)
    (hseveral : ∀ x ∈ (groupParts.when (· != 1)).select t, Use.statement.Clean d calls calls' x)
    (hbeside : ∀ x ∈ besideBlock.select t, d.keeps x = true) :
    Keeps Node.Like (caseBody calls t (groupParts.select t))
      (caseBody calls' (t.without d) (groupParts.select (t.without d))) := by
  have halone (block : Tree) : block.kind = "block" →
      (groupParts.select t).filter d.keeps = [block] → groupParts.select t = [block] :=
    eq_of_filter_keeps hbeside
  have hparts : groupParts.select (t.without d) =
      ((groupParts.select t).filter d.keeps).map (Tree.without d) :=
    (inferInstance : (statements.having (· != "switch_label")).Lists commentKinds).leads d t
  have hsingle : ∀ x ∈ (groupParts.when (· == 1)).select t, (hhush.agreement calls').Meets
      (onKind ["block"] blockReading ++ offKind ["block"] [(here, .statement)]) x (x.without d) :=
    fun x hx => ⟨rfl, hsingle x hx⟩
  rw [hparts]
  simp only [when] at hsingle hseveral
  generalize groupParts.select t = parts at hsingle hseveral halone ⊢
  -- a block that is alone stands for its group; in every other case both groups become lists
  by_cases hblock : ∃ single, parts = [single] ∧ single.kind = "block"
  · obtain ⟨single, rfl, hkind⟩ := hblock
    have hkeeps : d.keeps single = true := d.keeps_of_kind (by rw [hkind]; rfl)
    obtain ⟨hclean, -⟩ := Agreement.meets_append.1 (hsingle single (by simp))
    have hinner : Keeps Node.Like (block calls single) (block calls' (single.without d)) :=
      agrees_block (hhush.agreement calls') _ _ (hclean.of_onKind (by simp [hkind]))
    simpa [caseBody, hkeeps, hkind] using hinner
  · have hleft : ∀ single, parts = [single] → single.kind ≠ "block" :=
      fun single hparts hkind => hblock ⟨single, hparts, hkind⟩
    have hright : ∀ single, (parts.filter d.keeps).map (Tree.without d) = [single] →
        single.kind ≠ "block" := by
      intro single hparts hkind
      obtain ⟨part, hpart, rfl⟩ := List.map_eq_singleton_iff.1 hparts
      rw [Tree.without_kind] at hkind
      exact hblock ⟨part, halone part hkind hpart, hkind⟩
    have hstatements : ∀ x ∈ parts, Use.statement.Clean d calls calls' x := by
      intro x hx
      by_cases hlength : parts.length = 1
      · obtain ⟨single, rfl⟩ := List.length_eq_one_iff.1 hlength
        obtain rfl := List.mem_singleton.1 hx
        obtain ⟨-, hclean⟩ := Agreement.meets_append.1 (hsingle x (by simp))
        exact ((hhush.agreement calls').here (hclean.of_offKind (by simpa using hleft x rfl))).1
      · exact hseveral x (by simpa [hlength] using hx)
    rw [caseBody_eq_groupBody hleft, caseBody_eq_groupBody hright]
    exact keeps_groupBody hhush hstatements

theorem handles_switching :
    Handles commentKinds switching switchReading (standingReading "switch_statement") where
  respects calls s t h := by
    obtain ⟨hsubject, hgroups⟩ := meets_append.1 h
    refine rel_switching (k := .reformatting calls) hsubject
      (hgroups.of_within.imp fun c d hcd => ?_)
    refine rel_caseClause (k := .reformatting calls) hcd ?_
    simp only [caseReading, meets_append, meets_cons] at hcd
    exact rel_caseBody hcd.1.1.1 hcd.1.2.of_within hcd.2.1
  spares d calls calls' hhush t h := by
    obtain ⟨hreading, hstanding⟩ := clean_append.1 h
    obtain ⟨hsubject, hgroups⟩ := clean_append.1 hreading
    refine rel_switching (k := hhush.agreement calls') ⟨rfl, hsubject⟩ ?_
    rw [Path.select_without, List.forall₂_map_right_iff, List.forall₂_same]
    intro x hx
    have hgroup := hgroups.of_within hx
    have hbeside := (clean_cons.1 (Clean.of_within hstanding hx)).1
    refine rel_caseClause (k := hhush.agreement calls') ⟨rfl, hgroup⟩ ?_
    simp only [caseReading, clean_append, clean_cons] at hgroup
    exact keeps_caseBody hhush (fun _ hy => hgroup.1.2.of_within hy) hgroup.2.1
      fun y hy => (hbeside y hy).isKept rfl

/-! ## The tables -/

def standingReadings : List (String × Reading) :=
  statementReadings.map fun entry => (entry.1, entry.2 ++ standingReading entry.1)

theorem handles_statementRules :
    List.Forall₂ (fun rule reading => rule.1 = reading.1 ∧
      Handles commentKinds rule.2 reading.2 (standingReading reading.1))
      statementRules statementReadings := by
  have hswitching : Handles commentKinds switching switchReading
      (standingReading "switch_expression") := handles_switching
  simp only [statementRules, statementReadings, List.forall₂_cons, List.forall₂_nil_left_iff,
    and_true, Agrees.handles, agrees_variableDeclaration, agrees_expressionStatement,
    agrees_constructorCall, agrees_block, agrees_conditional, agrees_whileLoop, agrees_doLoop,
    agrees_forLoop, agrees_forEach, handles_switching, hswitching, agrees_tryStatement,
    agrees_valueStatement, agrees_throwing, handles_asserting, agrees_leaf, agrees_synchronized,
    handles_labelled, agrees_typeDeclaration, agrees_commentNode, agrees_localClass]

theorem rel_statement (h : (statementReading s.kind).Meets calls s t) :
    Option.Rel Node.Same (statement calls s) (statement calls t) :=
  RuleTable.rel_apply (handles_statementRules.imp fun _ _ hrule => ⟨hrule.1, hrule.2.respects⟩)
    agrees_otherStatement.respects h

theorem reads_step : Reads step readings := by
  intro calls use s t hown h
  cases use with
  | expression =>
    exact RuleTable.rel_apply
      (handles_expressionRules.imp fun _ _ hrule => ⟨hrule.1, hrule.2.respects⟩)
      (agrees_otherExpression : Agrees otherExpression otherReading).respects h
  | statement => exact rel_statement h
  | declaration =>
    exact Agreement.apply (k := .reformatting calls) agrees_declarationRules rel_statement h
  | typeRef => exact agrees_typeRef.respects calls s t h
  | source view => exact Use.meets_source h.1 hown

def standingStatement (kind : String) : Reading :=
  (standingReadings.lookup kind).getD [(here, .collapsed)]

theorem keeps_statement (hhush : Hushes d calls)
    (h : (standingStatement t.kind).Clean d calls calls' t) :
    Keeps Node.Like (statement calls t) (statement calls' (t.without d)) := by
  refine RuleTable.keeps_apply hhush ?_ agrees_otherStatement.spares h
  rw [standingReadings, List.forall₂_map_right_iff]
  exact handles_statementRules.imp fun _ _ hrule => ⟨hrule.1, hrule.2.spares⟩

/-- What the lowering of Java reads, with the comments that change the code around them. -/
def takenReadings : Readings
  | .statement, kind => standingStatement kind
  | .declaration, kind => (declarationReadings.lookup kind).getD (standingStatement kind)
  | use, kind => readings use kind

theorem statement_comment (calls : Calls) (h : t.isCommentOf commentKinds = true) :
    statement calls t = some (commentNode t) :=
  statement_of_comment calls (kind_of_isCommentOf h)

theorem declaration_comment (calls : Calls) (h : t.isCommentOf commentKinds = true) :
    declaration calls t = some (commentNode t) := by
  rw [declaration, RuleTable.apply]
  rcases kind_of_isCommentOf h with hkind | hkind <;> rw [hkind] <;> rfl

theorem expression_comment (calls : Calls) (h : t.isCommentOf commentKinds = true) :
    expression calls t = some (otherNode t []) := by
  have hother : otherExpression calls t = some (otherNode t []) := by
    rw [otherExpression, Tree.named, Tree.children_of_isCommentOf h]
    rfl
  rw [expression, RuleTable.apply, ← hother]
  rcases kind_of_isCommentOf h with hkind | hkind <;> rw [hkind] <;> rfl

theorem typeRef_comment (calls : Calls) (h : t.isCommentOf commentKinds = true) :
    typeRef calls t = some (nodeOf (.typeRef t.collapsed) t []) := by
  rcases kind_of_isCommentOf h with hkind | hkind <;> simp [typeRef, hkind]

theorem keeps_comment {use : Use} (h : t.isCommentOf commentKinds = true) :
    use.Agrees (step calls) (step calls') (Keeps Node.Like) t (t.without d) := by
  have hkeeps {rule : Rule} {node : Node} (hnode : ∀ calls, rule calls t = some node) :
      Keeps Node.Like (rule calls t) (rule calls' (t.without d)) := by
    rw [Tree.without_of_isCommentOf d h, hnode, hnode]
    exact .answer rfl
  cases use with
  | expression => exact hkeeps fun calls => expression_comment calls h
  | statement => exact hkeeps fun calls => statement_comment calls h
  | typeRef => exact hkeeps fun calls => typeRef_comment calls h
  | declaration => exact hkeeps fun calls => declaration_comment calls h
  | source view => exact congrArg view (Tree.without_text d t).symm

theorem sparing_step : Sparing commentKinds step takenReadings where
  hushes {d} calls use hcode x hx m hm := by
    have hnode : some (commentNode x) = some m := by
      cases use with
      | statement => exact (statement_comment calls (d.isComment hx)).symm.trans hm
      | declaration => exact (declaration_comment calls (d.isComment hx)).symm.trans hm
      | _ => cases hcode
    cases hnode
    rfl
  keeps {d calls calls' use t} hhush h := by
    cases use with
    | expression =>
      refine RuleTable.keeps_apply hhush ?_ agrees_otherExpression.spares h
      exact handles_expressionRules.imp fun _ _ hrule => ⟨hrule.1, by simpa using hrule.2.spares⟩
    | statement => exact keeps_statement hhush h
    | typeRef => exact agrees_typeRef.spares d calls calls' hhush t h
    | declaration =>
      exact Agreement.apply (k := hhush.agreement calls') agrees_declarationRules
        (fun hrest => keeps_statement hhush hrest.2) ⟨rfl, h⟩
    | source view => exact congrArg view (Tree.without_text d t).symm
  comment := keeps_comment

end CodeEvolution.Lowering.Java
