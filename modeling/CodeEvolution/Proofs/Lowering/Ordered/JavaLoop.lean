import CodeEvolution.Proofs.Lowering.Ordered.JavaDeclaration
/-!
# Java conditionals and loops from parts in order

The rules for conditionals and loops build tidy nodes. The head of a `for` loop is followed child by
child from one separator to the next. A loop that declares its variable has one separator less to
count, so its missing condition is put before the closing parenthesis and thus behind the update.
-/
namespace CodeEvolution.Lowering.Java

open Syntax (Tree)
open Node (Row)

variable {anchor : Span} {third : Nat} {calls : Calls} {t x : Tree} {start stop cut : Nat}
  {tree : Option Tree} {name : String} {nodes updates : List Node} {type body : Node}
  {xs tail : List Tree} {opening spans : List Span} {second first : Nat} (test : Nat → Bool)

/-! ## Bodies and conditions -/

section

variable (h : Orders .java calls t)

include h

theorem row_bodyAt (horder : Tree.inOrder start stop tree.toList = true)
    (htree : ∀ x ∈ tree, x.IsBelow t)
    (hf : tree = none → Row .java start stop [Node.leaf .block anchor]) :
    YieldsIn .java start stop (bodyAt calls tree anchor) := by
  cases tree with
  | none => exact .answer (hf rfl)
  | some body =>
    have hbelow := htree body rfl
    have hbounds := Tree.inOrder_singleton.1 horder
    unfold bodyAt
    dsimp only
    split
    · exact (fits_block (h.below hbelow)).imp fun _ hnode => row_of_fits hnode hbounds.1 hbounds.2.2
    · exact (h.statement hbelow).bind fun _ hnode =>
        .answer (row_of_fits (fits_node rfl hnode) hbounds.1 hbounds.2.2)

theorem row_lastBody (horder : Tree.inOrder start t.span.endOffset tree.toList = true)
    (htree : ∀ x ∈ tree, x.IsBelow t) :
    YieldsIn .java start t.span.endOffset (bodyAt calls tree t.span.endPoint) :=
  row_bodyAt h horder htree fun _ => Node.row_leaf .refl (Tree.le_of_inOrder horder) .refl

theorem row_bodyField
    (horder : Tree.inOrder start t.span.endOffset ((Path.field name).select t) = true) :
    YieldsIn .java start t.span.endOffset (bodyAt calls (t.field? name) t.span.endPoint) :=
  row_lastBody h horder fun _ hx => Tree.isBelow_of_field? hx

theorem row_condition (horder : Tree.inOrder start stop ((Path.field "condition").select t) = true)
    (hf : t.field? "condition" = none → Row .java start stop [absentBefore t]) :
    YieldsIn .java start stop (condition calls t) := by
  unfold condition
  split
  · rename_i test htest
    have hbelow := Tree.isBelow_of_field? htest
    have hbounds := bounds_of_field horder htest
    split
    · have htest := h.below hbelow
      exact (htest.firstExpression htest.absentAfter).imp fun _ hnode =>
        row_of_fits hnode hbounds.1 hbounds.2.2
    · exact (h.expression hbelow).imp fun _ hnode => row_of_fits hnode hbounds.1 hbounds.2.2
  · rename_i hnone
    exact .answer (hf hnone)

theorem row_firstCondition
    (horder : Tree.inOrder t.span.startOffset stop ((Path.field "condition").select t) = true) :
    YieldsIn .java t.span.startOffset stop (condition calls t) :=
  row_condition h horder fun _ => row_absentBefore (Tree.le_of_inOrder horder)

end

/-! ## Conditionals and loops -/

section

variable (h : Orders .java calls t)

include h

theorem row_alternativeOf {last : Node} (hnodes : Row .java start cut nodes)
    (hlast : nodes.getLast? = some last)
    (horder : Tree.inOrder cut stop ((Path.field "alternative").select t) = true) :
    Yields (fun node => Row .java start stop (nodes ++ [node]))
      (alternativeOf calls anchor last.span.endPoint (t.field? "alternative")) := by
  cases halternative : t.field? "alternative" with
  | none =>
    exact .answer ((hnodes.absentAfter hlast).mono .refl (Tree.le_of_inOrder horder))
  | some alternative =>
    have hbelow := Tree.isBelow_of_field? halternative
    rw [select_field halternative] at horder
    have hbounds := Tree.inOrder_singleton.1 horder
    have hbody : YieldsIn .java cut stop
        (bodyAt calls (some alternative) anchor) :=
      row_bodyAt h horder (by simpa using hbelow) (by simp)
    rw [alternativeOf]
    split
    · exact (h.statement hbelow).imp fun _ hnode =>
        hnodes.append (row_of_fits hnode hbounds.1 hbounds.2.2)
    · exact hbody.imp fun _ hnode => hnodes.append hnode

theorem fits_conditional (hkind : "if_statement" = t.kind) :
    Yields (Fits .java t.span) (conditional calls t) := by
  obtain ⟨_, htest, hparts⟩ := (h.parts hkind rfl).cut
  obtain ⟨_, hconsequence, halternative⟩ := hparts.cut
  rw [conditional_eq]
  refine (row_firstCondition h htest).bind fun test htest => ?_
  refine (row_bodyAt h hconsequence (fun _ hx => Tree.isBelow_of_field? hx)
    (absurd · (h.field?_ne_none hkind rfl (by simp)))).bind fun consequence hconsequence => ?_
  refine (row_alternativeOf h (htest.append hconsequence) rfl halternative.last).bind
    fun alternative halternative => ?_
  exact yields_node rfl halternative

theorem fits_whileLoop (hparts : AllParts t [Path.field "condition", Path.field "body"]) :
    Yields (Fits .java t.span) (whileLoop calls t) := by
  obtain ⟨_, htest, hbody⟩ := hparts.cut
  refine (row_firstCondition h htest).bind fun test htest => ?_
  refine (row_bodyField h hbody.last).bind fun body hbody => ?_
  exact yields_node rfl ((htest.append hbody).absentAfter rfl)

theorem fits_doLoop (hkind : "do_statement" = t.kind) :
    Yields (Fits .java t.span) (doLoop calls t) := by
  obtain ⟨cut, hbody, htest⟩ := (h.parts hkind rfl).cut
  obtain ⟨condition, hcondition⟩ := exists_field_of_isGrammatical h.isGrammatical hkind.symm rfl
    (List.mem_singleton_self "condition")
  have hempty : Row .java t.span.startOffset cut [Node.leaf .block t.span.startPoint] :=
    Node.row_leaf .refl .refl (Tree.le_of_inOrder hbody)
  refine (row_bodyAt h hbody (fun _ hx => Tree.isBelow_of_field? hx) fun _ => hempty).bind
    fun body hbody => ?_
  refine (row_condition h htest.last fun hnone => ?_).bind fun test htest => ?_
  · rw [hcondition] at hnone
    cases hnone
  · exact .answer (Node.row_of_written .refl .refl
      (hbody.append (htest.append (row_absentAfter .refl))))

end

theorem row_loopVariable (name : String) {span : Span}
    (htype : Row .java span.startOffset span.endOffset [type]) :
    Row .java span.startOffset span.endOffset
      [⟨.variable name .regular, span, [type, Node.absentAt span.endPoint]⟩] :=
  Node.row_of_children rfl .refl .refl (htype.append (Node.row_absentAt rfl .refl .refl))

/-- The span of a loop variable starts with its type and ends with its name. -/
theorem row_loopSpan (htype : Row .java start cut [type])
    (hname : Tree.inOrder cut stop ((Path.field "name").select t) = true) :
    start ≤ (loopSpan type.span (t.field? "name")).startOffset ∧
      Row .java (loopSpan type.span (t.field? "name")).startOffset
        (loopSpan type.span (t.field? "name")).endOffset [type] ∧
      (loopSpan type.span (t.field? "name")).endOffset ≤ stop := by
  have hbounds := htype.bounds (List.mem_singleton_self type)
  cases hfield : t.field? "name" with
  | none =>
    exact ⟨hbounds.1, ⟨.refl, hbounds.2.1, hbounds.2.2.2, .refl⟩,
      Nat.le_trans hbounds.2.2.1 (Tree.le_of_inOrder hname)⟩
  | some name =>
    have hname := bounds_of_field hname hfield
    refine ⟨hbounds.1, ⟨.refl, hbounds.2.1, hbounds.2.2.2, ?_⟩, hname.2.2⟩
    exact Nat.le_trans hbounds.2.2.1 (Nat.le_trans hname.1 hname.2.1)

theorem fits_forEach (h : Orders .java calls t)
    (hparts : AllParts t
      [Path.field "type", Path.field "name", Path.field "value", Path.field "body"]) :
    Yields (Fits .java t.span) (forEach calls t) := by
  obtain ⟨_, htype, hparts⟩ := hparts.cut
  obtain ⟨_, hname, hparts⟩ := hparts.cut
  obtain ⟨_, hvalue, hbody⟩ := hparts.cut
  rw [forEach_eq]
  refine (h.typeField htype fun _ => row_absentBefore (Tree.le_of_inOrder htype)).bind
    fun type htype => ?_
  obtain ⟨hstart, htype, hstop⟩ := row_loopSpan htype hname
  have htarget := (row_loopVariable (t.fieldText "name") htype).mono hstart hstop
  refine (row_slotAfter htarget rfl hvalue fun x hx =>
    h.expression (Tree.isBelow_of_field? hx)).bind fun iterable hiterable => ?_
  refine (row_bodyField h hbody.last).bind fun body hbody => ?_
  exact yields_node rfl ((hiterable.append hbody).absentAfter rfl)

/-! ## Loops with three parts -/

theorem row_listOver (hnodes : Row .java start stop nodes)
    (hanchor : nodes = [] → start ≤ anchor.startOffset ∧ anchor.startOffset ≤ stop) :
    Row .java start stop [listOver nodes anchor.startPoint] := by
  unfold listOver
  split
  · rename_i first last hfirst hlast
    exact Node.row_of_children rfl (hnodes.bounds (List.mem_of_head? hfirst)).1
      (hnodes.bounds (List.mem_of_getLast? hlast)).2.2.1 (hnodes.tight hfirst hlast)
  · rename_i hends
    cases nodes with
    | nil => exact Node.row_leaf .refl (hanchor rfl).1 (hanchor rfl).2
    | cons first rest => exact absurd List.getLast?_cons (hends first _ rfl)

theorem kind_variableDeclaration :
    Yields (fun node => node.kind.isVariableDeclaration = true) (variableDeclaration calls t) := by
  unfold variableDeclaration
  cases fieldSlot calls.typeRef t "type" (absentBefore t) with
  | none => exact .silence trivial
  | some type =>
    cases (t.namedOf "variable_declarator").mapM (declarator calls) with
    | none => exact .silence trivial
    | some declarators => exact .answer rfl

/-! ### The stages of a head -/

theorem staged_append {stage : Nat} (hseparator : ∀ x ∈ xs, isSeparator x = false)
    (hdeclared : stage = 0 → ∀ x ∈ xs, isDeclared x = false) (ys : List Tree) :
    staged stage (xs ++ ys) = (xs.filter isHeadPart).map (stage, ·) ++ staged stage ys := by
  induction xs with
  | nil => rfl
  | cons x rest ih =>
    rw [List.forall_mem_cons] at hseparator
    have ih := ih hseparator.2 fun hzero => (List.forall_mem_cons.1 (hdeclared hzero)).2
    rw [List.cons_append, staged, ih]
    cases hnamed : x.isNamed with
    | false =>
      have hkind := hseparator.1
      simp only [isSeparator, hnamed, Bool.not_false, Bool.true_and, Bool.or_eq_false_iff] at hkind
      simp [hkind, isHeadPart, hnamed]
    | true =>
      have hstage : (stage == 0 && x.kind == "local_variable_declaration") = false := by
        by_cases hzero : stage = 0
        · simpa [hzero, isDeclared, hnamed] using (List.forall_mem_cons.1 (hdeclared hzero)).1
        · simp [hzero]
      by_cases hcomment : (x.kind == "line_comment" || x.kind == "block_comment") = true
      · simp [hcomment, isHeadPart, hnamed]
      · simp [hcomment, isHeadPart, hnamed, hstage, ih]

theorem staged_separator (hx : isSeparator x = true) (stage : Nat) (xs : List Tree) :
    staged stage (x :: xs) = staged (if x.kind == ";" then stage + 1 else 3) xs := by
  obtain ⟨htoken, hkind⟩ := Bool.and_eq_true_iff.1 hx
  rw [staged, if_pos htoken]
  cases hsemicolon : x.kind == ";" with
  | true => rfl
  | false =>
    rw [hsemicolon, Bool.false_or] at hkind
    simp [hkind]

theorem staged_opener (hx : (isSeparator x || isDeclared x) = true) (hkind : (x.kind != ")") = true)
    (xs : List Tree) :
    staged 0 (x :: xs) = (if isDeclared x then [(0, x)] else []) ++ staged 1 xs := by
  by_cases hdeclared : isDeclared x = true
  · obtain ⟨hnamed, hlocal⟩ := Bool.and_eq_true_iff.1 hdeclared
    simp [staged, hdeclared, hnamed, beq_iff_eq.1 hlocal]
  · have hseparator : isSeparator x = true := by simpa [hdeclared] using hx
    have hsemicolon : (x.kind == ";") = true := by
      have hparen : (x.kind == ")") = false := by simpa using hkind
      simpa [isSeparator, hparen] using (Bool.and_eq_true_iff.1 hseparator).2
    rw [staged_separator hseparator, if_pos hsemicolon, if_neg hdeclared]
    rfl

theorem staged_of_no_parts (h : ∀ x ∈ xs, isHeadPart x = false) (stage : Nat) :
    staged stage xs = [] := by
  induction xs generalizing stage with
  | nil => rfl
  | cons x rest ih =>
    rw [List.forall_mem_cons] at h
    have hx := h.1
    rw [staged]
    repeat' split
    all_goals first | exact ih h.2 _ | simp_all [isHeadPart]

/-- Behind the head stands the body, or a lone separator. -/
def isTail (trees : List Tree) : Bool :=
  trees.all (fun tree => !isSeparator tree) || trees.all fun tree => !isHeadPart tree

theorem staged_tail (htail : isTail tail = true) :
    staged 3 tail = (tail.filter isHeadPart).map (3, ·) := by
  rcases Bool.or_eq_true_iff.1 htail with htail | htail
  · simp only [List.all_eq_true, Bool.not_eq_true'] at htail
    simpa [staged] using staged_append htail (by simp) []
  · simp only [List.all_eq_true, Bool.not_eq_true'] at htail
    rw [staged_of_no_parts htail, List.filter_eq_nil_iff.2 (by simpa using htail), List.map_nil]

theorem exists_tail (htail : isTail tail = true) (horder : Tree.inOrder start stop tail = true) :
    ∃ third, start ≤ third ∧
      (∀ span ∈ (tail.filter isSeparator).map Tree.span,
        start ≤ span.startOffset ∧ span.startOffset ≤ third) ∧
      Tree.inOrder third stop (tail.filter isHeadPart).getLast?.toList = true := by
  rcases Bool.or_eq_true_iff.1 htail with htail | htail
  · simp only [List.all_eq_true, Bool.not_eq_true'] at htail
    refine ⟨start, .refl, ?_, ?_⟩
    · simp [List.filter_eq_nil_iff.2 (by simpa using htail)]
    · refine Tree.inOrder_sublist ?_ horder
      cases hlast : (tail.filter isHeadPart).getLast? with
      | none => simp
      | some body =>
        exact List.singleton_sublist.2 (List.mem_filter.1 (List.mem_of_getLast? hlast)).1
  · simp only [List.all_eq_true, Bool.not_eq_true'] at htail
    have hnone : tail.filter isHeadPart = [] := List.filter_eq_nil_iff.2 (by simpa using htail)
    refine ⟨stop, Tree.le_of_inOrder horder, ?_, by simp [hnone, Tree.inOrder]⟩
    intro span hspan
    obtain ⟨x, hx, rfl⟩ := List.mem_map.1 hspan
    have hbounds := Tree.bounds_of_inOrder horder (List.mem_filter.1 hx).1
    exact ⟨hbounds.1, Nat.le_trans hbounds.2.1 hbounds.2.2⟩

theorem select_stage (stage : Nat) (trees : List Tree) :
    ((trees.map (stage, ·)).filter fun part => test part.1).map Prod.snd =
      if test stage then trees else [] := by
  cases htest : test stage <;> simp [List.filter_map, Function.comp_def, htest]

/-- The children of a loop, cut at the separators of its head. -/
structure LoopHead (tree : Tree) where
  before : List Tree
  opener : Tree
  tests : List Tree
  semicolon : Tree
  updates : List Tree
  paren : Tree
  tail : List Tree
  children_eq :
    tree.children = before ++ opener :: (tests ++ semicolon :: (updates ++ paren :: tail))
  before_plain : ∀ x ∈ before, isSeparator x = false ∧ isDeclared x = false
  opens : (isSeparator opener || isDeclared opener) = true
  opener_kind : (opener.kind != ")") = true
  tests_plain : ∀ x ∈ tests, isSeparator x = false
  semicolon_separates : isSeparator semicolon = true
  semicolon_kind : (semicolon.kind == ";") = true
  updates_plain : ∀ x ∈ updates, isSeparator x = false
  paren_separates : isSeparator paren = true
  paren_kind : (paren.kind == ")") = true
  tail_isTail : isTail tail = true

theorem nonempty_loopHead (h : hasLoopHead t.children = true) : Nonempty (LoopHead t) := by
  obtain ⟨before, opener, rest, hchildren, hbefore, hopener, hrest⟩ := exists_of_upTo h
  obtain ⟨hopenerKind, hrest⟩ := Bool.and_eq_true_iff.1 hrest
  obtain ⟨tests, semicolon, rest, rfl, htests, hsemicolon, hrest⟩ := exists_of_upTo hrest
  obtain ⟨hsemicolonKind, hrest⟩ := Bool.and_eq_true_iff.1 hrest
  obtain ⟨updates, paren, tail, rfl, hupdates, hparen, hrest⟩ := exists_of_upTo hrest
  obtain ⟨hparenKind, htail⟩ := Bool.and_eq_true_iff.1 hrest
  exact ⟨{
    before, opener, tests, semicolon, updates, paren, tail
    children_eq := hchildren
    before_plain := fun x hx => by simpa only [Bool.or_eq_false_iff] using hbefore x hx
    opens := hopener
    opener_kind := hopenerKind
    tests_plain := htests
    semicolon_separates := hsemicolon
    semicolon_kind := hsemicolonKind
    updates_plain := hupdates
    paren_separates := hparen
    paren_kind := hparenKind
    tail_isTail := htail }⟩

namespace LoopHead

variable (head : LoopHead t)

def init : List Tree :=
  head.before.filter isHeadPart ++ if isDeclared head.opener then [head.opener] else []

theorem staged_eq : staged 0 t.children =
    head.init.map (0, ·) ++ ((head.tests.filter isHeadPart).map (1, ·) ++
      ((head.updates.filter isHeadPart).map (2, ·) ++
        (head.tail.filter isHeadPart).map (3, ·))) := by
  have hparen : ¬(head.paren.kind == ";") = true := by simp [beq_iff_eq.1 head.paren_kind]
  rw [head.children_eq, staged_append (fun x hx => (head.before_plain x hx).1)
      fun _ x hx => (head.before_plain x hx).2,
    staged_opener head.opens head.opener_kind, staged_append head.tests_plain (by simp),
    staged_separator head.semicolon_separates, if_pos head.semicolon_kind,
    staged_append head.updates_plain (by simp), staged_separator head.paren_separates,
    if_neg hparen, staged_tail head.tail_isTail, init]
  by_cases hdeclared : isDeclared head.opener = true <;> simp [hdeclared]

theorem select_partsAt : (partsAt test).select t =
    (if test 0 then head.init else []) ++
      ((if test 1 then head.tests.filter isHeadPart else []) ++
        ((if test 2 then head.updates.filter isHeadPart else []) ++
          if test 3 then head.tail.filter isHeadPart else [])) := by
  show ((staged 0 t.children).filter fun part => test part.1).map Prod.snd = _
  rw [head.staged_eq]
  simp only [List.filter_append, List.map_append, select_stage]

theorem separators_eq : separators t =
    (if isSeparator head.opener then [head.opener.span] else []) ++
      head.semicolon.span :: head.paren.span :: (head.tail.filter isSeparator).map Tree.span := by
  have hnone {xs : List Tree} (hxs : ∀ x ∈ xs, isSeparator x = false) :
      xs.filter isSeparator = [] := List.filter_eq_nil_iff.2 (by simpa using hxs)
  have hsemicolon := head.semicolon_separates
  have hparen := head.paren_separates
  simp only [separators, head.children_eq, List.filter_append, List.filter_cons, hsemicolon, hparen,
    hnone fun x hx => (head.before_plain x hx).1, hnone head.tests_plain,
    hnone head.updates_plain, if_true]
  split <;> simp

/-- Where the children stand in order, so do the pieces between the separators. -/
theorem exists_cuts (horder : Tree.inOrder start stop t.children = true) :
    ∃ first second third,
      (Tree.inOrder start first head.before = true ∧ first ≤ head.opener.span.startOffset ∧
        head.opener.span.startOffset ≤ head.opener.span.endOffset) ∧
      (Tree.inOrder head.opener.span.endOffset second head.tests = true ∧
        second ≤ head.semicolon.span.startOffset ∧
        head.semicolon.span.startOffset ≤ head.semicolon.span.endOffset) ∧
      (Tree.inOrder head.semicolon.span.endOffset third head.updates = true ∧
        third ≤ head.paren.span.startOffset ∧
        head.paren.span.startOffset ≤ head.paren.span.endOffset) ∧
      Tree.inOrder head.paren.span.endOffset stop head.tail = true := by
  rw [head.children_eq] at horder
  obtain ⟨first, hbefore, horder⟩ := Tree.inOrder_append.1 horder
  rw [Tree.inOrder_cons, Tree.inOrder_append] at horder
  obtain ⟨hfirst, hopener, second, htests, horder⟩ := horder
  rw [Tree.inOrder_cons, Tree.inOrder_append] at horder
  obtain ⟨hsecond, hsemicolon, third, hupdates, horder⟩ := horder
  rw [Tree.inOrder_cons] at horder
  obtain ⟨hthird, hparen, htail⟩ := horder
  exact ⟨first, second, third, ⟨hbefore, hfirst, hopener⟩, ⟨htests, hsecond, hsemicolon⟩,
    ⟨hupdates, hthird, hparen⟩, htail⟩

end LoopHead

/-- An initialization is followed by a separator, or it is a declaration. -/
def Closes (start stop : Nat) (init : List Node) (separators : List Span) : Prop :=
  (∃ span, separators = [span] ∧ start ≤ span.startOffset ∧ span.startOffset ≤ stop) ∨
    (separators = [] ∧ init.any (·.kind.isVariableDeclaration) = true)

theorem listOver_children (nodes : List Node) (anchor : Span) :
    (listOver nodes anchor).children = nodes := by
  cases nodes with
  | nil => rfl
  | cons first rest => rw [listOver, List.head?_cons, List.getLast?_cons]

/-- A missing update stands at the last separator. -/
theorem row_update {semicolon paren : Span} (hupdates : Row .java second paren.startOffset updates)
    (hparen : paren.startOffset ≤ third)
    (hspans : ∀ span ∈ spans, paren.startOffset ≤ span.startOffset ∧ span.startOffset ≤ third) :
    Row .java second third [listOver updates
      ((opening ++ semicolon :: paren :: spans).getLast?.getD anchor).startPoint] := by
  refine row_listOver (hupdates.mono .refl hparen) fun _ => ?_
  have hlast : (opening ++ semicolon :: paren :: spans).getLast? =
      some (spans.getLast?.getD paren) := by
    simp [List.getLast?_append, List.getLast?_cons]
  rw [hlast, Option.getD_some]
  cases hmore : spans.getLast? with
  | none => exact ⟨hupdates.le, hparen⟩
  | some span =>
    have hspan := hspans span (List.mem_of_getLast? hmore)
    exact ⟨Nat.le_trans hupdates.le hspan.1, hspan.2⟩

/-- The slot of a condition may lie behind the update if it strays from it. -/
theorem fits_strayingTest (h : Orders .java calls t) {init test update : Node}
    (hinit : Row .java t.span.startOffset first [init]) (htest : Row .java first third [test])
    (hle : first ≤ second) (hupdate : Row .java second third [update])
    (hbody : Row .java third t.span.endOffset [body])
    (hstray : (nodeOf (.forLoop .classic) t [init, test, update, body]).strays .java
      test update = true) :
    Fits .java t.span (nodeOf (.forLoop .classic) t [init, test, update, body]) := by
  have hinit := hinit.bounds (List.mem_singleton_self _)
  have htest := htest.bounds (List.mem_singleton_self _)
  have hupdate := hupdate.bounds (List.mem_singleton_self _)
  have hbody := hbody.bounds (List.mem_singleton_self _)
  refine h.straying rfl ?_ (by simp [hinit, htest, hupdate, hbody])
  simp only [List.pairwise_cons, List.forall_mem_cons, List.not_mem_nil, false_implies,
    implies_true, List.Pairwise.nil, and_true]
  exact ⟨⟨.inl (by omega), .inl (by omega), .inl (by omega)⟩, ⟨.inr hstray, .inl (by omega)⟩,
    .inl (by omega)⟩

/-- The parts of a loop lie one after the other, but for a condition missing behind a declaration:
its empty slot lies behind the update. -/
theorem fits_head (h : Orders .java calls t) {init tests : List Node} {semicolon paren : Tree}
    (hseparators : separators t = opening ++ semicolon.span :: paren.span :: spans)
    (hinit : Row .java t.span.startOffset first init)
    (hopening : Closes t.span.startOffset first init opening)
    (htests : Row .java first semicolon.span.startOffset tests)
    (hsemicolon : semicolon.span.startOffset ≤ semicolon.span.endOffset)
    (hupdates : Row .java semicolon.span.endOffset paren.span.startOffset updates)
    (hparen : paren.span.startOffset ≤ third)
    (hspans : ∀ span ∈ spans, paren.span.startOffset ≤ span.startOffset ∧ span.startOffset ≤ third)
    (hbody : Row .java third t.span.endOffset [body]) :
    Fits .java t.span (nodeOf (.forLoop .classic) t
      (headNodes t init tests.getLast? updates ++ [body])) := by
  have hfirst : first ≤ semicolon.span.startOffset := htests.le
  have hinitNode : Row .java t.span.startOffset first [listOver init
      ((opening ++ semicolon.span :: paren.span :: spans).head?.getD
        t.span.startPoint).startPoint] := by
    refine row_listOver hinit fun hnone => ?_
    rcases hopening with ⟨span, rfl, hspan⟩ | ⟨_, hdeclared⟩
    · exact hspan
    · rw [hnone] at hdeclared
      cases hdeclared
  have hupdateNode : Row .java semicolon.span.endOffset third [listOver updates
      ((opening ++ semicolon.span :: paren.span :: spans).getLast?.getD
        t.span.startPoint).startPoint] := row_update hupdates hparen hspans
  have hemptyUpdate : updates = [] → Row .java paren.span.startOffset third [listOver updates
      ((opening ++ semicolon.span :: paren.span :: spans).getLast?.getD
        t.span.startPoint).startPoint] := by
    rintro rfl
    exact row_update .refl hparen hspans
  unfold headNodes
  rw [hseparators]
  generalize ((opening ++ semicolon.span :: paren.span :: spans).head?.getD
    t.span.startPoint).startPoint = a at hinitNode ⊢
  generalize ((opening ++ semicolon.span :: paren.span :: spans).getLast?.getD
    t.span.startPoint).startPoint = b at hupdateNode hemptyUpdate ⊢
  have hplain {test : Node} (htest : Row .java first semicolon.span.endOffset [test]) :
      Fits .java t.span (nodeOf (.forLoop .classic) t
        [listOver init a, test, listOver updates b, body]) :=
    fits_node rfl (hinitNode.append (htest.append (hupdateNode.append hbody)))
  cases htest : tests.getLast? with
  | some test =>
    have hbounds := htests.bounds (List.mem_of_getLast? htest)
    exact hplain ⟨hbounds.1, hbounds.2.1, hbounds.2.2.2, Nat.le_trans hbounds.2.2.1 hsemicolon⟩
  | none =>
    rcases hopening with ⟨span, rfl, _⟩ | ⟨rfl, hdeclared⟩
    · exact hplain (Node.row_absentAt rfl hfirst hsemicolon)
    · have hsecond := Nat.le_trans hfirst hsemicolon
      have htest : Row .java first paren.span.startOffset [Node.absentAt paren.span.startPoint] :=
        Node.row_absentAt rfl (Nat.le_trans hsecond hupdates.le) .refl
      by_cases hnone : updates = []
      · exact fits_node rfl (hinitNode.append (htest.append ((hemptyUpdate hnone).append hbody)))
      · refine fits_strayingTest h hinitNode (htest.mono .refl hparen) hsecond hupdateNode hbody ?_
        simp [Node.strays, nodeOf, listOver_children, listOver_kind, hdeclared, hnone]

theorem fits_initNode (h : Orders .java calls t) (hx : x.IsBelow t) :
    Yields (fun node => Fits .java x.span node ∧
      (isDeclared x = true → node.kind.isVariableDeclaration = true)) (initNode calls x) := by
  rw [initNode]
  split
  · rename_i hkind
    refine ((fits_variableDeclaration (h.below hx) ((h.below hx).parts (beq_iff_eq.1 hkind).symm
      rfl)).and kind_variableDeclaration).imp fun node hnode => ⟨hnode.1, fun _ => hnode.2⟩
  · rename_i hkind
    refine (h.expression hx).imp fun node hnode => ⟨hnode, fun hdeclared => ?_⟩
    exact absurd (Bool.and_eq_true_iff.1 hdeclared).2 hkind

theorem yields_init (h : Orders .java calls t) {before : List Tree} {opener : Tree} {cut : Nat}
    (hbefore : ∀ x ∈ before, x.IsBelow t) (horder : Tree.inOrder start cut before = true)
    (hopener : opener.IsBelow t) (hcut : cut ≤ opener.span.startOffset) :
    Yields (fun init => Row .java start opener.span.endOffset init ∧
      (isDeclared opener = true → init.any (·.kind.isVariableDeclaration) = true))
      ((before.filter isHeadPart ++ if isDeclared opener then [opener] else []).mapM
        (initNode calls)) := by
  have hrow : Yields (Row .java start cut) ((before.filter isHeadPart).mapM (initNode calls)) :=
    row_mapM (Tree.inOrder_sublist List.filter_sublist horder) fun x hx =>
      (fits_initNode h (hbefore x (List.mem_filter.1 hx).1)).imp fun _ hnode => hnode.1
  by_cases hdeclared : isDeclared opener = true
  · rw [if_pos hdeclared, List.mapM_append]
    refine hrow.bind fun nodes hnodes => ?_
    rw [List.mapM_cons, List.mapM_nil, bind_assoc]
    refine (fits_initNode h hopener).bind fun node hnode => .answer ⟨?_, fun _ => ?_⟩
    · exact hnodes.append (row_of_fits hnode.1 hcut .refl)
    · simp [hnode.2 hdeclared]
  · rw [if_neg hdeclared, List.append_nil]
    exact hrow.imp fun nodes hnodes => ⟨hnodes.mono .refl
      (Nat.le_trans hcut (h.below hopener).le), fun hpos => absurd hpos hdeclared⟩

theorem fits_forLoop (h : Orders .java calls t) (hkind : "for_statement" = t.kind) :
    Yields (Fits .java t.span) (forLoop calls t) := by
  obtain ⟨head⟩ := nonempty_loopHead (hasLoopHead_of_isGrammatical h.isGrammatical hkind.symm)
  obtain ⟨first, second, third, ⟨hbefore, hfirst, hopener⟩, ⟨htests, hsecond, hsemicolon⟩,
    ⟨hupdates, hthird, hparen⟩, htail⟩ := head.exists_cuts (Tree.inOrder_children h.isNested)
  obtain ⟨last, hlast, hspans, hbody⟩ := exists_tail head.tail_isTail htail
  have hinit : (partsAt (· == 0)).select t = head.init := by
    simpa using head.select_partsAt (· == 0)
  have htest : (partsAt (· == 1)).select t = head.tests.filter isHeadPart := by
    simpa using head.select_partsAt (· == 1)
  have hupdate : (partsAt (· == 2)).select t = head.updates.filter isHeadPart := by
    simpa using head.select_partsAt (· == 2)
  have hlastPart : (partsAt (3 ≤ ·)).select t = head.tail.filter isHeadPart := by
    simpa using head.select_partsAt (3 ≤ ·)
  have hbelow : ∀ x ∈ t.children, x.IsBelow t := fun _ hx => Tree.isBelow_of_mem hx
  rw [head.children_eq] at hbelow
  rw [forLoop_eq, hinit, htest, hupdate, hlastPart]
  refine (yields_init h (fun x hx => hbelow x (by simp [hx])) hbefore
    (hbelow head.opener (by simp)) hfirst).bind fun init hinit => ?_
  refine (h.expressions (Tree.inOrder_sublist List.filter_sublist htests) fun x hx =>
    hbelow x (by simp [(List.mem_filter.1 hx).1])).bind fun tests htests => ?_
  refine (h.expressions (Tree.inOrder_sublist List.filter_sublist hupdates) fun x hx =>
    hbelow x (by simp [(List.mem_filter.1 hx).1])).bind fun updates hupdates => ?_
  refine (row_lastBody h hbody fun x hx => hbelow x (by
    simp [(List.mem_filter.1 (List.mem_of_getLast? hx)).1])).bind fun body hbody => .answer ?_
  refine fits_head h head.separators_eq hinit.1 ?_ (htests.mono .refl hsecond) hsemicolon
    (hupdates.mono .refl hthird) (Nat.le_trans hparen hlast)
    (fun span hspan => ⟨Nat.le_trans hparen (hspans span hspan).1, (hspans span hspan).2⟩) hbody
  split
  · exact .inl ⟨head.opener.span, rfl, Nat.le_trans (Tree.le_of_inOrder hbefore) hfirst, hopener⟩
  · rename_i hseparator
    exact .inr ⟨rfl, hinit.2 (by simpa [hseparator] using head.opens)⟩

end CodeEvolution.Lowering.Java
