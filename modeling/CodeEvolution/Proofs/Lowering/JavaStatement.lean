import CodeEvolution.Lowering.Java.Statement
import CodeEvolution.Proofs.Lowering.JavaDeclaration
/-!
# What the rules for Java statements read

The reading of every rule for statements, and the proof that the rule agrees with it. The parts of
a `for` loop are told apart by counting separators, so their reading goes by the stage at which
each part is met. Texts are taken over for names, for lines without an expression, and for every
statement without a rule. Assertions, labels and the groups of a `switch` go by the place of a
child, so what they need to know of their children is left as a hypothesis here.
-/
namespace CodeEvolution.Lowering.Java

open Syntax (Tree Deletion)
open Lowering.Path
open Lowering.Reading (within onKind offKind takes_cases)
open Lowering.Agreement (meets_cons meets_append uses_here fieldText_eq option_map_text_eq
  first_or_own)

variable {k : Agreement commentKinds} {d : Deletion commentKinds} {s t : Tree}

instance : (namedOf "parenthesized_expression").Skips commentKinds := skips_namedOf rfl

instance : (namedOf "catch_formal_parameter").Skips commentKinds := skips_namedOf rfl

instance : (namedOf "catch_type").Skips commentKinds := skips_namedOf rfl

instance : (namedOf "block").Skips commentKinds := skips_namedOf rfl

instance : (namedOf "catch_clause").Skips commentKinds := skips_namedOf rfl

instance : (namedOf "finally_clause").Skips commentKinds := skips_namedOf rfl

/-! ## Simple statements -/

def bodyReading : Reading :=
  onKind ["block", "constructor_body"] blockReading ++
  offKind ["block", "constructor_body"] [(here, .statement)]

theorem rel_bodyAt {x y : Option Tree} {a b : Span}
    (h : List.Forall₂ (k.Meets bodyReading) x.toList y.toList) :
    k.Answers k.Nodes (bodyAt k.calls x a) (bodyAt k.calls' y b) := by
  cases rel_toList_iff.1 h with
  | none => exact k.answer k.leaf
  | @some c d hcd =>
    obtain ⟨hblock, hsingle⟩ := meets_append.1 hcd
    simp only [bodyAt, ← hcd.kind_eq]
    split
    · rename_i hkind
      exact agrees_block k c d (hblock.of_onKind (by simpa using hkind))
    · rename_i hkind
      have hinner : k.Outcome .statement c d := hsingle.here_of_offKind (by simpa using hkind)
      exact k.bind hinner fun _ _ hinner => k.unary hinner

def conditionReading : Reading :=
  within (field "condition") (
    onKind ["parenthesized_expression"] [(named.first, .expression)] ++
    offKind ["parenthesized_expression"] [(here, .expression)])

theorem rel_condition (h : k.Meets conditionReading s t) :
    k.Answers k.Nodes (condition k.calls s) (condition k.calls' t) := by
  have htest := rel_toList_iff.1 (Agreement.Meets.of_within h)
  rw [condition, condition]
  generalize s.field? "condition" = x at htest
  generalize t.field? "condition" = y at htest
  cases htest with
  | none => exact k.answer k.leaf
  | some hcd =>
    obtain ⟨hwrapped, hplain⟩ := meets_append.1 hcd
    simp only [← hcd.kind_eq]
    split
    · rename_i hkind
      have h := hwrapped.of_onKind (by simpa using hkind)
      exact k.expressionSlot (meets_cons.1 h).1
    · rename_i hkind
      exact hplain.here_of_offKind (by simpa using hkind)

def lineReading : Reading :=
  (named.hereIf (· == 0), .collapsed) ::
  within named.first (
    onKind ["assignment_expression"] binaryReading ++
    offKind ["assignment_expression"] [(here, .expression)])

instance : Reading.Takes commentKinds (onKind ["assignment_expression"] binaryReading ++
    offKind ["assignment_expression"] [(here, .expression)]) :=
  takes_cases (by decide) rfl

theorem agrees_expressionStatement : Agrees expressionStatement lineReading := by
  intro k s t h
  have hinner := (meets_append.1 (show k.Meets ([_] ++ _) s t from h)).2
  obtain ⟨hs, ht, hown⟩ | ⟨c, d, hs, ht, hcd⟩ := first_or_own h hinner.of_within
  · simp only [expressionStatement, hs, ht]
    exact k.answer (k.otherNode h hown .nil)
  · obtain ⟨hassignment, hother⟩ := meets_append.1 hcd
    simp only [expressionStatement, hs, ht, ← hcd.kind_eq]
    split
    · rename_i hkind
      exact rel_assignmentAt (hassignment.of_onKind (by simpa using hkind))
    · rename_i hkind
      have hvalue : k.Outcome .expression c d := hother.here_of_offKind (by simpa using hkind)
      exact k.bind hvalue fun _ _ hvalue => k.unary hvalue

def constructorReading : Reading :=
  (field "constructor", .text) :: (field "object", .expression) ::
  within (field "arguments") argumentsReading

theorem agrees_constructorCall : Agrees constructorCall constructorReading := by
  intro k s t h
  simp only [constructorReading, meets_cons] at h
  obtain ⟨hname, hreceiver, harguments⟩ := h
  have hname : (s.field? "constructor").map Tree.text = (t.field? "constructor").map Tree.text :=
    option_map_text_eq hname
  refine k.bind (k.expressionSlot hreceiver) fun _ _ hreceiver => ?_
  refine k.bind (rel_argumentsOf harguments.of_within) fun _ _ harguments => ?_
  rw [hname]
  exact k.unary (k.node (.cons hreceiver harguments))

theorem agrees_valueStatement (kind : NodeKind) :
    Agrees (valueStatement kind) [(named.first, .expression)] := by
  intro k s t h
  exact k.bind (k.expressionSlot (meets_cons.1 h).1) fun _ _ hvalue => k.unary hvalue

theorem agrees_throwing : Agrees throwing [(named.first, .expression)] := by
  intro k s t h
  exact k.bind (k.expressionSlot (meets_cons.1 h).1) fun _ _ hvalue => k.binary hvalue k.leaf

def synchronizedReading : Reading :=
  ((namedOf "parenthesized_expression").first / named.first, .expression) ::
  within (field "body") bodyReading

theorem agrees_synchronized : Agrees synchronized synchronizedReading := by
  intro k s t h
  obtain ⟨hlock, hbody⟩ := meets_cons.1 h
  have hlock : List.Forall₂ (k.Uses .expression)
      ((s.namedOf "parenthesized_expression").head?.bind fun inner => inner.named.head?).toList
      ((t.namedOf "parenthesized_expression").head?.bind fun inner =>
        inner.named.head?).toList := by
    rw [toList_bind, toList_bind]
    exact hlock
  refine k.bind (k.expressionSlot hlock) fun _ _ hlock => ?_
  refine k.bind (rel_bodyAt hbody.of_within) fun _ _ hbody => ?_
  exact k.binary hlock hbody

def labelReading : Reading :=
  ((named.last.having (· != "identifier")).hereIf (· == 0), .collapsed) ::
  within named.last (offKind ["identifier"] [(here, .statement)])

theorem rel_labelled (h : k.Meets labelReading s t)
    (hinner : Option.Rel (k.Meets (offKind ["identifier"] [(here, .statement)]))
      s.named.getLast? t.named.getLast?) :
    k.Answers k.Nodes (labelled k.calls s) (labelled k.calls' t) := by
  have hother (hnot : ∀ inner ∈ s.named.getLast?, inner.kind = "identifier") :
      k.Outcome .collapsed s t :=
    h.own (by simpa [named, last, having] using hnot)
  unfold labelled
  generalize s.named.getLast? = x at hinner hother ⊢
  generalize t.named.getLast? = y at hinner ⊢
  cases hinner with
  | none => exact k.answer (k.otherNode h (hother (by simp)) .nil)
  | some hcd =>
    simp only [← hcd.kind_eq]
    split
    · rename_i hkind
      exact hcd.here_of_offKind (by simpa using hkind)
    · rename_i hkind
      exact k.answer (k.otherNode h (hother (by simpa using hkind)) .nil)

/-! ## Conditionals and loops -/

/-- The reading of the part behind `else`, where a conditional is not wrapped. -/
def alternativeReading : Reading :=
  onKind ["if_statement"] [(here, .statement)] ++ offKind ["if_statement"] bodyReading

def alternativeOf (calls : Calls) (body anchor : Span) : Option Tree → Option Node
  | some alternative =>
    if alternative.kind == "if_statement" then calls.statement alternative
    else bodyAt calls (some alternative) body
  | none => some (Node.absentAt anchor)

theorem conditional_eq (calls : Calls) (tree : Tree) :
    conditional calls tree = do
      let test ← condition calls tree
      let consequence ← bodyAt calls (tree.field? "consequence") tree.span.endPoint
      let alternative ← alternativeOf calls tree.span.endPoint consequence.span.endPoint
        (tree.field? "alternative")
      return nodeOf .conditional tree [test, consequence, alternative] := by
  unfold conditional
  cases tree.field? "alternative" with
  | none => rfl
  | some alternative =>
    simp only [alternativeOf]
    cases alternative.kind == "if_statement" <;> rfl

theorem rel_alternativeOf {x y : Option Tree} {a b a' b' : Span}
    (h : List.Forall₂ (k.Meets alternativeReading) x.toList y.toList) :
    k.Answers k.Nodes (alternativeOf k.calls a a' x) (alternativeOf k.calls' b b' y) := by
  cases rel_toList_iff.1 h with
  | none => exact k.answer k.leaf
  | some hcd =>
    obtain ⟨hchain, hbody⟩ := meets_append.1 hcd
    rw [alternativeOf, alternativeOf, ← hcd.kind_eq]
    split
    · rename_i hkind
      exact hchain.here_of_onKind (by simpa using hkind)
    · rename_i hkind
      exact rel_bodyAt (.cons (hbody.of_offKind (by simpa using hkind)) .nil)

def ifReading : Reading :=
  conditionReading ++ within (field "consequence") bodyReading ++
  within (field "alternative") alternativeReading

theorem agrees_conditional : Agrees conditional ifReading := by
  intro k s t h
  simp only [ifReading, meets_append] at h
  obtain ⟨⟨htest, hbody⟩, halternative⟩ := h
  rw [conditional_eq, conditional_eq]
  refine k.bind (rel_condition htest) fun _ _ htest => ?_
  refine k.bind (rel_bodyAt hbody.of_within) fun _ _ hbody => ?_
  refine k.bind (rel_alternativeOf halternative.of_within) fun _ _ halternative => ?_
  exact k.ternary htest hbody halternative

def whileReading : Reading :=
  conditionReading ++ within (field "body") bodyReading

theorem agrees_whileLoop : Agrees whileLoop whileReading := by
  intro k s t h
  obtain ⟨htest, hbody⟩ := meets_append.1 h
  refine k.bind (rel_condition htest) fun _ _ htest => ?_
  refine k.bind (rel_bodyAt hbody.of_within) fun _ _ hbody => ?_
  exact k.ternary htest hbody k.leaf

theorem agrees_doLoop : Agrees doLoop whileReading := by
  intro k s t h
  obtain ⟨htest, hbody⟩ := meets_append.1 h
  refine k.bind (rel_bodyAt hbody.of_within) fun _ _ hbody => ?_
  refine k.bind (rel_condition htest) fun _ _ htest => ?_
  exact k.ternary htest hbody k.leaf

def forEachReading : Reading :=
  (field "type", .typeRef) :: (field "name", .text) :: (field "value", .expression) ::
  within (field "body") bodyReading

theorem agrees_forEach : Agrees forEach forEachReading := by
  intro k s t h
  simp only [forEachReading, meets_cons] at h
  obtain ⟨htype, hname, hiterable, hbody⟩ := h
  refine k.bind (k.typeSlot htype) fun _ _ htype => ?_
  refine k.bind (k.expressionSlot hiterable) fun _ _ hiterable => ?_
  refine k.bind (rel_bodyAt hbody.of_within) fun _ _ hbody => ?_
  rw [fieldText_eq hname]
  exact k.answers (.cons (k.node (.cons htype (.cons k.leaf .nil)))
    (.cons hiterable (.cons hbody (.cons k.leaf .nil))))

/-- The parts of a `for` loop with the stage at which each is met. -/
def staged : Nat → List Tree → List (Nat × Tree)
  | _, [] => []
  | stage, child :: rest =>
    if !child.isNamed then
      if child.kind == ";" then staged (stage + 1) rest
      else if child.kind == ")" then staged 3 rest
      else staged stage rest
    else if child.kind == "line_comment" || child.kind == "block_comment" then staged stage rest
    else (stage, child) ::
      staged (if stage == 0 && child.kind == "local_variable_declaration" then 1 else stage) rest

theorem rel_staged {ss ts : List Tree} (stage : Nat) (h : List.Forall₂ Tree.Reformats ss ts) :
    List.Forall₂ (fun a b => a.1 = b.1 ∧ a.2.Reformats b.2) (staged stage ss)
      (staged stage ts) := by
  induction h generalizing stage with
  | nil => exact .nil
  | cons hcd _ ih =>
    -- every branch goes by flag, kind and stage, which agree
    rw [staged, staged, hcd.isNamed_eq, hcd.kind_eq]
    repeat' split
    all_goals first | exact ih _ | exact .cons ⟨rfl, hcd⟩ (ih _)

def partsAt (test : Nat → Bool) : Path :=
  ⟨fun tree => ((staged 0 tree.children).filter fun part => test part.1).map Prod.snd,
    fun h => by
      have hparts := rel_filter (p := fun part => test part.1) (q := fun part => test part.1)
        (rel_staged 0 h.children) fun a b hab => by rw [hab.1]
      rw [List.forall₂_map_left_iff, List.forall₂_map_right_iff]
      exact hparts.imp fun _ _ hab => hab.2⟩

/-- The head of a loop passes over comments. -/
theorem without_staged (stage : Nat) (trees : List Tree) :
    staged stage ((trees.filter d.keeps).map (Tree.without d)) =
      (staged stage trees).map (Prod.map id (Tree.without d)) := by
  induction trees generalizing stage with
  | nil => rfl
  | cons x rest ih =>
    rcases d.keeps_or_drops x with hx | hx
    · rw [List.filter_cons, if_pos hx, List.map_cons, staged, staged, Tree.without_isNamed,
        Tree.without_kind]
      repeat' split
      all_goals simp [ih]
    · have hcomment : (x.kind == "line_comment" || x.kind == "block_comment") = true := by
        simpa using kind_of_isCommentOf (d.isComment hx)
      rw [List.filter_cons, if_neg (by simp [Deletion.keeps, hx]), ih, staged,
        if_neg (by simp [d.isNamed_of_drops hx]), if_pos hcomment]

instance (test : Nat → Bool) : (partsAt test).Skips commentKinds :=
  ⟨fun d t => by
    simp only [partsAt, Tree.without_children, without_staged, List.filter_map, List.map_map]
    rfl⟩

theorem rel_stages (h : k.Meets [] s t) :
    List.Forall₂ (fun a b => a.1 = b.1) (staged 0 s.children) (staged 0 t.children) := by
  obtain hst | ⟨d, rfl⟩ := k.change h
  · exact (rel_staged 0 hst.children).imp fun _ _ hab => hab.1
  · rw [Tree.without_children, without_staged, List.forall₂_map_right_iff, List.forall₂_same]
    exact fun _ _ => rfl

def initReading : Reading :=
  onKind ["local_variable_declaration"] variableReading ++
  offKind ["local_variable_declaration"] [(here, .expression)]

def forReading : Reading :=
  within (partsAt (· == 0)) initReading ++
  [(partsAt fun stage => stage == 1 || stage == 2, .expression)] ++
  within (partsAt (3 ≤ ·)) bodyReading

/-- Parts of two loops that correspond at some stages correspond at fewer of them. -/
theorem rel_partsAt {p q : Nat → Bool} (hqp : ∀ stage, q stage → p stage)
    {R : Tree → Tree → Prop} (hst : k.Meets [] s t)
    (h : List.Forall₂ R ((partsAt p).select s) ((partsAt p).select t)) :
    List.Forall₂ R ((partsAt q).select s) ((partsAt q).select t) := by
  have hstaged := rel_stages hst
  simp only [partsAt] at h ⊢
  generalize staged 0 s.children = ps at hstaged h ⊢
  generalize staged 0 t.children = qs at hstaged h ⊢
  induction hstaged with
  | nil => exact .nil
  | @cons a b _ _ hab _ ih =>
    simp only [List.filter_cons, ← hab] at h ⊢
    by_cases htest : p a.1 = true
    · rw [if_pos htest, if_pos htest] at h
      obtain ⟨hhead, hrest⟩ := List.forall₂_cons.1 h
      split
      · exact .cons hhead (ih hrest)
      · exact ih hrest
    · rw [if_neg htest, if_neg htest] at h
      rw [if_neg fun hpos => htest (hqp _ hpos), if_neg fun hpos => htest (hqp _ hpos)]
      exact ih h

/-! ### The head of a loop by stages -/

def isSeparator (tree : Tree) : Bool :=
  !tree.isNamed && (tree.kind == ";" || tree.kind == ")")

def partsFrom (stage : Nat) (test : Nat → Bool) (trees : List Tree) : List Tree :=
  ((staged stage trees).filter fun part => test part.1).map Prod.snd

/-- Stages go on, but for a parenthesis behind too many separators. -/
theorem le_of_mem_staged {stage : Nat} {trees : List Tree} :
    ∀ part ∈ staged stage trees, min stage 3 ≤ part.1 := by
  induction trees generalizing stage with
  | nil => simp [staged]
  | cons tree rest ih =>
    intro part hpart
    rw [staged] at hpart
    split at hpart
    · split at hpart
      · exact Nat.le_trans (by omega) (ih part hpart)
      · split at hpart
        · exact Nat.le_trans (by omega) (ih part hpart)
        · exact ih part hpart
    · split at hpart
      · exact ih part hpart
      · rcases List.mem_cons.1 hpart with rfl | hpart
        · exact Nat.min_le_left ..
        · refine Nat.le_trans ?_ (ih part hpart)
          split
          · simp_all
          · exact .refl

theorem partsFrom_eq_nil {stage passed : Nat} (h : passed < min stage 3) (trees : List Tree) :
    partsFrom stage (· == passed) trees = [] := by
  rw [partsFrom, List.map_eq_nil_iff, List.filter_eq_nil_iff]
  intro part hpart hstage
  have hle := le_of_mem_staged part hpart
  rw [beq_iff_eq.1 hstage] at hle
  omega

def initNode (calls : Calls) (tree : Tree) : Option Node :=
  if tree.kind == "local_variable_declaration" then variableDeclaration calls tree
  else calls.expression tree

/-- Following the head of a loop from given parts on gathers the others stage by stage. -/
def ForParts.Gathers (calls : Calls) (trees : List Tree) (parts : ForParts) : Prop :=
  ∃ stage, trees.foldlM (ForParts.add calls) parts = do
    let init ← (partsFrom parts.stage (· == 0) trees).mapM (initNode calls)
    let tests ← (partsFrom parts.stage (· == 1) trees).mapM calls.expression
    let updates ← (partsFrom parts.stage (· == 2) trees).mapM calls.expression
    return {
      stage := stage, init := parts.init ++ init
      condition := tests.getLast?.or parts.condition, update := parts.update ++ updates
      body := (partsFrom parts.stage (3 ≤ ·) trees).getLast?.or parts.body
      separators := parts.separators ++ (trees.filter isSeparator).map Tree.span }

namespace ForParts

variable {calls : Calls} {tree : Tree} {rest : List Tree}

theorem gathers_token (htoken : (!tree.isNamed) = true) (ih : ∀ parts, Gathers calls rest parts)
    (parts : ForParts) : Gathers calls (tree :: rest) parts := by
  unfold Gathers
  rw [List.foldlM_cons, ForParts.add, if_pos htoken]
  split
  · rename_i hsemicolon
    obtain ⟨stage, ih⟩ := ih { parts with
      stage := parts.stage + 1, separators := parts.separators ++ [tree.span] }
    exact ⟨stage, ih.trans (by simp [partsFrom, staged, htoken, hsemicolon, isSeparator])⟩
  · rename_i hsemicolon
    split
    · rename_i hparen
      obtain ⟨stage, ih⟩ := ih { parts with
        stage := 3, separators := parts.separators ++ [tree.span] }
      exact ⟨stage, ih.trans (by
        simp [partsFrom, staged, htoken, hsemicolon, hparen, isSeparator])⟩
    · rename_i hparen
      obtain ⟨stage, ih⟩ := ih parts
      exact ⟨stage, ih.trans (by
        simp [partsFrom, staged, htoken, hsemicolon, hparen, isSeparator])⟩

theorem gathers_part (hnamed : ¬(!tree.isNamed) = true)
    (hcomment : ¬(tree.kind == "line_comment" || tree.kind == "block_comment") = true)
    (ih : ∀ parts, Gathers calls rest parts) (parts : ForParts) :
    Gathers calls (tree :: rest) parts := by
  have hseparator : isSeparator tree = false := by simp [isSeparator, hnamed]
  -- a part of the head: what is read before its stage is behind it
  have hparts (test : Nat → Bool) : partsFrom parts.stage test (tree :: rest) =
      (if test parts.stage then [tree] else []) ++ partsFrom
        (if parts.stage == 0 && tree.kind == "local_variable_declaration" then 1
        else parts.stage) test rest := by
    simp only [partsFrom, staged, if_neg hnamed, if_neg hcomment, List.filter_cons]
    split <;> simp
  unfold Gathers
  rw [List.foldlM_cons, ForParts.add, if_neg hnamed, if_neg hcomment]
  simp only [hparts, List.filter_cons, hseparator, Bool.false_eq_true, if_false]
  split
  · rename_i hstage
    split
    · rename_i hkind
      cases hanswer : variableDeclaration calls tree with
      | none => exact ⟨0, by simp [hstage, initNode, hkind, hanswer]⟩
      | some node =>
        obtain ⟨stage, ih⟩ := ih { parts with init := parts.init ++ [node], stage := 1 }
        exact ⟨stage, ih.trans (by
          simp [hstage, hkind, hanswer, initNode, Option.bind_assoc])⟩
    · rename_i hkind
      cases hanswer : calls.expression tree with
      | none => exact ⟨0, by simp [hstage, initNode, hkind, hanswer]⟩
      | some node =>
        obtain ⟨stage, ih⟩ := ih { parts with init := parts.init ++ [node] }
        exact ⟨stage, ih.trans (by
          simp [hstage, hkind, hanswer, initNode, Option.bind_assoc])⟩
  · rename_i hstage
    cases hanswer : calls.expression tree with
    | none => exact ⟨0, by simp [hstage, hanswer, partsFrom_eq_nil]⟩
    | some node =>
      obtain ⟨stage, ih⟩ := ih { parts with condition := some node }
      exact ⟨stage, ih.trans (by
        simp [hstage, hanswer, partsFrom_eq_nil, List.getLast?_cons, Option.bind_assoc])⟩
  · rename_i hstage
    cases hanswer : calls.expression tree with
    | none => exact ⟨0, by simp [hstage, hanswer, partsFrom_eq_nil]⟩
    | some node =>
      obtain ⟨stage, ih⟩ := ih { parts with update := parts.update ++ [node] }
      exact ⟨stage, ih.trans (by
        simp [hstage, hanswer, partsFrom_eq_nil, Option.bind_assoc])⟩
  · rename_i hzero hone htwo
    obtain ⟨more, hstage⟩ : ∃ more, parts.stage = more + 3 := by
      rcases hstage : parts.stage with _ | _ | _ | more
      · exact absurd hstage hzero
      · exact absurd hstage hone
      · exact absurd hstage htwo
      · exact ⟨more, rfl⟩
    obtain ⟨stage, ih⟩ := ih { parts with body := some tree }
    exact ⟨stage, ih.trans (by simp [hstage, List.getLast?_cons])⟩

theorem gathers (calls : Calls) (trees : List Tree) (parts : ForParts) :
    Gathers calls trees parts := by
  induction trees generalizing parts with
  | nil => exact ⟨parts.stage, by simp [partsFrom, staged]⟩
  | cons tree rest ih =>
    by_cases hnamed : (!tree.isNamed) = true
    · exact gathers_token hnamed ih parts
    · by_cases hcomment : (tree.kind == "line_comment" || tree.kind == "block_comment") = true
      · obtain ⟨stage, ih⟩ := ih parts
        refine ⟨stage, ?_⟩
        rw [List.foldlM_cons, ForParts.add, if_neg hnamed, if_pos hcomment]
        exact ih.trans (by simp [partsFrom, staged, hnamed, hcomment, isSeparator])
      · exact gathers_part hnamed hcomment ih parts

end ForParts

def separators (tree : Tree) : List Span :=
  (tree.children.filter isSeparator).map Tree.span

/-- The parts of a head with their places: what is missing stands at one of the separators. -/
def headNodes (tree : Tree) (init : List Node) (test : Option Node) (update : List Node) :
    List Node :=
  [listOver init ((separators tree).head?.getD tree.span.startPoint).startPoint,
    test.getD (Node.absentAt ((separators tree)[1]?.getD tree.span.startPoint).startPoint),
    listOver update ((separators tree).getLast?.getD tree.span.startPoint).startPoint]

theorem forLoop_eq (calls : Calls) (tree : Tree) :
    forLoop calls tree = do
      let init ← ((partsAt (· == 0)).select tree).mapM (initNode calls)
      let tests ← ((partsAt (· == 1)).select tree).mapM calls.expression
      let updates ← ((partsAt (· == 2)).select tree).mapM calls.expression
      let body ← bodyAt calls ((partsAt (3 ≤ ·)).select tree).getLast? tree.span.endPoint
      return nodeOf (.forLoop .classic) tree
        (headNodes tree init tests.getLast? updates ++ [body]) := by
  obtain ⟨stage, hparts⟩ := ForParts.gathers calls tree.children {}
  unfold forLoop
  rw [hparts]
  simp only [bind_assoc, pure_bind, List.nil_append, Option.or_none]
  rfl

theorem rel_initNode (h : k.Meets initReading s t) :
    k.Answers k.Nodes (initNode k.calls s) (initNode k.calls' t) := by
  obtain ⟨hdeclaration, hexpression⟩ := meets_append.1 h
  rw [initNode, initNode, ← h.kind_eq]
  split
  · rename_i hkind
    exact agrees_variableDeclaration k s t (hdeclaration.of_onKind (by simpa using hkind))
  · rename_i hkind
    exact hexpression.here_of_offKind (by simpa using hkind)

theorem rel_listOver {ms ns : List Node} {a b : Span} (h : List.Forall₂ k.Nodes ms ns) :
    k.Nodes (listOver ms a) (listOver ns b) := by
  rw [listOver, listOver]
  cases h with
  | nil => exact k.leaf
  | cons hmn hrest =>
    rw [List.head?_cons, List.head?_cons, List.getLast?_cons, List.getLast?_cons]
    exact k.node (.cons hmn hrest)

theorem agrees_forLoop : Agrees forLoop forReading := by
  intro k s t h
  simp only [forReading, meets_append] at h
  obtain ⟨⟨hinit, hhead⟩, hbody⟩ := h
  have hhead := (meets_cons.1 hhead).1
  have htests := rel_partsAt (q := (· == 1)) (by simp) hinit.nil hhead
  have hupdates := rel_partsAt (q := (· == 2)) (by simp) hinit.nil hhead
  rw [forLoop_eq, forLoop_eq]
  refine k.bind (k.mapM (hinit.of_within.imp fun _ _ => rel_initNode)) fun _ _ hinit => ?_
  refine k.bind (k.expressions htests) fun _ _ htests => ?_
  refine k.bind (k.expressions hupdates) fun _ _ hupdates => ?_
  refine k.bind (rel_bodyAt (rel_toList_iff.2 (rel_getLast? hbody.of_within))) fun _ _ hbody => ?_
  exact k.answers (.cons (rel_listOver hinit) (.cons
    (rel_getD (rel_getLast? htests) k.leaf) (.cons (rel_listOver hupdates) (.cons hbody .nil))))

/-! ## Groups of `switch` -/

def isDefaultLabel (text : String) : Bool :=
  "default".toList.isPrefixOf (Text.trimStart text).toList

def labels : Path :=
  Path.statements.having (· == "switch_label")

instance : labels.Skips commentKinds := skips_having (by decide)

def groupParts : Path :=
  Path.statements.having (· != "switch_label")

def caseReading : Reading :=
  within labels [(here, .whether isDefaultLabel), (named, .expression)] ++
  within (groupParts.when (· == 1)) (
    onKind ["block"] blockReading ++ offKind ["block"] [(here, .statement)]) ++
  [(groupParts.when (· != 1), .statement)]

theorem rel_groupBody {ss ts : List Tree} (h : List.Forall₂ (k.Outcome .statement) ss ts) :
    k.Answers k.Nodes (groupBody k.calls s ss) (groupBody k.calls' t ts) :=
  k.bind (k.mapM h) fun _ _ hinner => k.answer (k.spanning h hinner k.leaf)

def caseBody (calls : Calls) (tree : Tree) (parts : List Tree) : Option Node :=
  match parts with
  | [single] => if single.kind == "block" then block calls single else groupBody calls tree parts
  | _ => groupBody calls tree parts

theorem caseClause_eq (calls : Calls) (tree : Tree) :
    caseClause calls tree = do
      let patterns ← ((labels.select tree).flatMap Tree.named).mapM calls.expression
      let patternList := spanning .expressionList (labels.select tree) patterns
        ⟨.expressionList, tree.span.startPoint, patterns⟩
      let body ← caseBody calls tree (groupParts.select tree)
      return nodeOf (.caseClause ((labels.select tree).any fun label => isDefaultLabel label.text))
        tree [patternList, Node.absentAt patternList.span.endPoint, body] := by
  have hparts : groupParts.select tree =
    tree.statements.filter fun part => part.kind != "switch_label" := rfl
  rw [hparts, caseClause]
  generalize (tree.statements.filter fun part => part.kind != "switch_label") = parts
  rcases parts with _ | ⟨single, _ | ⟨second, rest⟩⟩
  · rfl
  · simp only [caseBody]
    cases single.kind == "block" <;> rfl
  · rfl

theorem rel_caseClause (h : k.Meets caseReading s t)
    (hbody : k.Answers k.Nodes (caseBody k.calls s (groupParts.select s))
      (caseBody k.calls' t (groupParts.select t))) :
    k.Answers k.Nodes (caseClause k.calls s) (caseClause k.calls' t) := by
  simp only [caseReading, meets_append] at h
  have hlabels := h.1.1.of_within
  have hdefault : (labels.select s).any (fun label => isDefaultLabel label.text) =
      (labels.select t).any fun label => isDefaultLabel label.text :=
    any_eq_of_rel hlabels fun _ _ hcd =>
      Use.test_eq_of_whether (k.outcome (uses_here.1 (meets_cons.1 hcd).1))
  have hpatterns : List.Forall₂ (k.Uses .expression)
      ((labels.select s).flatMap Tree.named) ((labels.select t).flatMap Tree.named) :=
    List.rel_flatMap hlabels fun _ _ hcd => (meets_cons.1 (meets_cons.1 hcd).2).1
  rw [caseClause_eq, caseClause_eq, hdefault]
  refine k.bind (k.expressions hpatterns) fun _ _ hpatterns => ?_
  refine k.bind hbody fun _ _ hbody => ?_
  exact k.ternary (k.spanning hlabels hpatterns (k.node hpatterns)) k.leaf hbody

def switchReading : Reading :=
  conditionReading ++ within (field "body" / named.having fun kind =>
    kind == "switch_block_statement_group" || kind == "switch_rule") caseReading

instance : (named.having fun kind =>
    kind == "switch_block_statement_group" || kind == "switch_rule").Skips commentKinds :=
  skips_having (by decide)

theorem rel_switching (hsubject : k.Meets conditionReading s t)
    (hgroups : List.Forall₂
      (fun c d => k.Answers k.Nodes (caseClause k.calls c) (caseClause k.calls' d))
      ((field "body" / named.having fun kind =>
        kind == "switch_block_statement_group" || kind == "switch_rule").select s)
      ((field "body" / named.having fun kind =>
        kind == "switch_block_statement_group" || kind == "switch_rule").select t)) :
    k.Answers k.Nodes (switching k.calls s) (switching k.calls' t) := by
  rw [select_field_div, select_field_div] at hgroups
  refine k.bind (rel_condition hsubject) fun _ _ hsubject => ?_
  exact k.bind (k.mapM hgroups) fun _ _ hgroups => k.answers (.cons hsubject hgroups)

/-! ## Clauses of `try` -/

def resourceReading : Reading :=
  (field "name", .text) ::
  within ((field "name").hereIf (· != 0))
    [(field "type", .typeRef), (field "value", .expression)] ++
  within ((field "name").hereIf (· == 0))
    [(named.first, .expression), (named.hereIf (· == 0), .collapsed)]

/-- A comment has no children to be read as a name or a value. -/
instance : resourceReading.Takes commentKinds where
  takes {x} hx := by
    have hchildren := Tree.children_of_isCommentOf hx
    refine ⟨_, List.mem_append_right _ (List.mem_map_of_mem (List.mem_cons_of_mem _
      (List.mem_singleton_self _))), rfl, List.mem_flatMap.2 ⟨x, ?_, ?_⟩⟩
    · simp [hereIf, field, Tree.field?, hchildren]
    · simp [hereIf, named, Tree.named, hchildren]

theorem rel_resource (h : k.Meets resourceReading s t) :
    k.Answers k.Nodes (resource k.calls s) (resource k.calls' t) := by
  simp only [resourceReading, List.cons_append, meets_cons, meets_append] at h
  obtain ⟨hname, hdeclared, hplain⟩ := h
  have hst := hplain.nil
  have hdeclared (hsome : s.field? "name" ≠ none) :=
    rel_of_hereIf hdeclared.of_within hname.length_eq (by simpa [field] using hsome)
  have hplain (hnone : s.field? "name" = none) :=
    rel_of_hereIf hplain.of_within hname.length_eq (by simpa [field] using hnone)
  have hname := rel_toList_iff.1 hname
  unfold resource
  generalize s.field? "name" = x at hname hdeclared hplain ⊢
  generalize t.field? "name" = y at hname ⊢
  cases hname with
  | none =>
    obtain ⟨hfirst, hown⟩ := meets_cons.1 (hplain rfl)
    obtain ⟨hs, ht, hown⟩ | ⟨c, d, hs, ht, hcd⟩ := first_or_own hown hfirst
    · rw [hs, ht]
      exact k.answer (k.otherNode hst hown .nil)
    · rw [hs, ht]
      exact k.outcome hcd
  | @some c d hcd =>
    have htext : c.text = d.text := k.outcome hcd
    have h := hdeclared (by simp)
    simp only [meets_cons] at h
    refine k.bind (k.typeSlot h.1) fun _ _ htype => ?_
    refine k.bind (k.expressionSlot h.2.1) fun _ _ hvalue => ?_
    rw [htext]
    exact k.binary htype hvalue

def catchReading : Reading :=
  within (namedOf "catch_formal_parameter").first
    [(namedOf "catch_type" / named, .typeRef), (field "name", .text)] ++
  within (field "body") bodyReading

theorem rel_catchName {c d : Tree} (h : List.Forall₂ (k.Uses .text) ((field "name").select c)
      ((field "name").select d)) :
    k.Nodes (((c.field? "name").map nameNode).getD (absentAfter c))
      (((d.field? "name").map nameNode).getD (absentAfter d)) := by
  have hname := rel_toList_iff.1 h
  generalize c.field? "name" = x at hname
  generalize d.field? "name" = y at hname
  cases hname with
  | none => exact k.leaf
  | @some a b hab => exact k.of_kind_eq (congrArg NodeKind.simpleName (k.outcome hab)) .nil

theorem rel_catchClause (h : k.Meets catchReading s t) :
    k.Answers k.Nodes (catchClause k.calls s) (catchClause k.calls' t) := by
  obtain ⟨hparameter, hbody⟩ := meets_append.1 h
  have hparameter : Option.Rel
      (k.Meets [(namedOf "catch_type" / named, .typeRef), (field "name", .text)])
      (s.namedOf "catch_formal_parameter").head? (t.namedOf "catch_formal_parameter").head? :=
    rel_toList_iff.1 hparameter.of_within
  have hbody : k.Answers k.Nodes (bodyAt k.calls (s.field? "body") s.span.endPoint)
      (bodyAt k.calls' (t.field? "body") t.span.endPoint) := rel_bodyAt hbody.of_within
  unfold catchClause
  dsimp only
  generalize (s.namedOf "catch_formal_parameter").head? = x at hparameter ⊢
  generalize (t.namedOf "catch_formal_parameter").head? = y at hparameter ⊢
  cases hparameter with
  | none =>
    simp only [pure_bind]
    refine k.bind hbody fun _ _ hbody => ?_
    exact k.ternary k.leaf k.leaf hbody
  | some hcd =>
    simp only [meets_cons] at hcd
    simp only [pure_bind]
    refine k.bind (k.types hcd.1) fun _ _ htypes => k.bind hbody fun _ _ hbody => ?_
    exact k.ternary (k.node htypes) (rel_catchName hcd.2.1) hbody

def finallyReading : Reading :=
  within (namedOf "block").first bodyReading

theorem rel_finallyClause (h : k.Meets finallyReading s t) :
    k.Answers k.Nodes (finallyClause k.calls s) (finallyClause k.calls' t) :=
  k.bind (rel_bodyAt h.of_within) fun _ _ hbody => k.unary hbody

def resourcesOf (calls : Calls) (anchor : Span) : Option Tree → Option Node
  | some list => do return nodeOf .expressionList list (← list.named.mapM (resource calls))
  | none => some (emptyList anchor.startPoint)

theorem rel_resourcesOf {x y : Option Tree} {a b : Span}
    (h : List.Forall₂ (k.Meets (within named resourceReading)) x.toList y.toList) :
    k.Answers k.Nodes (resourcesOf k.calls a x) (resourcesOf k.calls' b y) := by
  cases rel_toList_iff.1 h with
  | none => exact k.answer k.leaf
  | some hcd =>
    exact k.bind (k.mapM (hcd.of_within.imp fun _ _ hcd => rel_resource hcd))
      fun _ _ hitems => k.answers hitems

theorem tryStatement_eq (calls : Calls) (tree : Tree) :
    tryStatement calls tree = do
      let resources ← resourcesOf calls (((tree.field? "body").map Tree.span).getD tree.span)
        (tree.field? "resources")
      let body ← bodyAt calls (tree.field? "body") tree.span.endPoint
      let catches ← (tree.namedOf "catch_clause").mapM (catchClause calls)
      let anchor := ((catches.getLast?.map Node.span).getD body.span).endPoint
      let cleanup ← slot (finallyClause calls) (tree.namedOf "finally_clause").getLast?
        (Node.absentAt anchor)
      return nodeOf .tryStatement tree
        (resources :: body :: (catches ++ [Node.absentAt anchor, cleanup])) := by
  unfold tryStatement
  cases tree.field? "resources" with
  | none => rfl
  | some list => simp only [resourcesOf, bind_assoc, pure_bind]

def tryReading : Reading :=
  within (field "resources") (within named resourceReading) ++
  within (field "body") bodyReading ++ within (namedOf "catch_clause") catchReading ++
  within (namedOf "finally_clause").last finallyReading

theorem agrees_tryStatement : Agrees tryStatement tryReading := by
  intro k s t h
  simp only [tryReading, meets_append] at h
  obtain ⟨⟨⟨hresources, hbody⟩, hcatches⟩, hcleanup⟩ := h
  have hcleanup := rel_toList_iff.1 (hcleanup.of_within.imp fun _ _ hcd => rel_finallyClause hcd)
  rw [tryStatement_eq, tryStatement_eq]
  refine k.bind (rel_resourcesOf hresources.of_within) fun _ _ hresources => ?_
  refine k.bind (rel_bodyAt hbody.of_within) fun _ _ hbody => ?_
  refine k.bind (k.mapM (hcatches.of_within.imp fun _ _ hcd => rel_catchClause hcd))
    fun _ _ hcatches => ?_
  refine k.bind (k.slot hcleanup k.leaf) fun _ _ hcleanup => ?_
  exact k.answers (.cons hresources (.cons hbody
    (List.rel_append hcatches (.cons k.leaf (.cons hcleanup .nil)))))

/-! ## The tables -/

def statementReadings : List (String × Reading) := [
  ("local_variable_declaration", variableReading),
  ("expression_statement", lineReading),
  ("explicit_constructor_invocation", constructorReading),
  ("block", blockReading),
  ("if_statement", ifReading),
  ("while_statement", whileReading),
  ("do_statement", whileReading),
  ("for_statement", forReading),
  ("enhanced_for_statement", forEachReading),
  ("switch_expression", switchReading),
  ("switch_statement", switchReading),
  ("try_statement", tryReading),
  ("try_with_resources_statement", tryReading),
  ("return_statement", [(named.first, .expression)]),
  ("throw_statement", [(named.first, .expression)]),
  ("assert_statement", [(named.nth 0, .expression), (named.nth 1, .expression)]),
  ("yield_statement", [(named.first, .expression)]),
  ("break_statement", []),
  ("continue_statement", []),
  ("synchronized_statement", synchronizedReading),
  ("labeled_statement", labelReading),
  ("class_declaration", typeDeclarationReading .classType),
  ("interface_declaration", typeDeclarationReading .interfaceType),
  ("enum_declaration", typeDeclarationReading .enumType),
  ("record_declaration", typeDeclarationReading .recordType),
  ("local_class_declaration", [(here, .declaration)]),
  ("line_comment", textReading),
  ("block_comment", textReading)]

theorem agrees_localClass :
    Agrees (fun calls tree => calls.declaration tree) [(here, .declaration)] :=
  fun _ _ _ h => h.here

theorem agrees_otherStatement :
    Agrees (fun _ tree => some (otherNode tree [])) [(here, .collapsed)] :=
  fun k _ _ h => k.answer (k.otherNode h h.here .nil)

theorem statement_of_comment (calls : Calls)
    (hkind : t.kind = "line_comment" ∨ t.kind = "block_comment") :
    statement calls t = some (commentNode t) := by
  rw [statement, RuleTable.apply]
  rcases hkind with hkind | hkind <;> rw [hkind] <;> rfl

def statementReading (kind : String) : Reading :=
  (statementReadings.lookup kind).getD [(here, .collapsed)]

def readings : Readings
  | .expression, kind => (expressionReadings.lookup kind).getD otherReading
  | .statement, kind => statementReading kind
  | .declaration, kind => (declarationReadings.lookup kind).getD (statementReading kind)
  | .typeRef, _ => typeReading
  | .source _, _ => []

end CodeEvolution.Lowering.Java
