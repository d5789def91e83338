import CodeEvolution.Lowering.Python.Statement
import CodeEvolution.Proofs.Lowering.PythonExpression
/-!
# What the rules for Python statements read

The reading of every rule for statements and definitions, and the proof that the rule agrees with it.
Texts are taken over for names, for the names of decorators and base classes, for the patterns of
a `case` that hold no single expression, and for every construct without a rule.
-/
namespace CodeEvolution.Lowering.Python

open Syntax (Tree Deletion)
open Lowering.Path
open Lowering.Reading (within onKind offKind)
open Lowering.Agreement (meets_cons meets_append uses_here fieldText_eq option_map_text_eq
  map_text_eq first_or_own)

variable {a b : Span} {ss ts : List Tree} {x y : Option Tree} {m n : Node}
  (d : Deletion commentKinds) {k : Agreement commentKinds} {s t : Tree}
  {decorators decorators' : List Node}

/-! ## Blocks -/

def blockReading : Reading :=
  [(Path.statements, .statement)]

theorem rel_blockAt (h : List.Forall₂ (k.Meets blockReading) x.toList y.toList) :
    k.Answers k.Nodes (blockAt k.calls x a) (blockAt k.calls' y b) := by
  cases rel_toList_iff.1 h with
  | none => exact k.answer k.leaf
  | some hcd => exact k.statements rfl rfl hcd

/-! ## Simple statements -/

theorem agrees_returning : Agrees returning [(named, .expression)] := by
  intro k s t h
  simp only [meets_cons] at h
  exact k.bind (rel_tupled h.1 k.leaf) fun _ _ hvalue => k.unary hvalue

theorem agrees_asserting :
    Agrees asserting [(named.nth 0, .expression), (named.nth 1, .expression)] := by
  intro k s t h
  simp only [meets_cons] at h
  exact rel_asserting h.1 h.2.1

/-- The targets of `del`, the members of a list one by one. -/
def deletionTargets : Path :=
  ⟨fun tree => tree.named.flatMap fun target =>
      if target.kind == "expression_list" then target.named else [target],
    fun h => List.rel_flatMap h.named fun c d hcd => by
      rw [hcd.kind_eq]
      split
      · exact hcd.named
      · exact .cons hcd .nil⟩

theorem without_spread (test : String → Bool) (d : Deletion commentKinds) (trees : List Tree) :
    ((trees.map (Tree.without d)).flatMap fun x => if test x.kind then x.named else [x]) =
      (trees.flatMap fun x => if test x.kind then x.named else [x]).map (Tree.without d) := by
  rw [List.flatMap_map, List.map_flatMap]
  refine List.flatMap_congr fun x _ => ?_
  rw [Tree.without_kind, without_named]
  split <;> rfl

instance : deletionTargets.Skips commentKinds :=
  ⟨fun d t => by
    simp only [deletionTargets, without_named]
    exact without_spread (· == "expression_list") d t.named⟩

theorem agrees_deleting : Agrees deleting [(deletionTargets, .expression)] := by
  intro k s t h
  exact k.bind (k.expressions (meets_cons.1 h).1) fun _ _ htargets => k.answers htargets

def lineReading : Reading :=
  within (named.when (· == 1)) (
    onKind ["assignment", "augmented_assignment"] assignmentReading ++
    offKind ["assignment", "augmented_assignment"] [(here, .expression)]) ++
  [(named.when (· != 1), .expression)]

theorem agrees_expressionStatement : Agrees expressionStatement lineReading := by
  intro k s t h
  simp only [lineReading, meets_append, meets_cons] at h
  obtain ⟨hsingle, hseveral, hst⟩ := h
  have hsingle (hlength : s.named.length = 1) :=
    hst.of_when hsingle.of_within (by simpa [named] using hlength)
  have hseveral (hlength : s.named.length ≠ 1) :=
    hst.of_when hseveral (by simpa [named] using hlength)
  have hpairs := hst.named
  simp only [named] at hsingle hseveral
  unfold expressionStatement
  generalize s.named = xs at hpairs hsingle hseveral ⊢
  generalize t.named = ys at hpairs hsingle hseveral ⊢
  rcases hpairs with _ | ⟨hcd, _ | ⟨hsecond, hrest⟩⟩
  · exact k.unary (k.node .nil)
  · have h := (List.forall₂_cons.1 (hsingle rfl)).1
    obtain ⟨hassignment, hother⟩ := meets_append.1 h
    simp only [← hcd.kind_eq]
    split
    case h_1 hkind => exact rel_assignmentAt (hassignment.of_onKind (by simp [hkind]))
    case h_2 hkind => exact rel_assignmentAt (hassignment.of_onKind (by simp [hkind]))
    case h_3 hkind => exact hother.here_of_offKind (by simp [hkind])
    case h_4 hnot hnot' _ =>
      have hvalue : k.Outcome .expression _ _ := hother.here_of_offKind (by simp; tauto)
      exact k.bind hvalue fun _ _ hvalue => k.unary hvalue
  · exact k.bind (k.expressions (hseveral (by simp))) fun _ _ hparts => k.unary (k.node hparts)

theorem agrees_raising :
    Agrees raising [((besides "cause").first, .expression), (field "cause", .expression)] := by
  intro k s t h
  simp only [meets_cons, select_first_besides] at h
  refine k.bind (k.expressionSlot h.1) fun _ _ hexception => ?_
  refine k.bind (k.expressionSlot h.2.1) fun _ _ hcause => ?_
  exact k.binary hexception hcause

theorem agrees_nameList (kind : List String → NodeKind) :
    Agrees (fun _ tree => some (nodeOf (kind (tree.named.map Tree.text)) tree []))
      [(named, .text)] := by
  intro k s t h
  have hnames : s.named.map Tree.text = t.named.map Tree.text := map_text_eq (meets_cons.1 h).1
  dsimp only
  rw [hnames]
  exact k.answers .nil

def importedReading : Reading :=
  onKind ["dotted_name"] [(here, .text)] ++
  onKind ["aliased_import"] [(field "name", .text), (field "alias", .text)]

theorem importedNames_eq (h : k.Meets importedReading s t) : importedNames s = importedNames t := by
  obtain ⟨hname, haliased⟩ := meets_append.1 h
  rw [importedNames, importedNames, ← h.kind_eq]
  split
  case h_1 hkind =>
    have htext : s.text = t.text := hname.here_of_onKind (by simp [hkind])
    rw [htext]
  case h_2 hkind =>
    have h := haliased.of_onKind (by simp [hkind])
    simp only [meets_cons] at h
    have halias : (s.field? "alias").map Tree.text = (t.field? "alias").map Tree.text :=
      option_map_text_eq h.2.1
    rw [fieldText_eq h.1, halias]
  case h_3 => rfl

def importReading : Reading :=
  (field "module_name", .text) :: within (besides "module_name") importedReading

theorem agrees_importing : Agrees importing importReading := by
  intro k s t h
  simp only [importReading, meets_cons] at h
  obtain ⟨hsource, hparts⟩ := h
  have hsource : (s.field? "module_name").map Tree.text = (t.field? "module_name").map Tree.text :=
    option_map_text_eq hsource
  have hnames : (s.named.filter fun child => !child.sameRangeAs (s.field? "module_name")).flatMap
        importedNames =
      (t.named.filter fun child => !child.sameRangeAs (t.field? "module_name")).flatMap
        importedNames :=
    flatMap_eq_of_rel hparts.of_within fun _ _ hcd => importedNames_eq hcd
  have hwildcard := any_eq_of_rel (hparts.follows (besides "module_name"))
    fun c d (hcd : k.Meets [] c d) =>
      show (c.kind == "wildcard_import") = (d.kind == "wildcard_import") by rw [hcd.kind_eq]
  simp only [besides] at hwildcard
  unfold importing
  dsimp only
  rw [hsource, hnames, hwildcard, hparts.kind_eq]
  exact k.answers .nil

/-! ## Compound statements -/

def clauseReading : Reading :=
  onKind ["else_clause"] (within (field "body") blockReading) ++
  offKind ["else_clause"]
    ((field "condition", .expression) :: within (field "consequence") blockReading)

theorem rel_elseChain (h : List.Forall₂ (k.Meets clauseReading) ss ts) :
    k.Answers k.Nodes (elseChain k.calls a ss) (elseChain k.calls' b ts) := by
  induction h generalizing a b with
  | nil => exact k.answer k.leaf
  | @cons c d ss ts hcd _ ih =>
    obtain ⟨helse, helif⟩ := meets_append.1 hcd
    rw [elseChain, elseChain, ← hcd.kind_eq]
    split
    · rename_i hkind
      exact rel_blockAt (helse.of_onKind (by simpa using hkind)).of_within
    · rename_i hkind
      have h := helif.of_offKind (by simpa using hkind)
      simp only [meets_cons] at h
      refine k.bind (k.expressionSlot h.1) fun _ _ htest => ?_
      refine k.bind (rel_blockAt h.2.of_within) fun _ _ hbody => ?_
      refine k.bind ih fun _ _ hrest => ?_
      exact k.ternary htest hbody hrest

def ifReading : Reading :=
  (field "condition", .expression) :: within (field "consequence") blockReading ++
  within (named.having fun kind => kind == "elif_clause" || kind == "else_clause") clauseReading

theorem agrees_conditional : Agrees conditional ifReading := by
  intro k s t h
  simp only [ifReading, List.cons_append, meets_cons, meets_append] at h
  obtain ⟨htest, hbody, hclauses⟩ := h
  refine k.bind (k.expressionSlot htest) fun _ _ htest => ?_
  refine k.bind (rel_blockAt hbody.of_within) fun _ _ hbody => ?_
  refine k.bind (rel_elseChain hclauses.of_within) fun _ _ halternative => ?_
  exact k.ternary htest hbody halternative

def elseReading : Reading :=
  within ((field "body").orElse (namedOf "block").first) blockReading

theorem rel_elseClause (h : k.Meets elseReading s t) :
    k.Answers k.Nodes (elseClause k.calls s) (elseClause k.calls' t) := by
  have hbody := h.of_within
  rw [select_orElse rfl rfl, select_orElse rfl rfl] at hbody
  exact k.bind (rel_blockAt hbody) fun _ _ hbody => k.unary hbody

theorem rel_elseSlot (h : List.Forall₂ (k.Meets elseReading) x.toList y.toList)
    (hmn : k.Nodes m n) :
    k.Answers k.Nodes (slot (elseClause k.calls) x m) (slot (elseClause k.calls') y n) :=
  k.slot (rel_toList_iff.1 (h.imp fun _ _ hcd => rel_elseClause hcd)) hmn

def whileReading : Reading :=
  (field "condition", .expression) :: within (field "body") blockReading ++
  within (field "alternative") elseReading

theorem agrees_whileLoop : Agrees whileLoop whileReading := by
  intro k s t h
  simp only [whileReading, List.cons_append, meets_cons, meets_append] at h
  obtain ⟨htest, hbody, halternative⟩ := h
  refine k.bind (k.expressionSlot htest) fun _ _ htest => ?_
  refine k.bind (rel_blockAt hbody.of_within) fun _ _ hbody => ?_
  refine k.bind (rel_elseSlot halternative.of_within k.leaf) fun _ _ halternative => ?_
  exact k.ternary htest hbody halternative

theorem rel_wrapAsync (hst : k.Meets [] s t) (h : k.Nodes m n) :
    k.Nodes (wrapAsync s m) (wrapAsync t n) := by
  rw [wrapAsync, wrapAsync, hst.hasToken_eq]
  split
  · exact k.node (.cons h .nil)
  · exact h

def forReading : Reading :=
  (field "left", .expression) :: (field "right", .expression) ::
  within (field "body") blockReading ++ within (field "alternative") elseReading

theorem agrees_forLoop : Agrees forLoop forReading := by
  intro k s t h
  simp only [forReading, List.cons_append, meets_cons, meets_append] at h
  obtain ⟨htarget, hiterable, hbody, halternative⟩ := h
  have hst := hbody.nil
  refine k.bind (k.expressionSlot htarget) fun _ _ htarget => ?_
  refine k.bind (k.expressionSlot hiterable) fun _ _ hiterable => ?_
  refine k.bind (rel_blockAt hbody.of_within) fun _ _ hbody => ?_
  refine k.bind (rel_elseSlot halternative.of_within k.leaf) fun _ _ halternative => ?_
  exact k.answer (rel_wrapAsync hst
    (k.node (.cons htarget (.cons hiterable (.cons hbody (.cons halternative .nil))))))

/-! ## Clauses of `try` and items of `with` -/

def aliasReading : Reading :=
  onKind ["as_pattern_target"] [(named.first.orElse here, .expression)] ++
  offKind ["as_pattern_target"] [(here, .expression)]

theorem rel_aliasTarget (h : k.Meets aliasReading s t) :
    k.Answers k.Nodes (aliasTarget k.calls s) (aliasTarget k.calls' t) := by
  obtain ⟨htarget, hother⟩ := meets_append.1 h
  rw [aliasTarget, aliasTarget, ← h.kind_eq]
  split
  · rename_i hkind
    have hinner := (meets_cons.1 (htarget.of_onKind (by simpa using hkind))).1
    have hselect : ∀ tree : Tree,
        (named.first.orElse here).select tree = (tree.named.head?.or (some tree)).toList :=
      fun _ => select_orElse rfl rfl
    rw [hselect, hselect] at hinner
    have hhead := rel_head? h.named
    generalize s.named.head? = x at hinner hhead ⊢
    generalize t.named.head? = y at hinner hhead ⊢
    cases hhead with
    | none => exact k.outcome (List.forall₂_cons.1 hinner).1
    | some => exact k.outcome (List.forall₂_cons.1 hinner).1
  · rename_i hkind
    exact hother.here_of_offKind (by simpa using hkind)

theorem rel_aliasSlot (h : List.Forall₂ (k.Meets aliasReading) x.toList y.toList)
    (hmn : k.Nodes m n) :
    k.Answers k.Nodes (slot (aliasTarget k.calls) x m) (slot (aliasTarget k.calls') y n) :=
  k.slot (rel_toList_iff.1 (h.imp fun _ _ hcd => rel_aliasTarget hcd)) hmn

theorem rel_exceptionHead (h : List.Forall₂ Tree.Reformats ss ts) :
    Option.Rel Tree.Reformats (exceptionHead ss).1 (exceptionHead ts).1 ∧
      Option.Rel Tree.Reformats (exceptionHead ss).2 (exceptionHead ts).2 := by
  rcases h with _ | ⟨hfirst, _ | ⟨hsecond, hrest⟩⟩
  · exact ⟨.none, .none⟩
  · rw [exceptionHead, exceptionHead, ← hfirst.kind_eq]
    split
    · exact ⟨rel_getElem? hfirst.named 0,
        rel_or (hfirst.field? "alias") (rel_getElem? hfirst.named 1)⟩
    · exact ⟨.some hfirst, .none⟩
  · exact ⟨.some hfirst, .some hsecond⟩

theorem rel_exceptionTypes (hst : s.Reformats t) :
    List.Forall₂ Tree.Reformats (exceptionTypes s) (exceptionTypes t) := by
  rw [exceptionTypes, exceptionTypes, hst.kind_eq]
  split
  · refine List.rel_flatMap hst.named fun c d hcd => ?_
    rw [hcd.kind_eq]
    split
    · exact hcd.named
    · exact .cons hcd .nil
  · exact .cons hst .nil

theorem rel_heads (hst : s.Reformats t) :
    List.Forall₂ Tree.Reformats (s.named.filter fun child => child.kind != "block")
      (t.named.filter fun child => child.kind != "block") :=
  rel_filter hst.named fun c d hcd => by rw [hcd.kind_eq]

def exception : Path :=
  ⟨fun tree => (exceptionHead (tree.named.filter fun child => child.kind != "block")).1.toList,
    fun h => rel_toList_iff.2 (rel_exceptionHead (rel_heads h)).1⟩

def exceptionAlias : Path :=
  ⟨fun tree => (exceptionHead (tree.named.filter fun child => child.kind != "block")).2.toList,
    fun h => rel_toList_iff.2 (rel_exceptionHead (rel_heads h)).2⟩

def catchReading : Reading :=
  within exception [(⟨exceptionTypes, rel_exceptionTypes⟩, .expression)] ++
  within exceptionAlias aliasReading ++ within (namedOf "block").first blockReading

def typesOf (calls : Calls) (anchor : Span) : Option Tree → Option Node
  | some exception => do
    return nodeOf .expressionList exception (← (exceptionTypes exception).mapM calls.expression)
  | none => some (emptyList anchor)

theorem catchClause_eq (calls : Calls) (tree : Tree) :
    catchClause calls tree = do
      let head := exceptionHead (tree.named.filter fun child => child.kind != "block")
      let types ← typesOf calls tree.span.startPoint head.1
      let name ← slot (aliasTarget calls) head.2 (Node.absentAt types.span.endPoint)
      let body ← blockAt calls (blockIn tree) tree.span.endPoint
      return nodeOf .catchClause tree [types, name, body] := by
  unfold catchClause
  dsimp only
  cases (exceptionHead (tree.named.filter fun child => child.kind != "block")).1 with
  | none => rfl
  | some exception => simp only [typesOf, bind_assoc, pure_bind]

theorem without_exceptionHead (heads : List Tree) :
    exceptionHead (heads.map (Tree.without d)) =
      ((exceptionHead heads).1.map (Tree.without d),
        (exceptionHead heads).2.map (Tree.without d)) := by
  rcases heads with _ | ⟨first, _ | ⟨second, rest⟩⟩
  · rfl
  · simp only [List.map_cons, List.map_nil, exceptionHead, Tree.without_kind]
    split
    · simp only [Tree.without_field?, without_named, List.getElem?_map, Option.map_or]
    · rfl
  · rfl

theorem without_heads (t : Tree) :
    ((t.without d).named.filter fun child => child.kind != "block") =
      (t.named.filter fun child => child.kind != "block").map (Tree.without d) := by
  simp [without_named, List.filter_map, Function.comp_def]

instance : exception.Skips commentKinds :=
  ⟨fun d t => by simp only [exception, without_heads, without_exceptionHead, toList_map]⟩

instance : exceptionAlias.Skips commentKinds :=
  ⟨fun d t => by simp only [exceptionAlias, without_heads, without_exceptionHead, toList_map]⟩

instance : Path.Skips commentKinds ⟨exceptionTypes, rel_exceptionTypes⟩ :=
  ⟨fun d t => by
    simp only [exceptionTypes, Tree.without_kind, without_named]
    split
    · exact without_spread (fun kind => kind == "tuple" || kind == "expression_list") d t.named
    · rfl⟩

theorem rel_typesOf
    (h : List.Forall₂ (k.Meets [(⟨exceptionTypes, rel_exceptionTypes⟩, .expression)])
      x.toList y.toList) :
    k.Answers k.Nodes (typesOf k.calls a x) (typesOf k.calls' b y) := by
  cases rel_toList_iff.1 h with
  | none => exact k.answer k.leaf
  | some hcd =>
    exact k.bind (k.expressions (meets_cons.1 hcd).1) fun _ _ hitems => k.answers hitems

theorem rel_catchClause (h : k.Meets catchReading s t) :
    k.Answers k.Nodes (catchClause k.calls s) (catchClause k.calls' t) := by
  simp only [catchReading, meets_append] at h
  obtain ⟨⟨htypes, halias⟩, hbody⟩ := h
  rw [catchClause_eq, catchClause_eq]
  refine k.bind (rel_typesOf htypes.of_within) fun _ _ htypes => ?_
  refine k.bind (rel_aliasSlot halias.of_within k.leaf) fun _ _ halias => ?_
  refine k.bind (rel_blockAt hbody.of_within) fun _ _ hbody => ?_
  exact k.ternary htypes halias hbody

def finallyReading : Reading :=
  within (namedOf "block").first blockReading

theorem rel_finallyClause (h : k.Meets finallyReading s t) :
    k.Answers k.Nodes (finallyClause k.calls s) (finallyClause k.calls' t) :=
  k.bind (rel_blockAt h.of_within) fun _ _ hbody => k.unary hbody

def tryReading : Reading :=
  within (field "body") blockReading ++
  within (named.having fun kind => kind == "except_clause" || kind == "except_group_clause")
    catchReading ++
  within (namedOf "else_clause").last elseReading ++
  within (namedOf "finally_clause").last finallyReading

theorem agrees_tryStatement : Agrees tryStatement tryReading := by
  intro k s t h
  simp only [tryReading, meets_append] at h
  obtain ⟨⟨⟨hbody, hcatches⟩, halternative⟩, hcleanup⟩ := h
  refine k.bind (rel_blockAt hbody.of_within) fun _ _ hbody => ?_
  refine k.bind (k.mapM (hcatches.of_within.imp fun _ _ hcd => rel_catchClause hcd))
    fun _ _ hcatches => ?_
  refine k.bind (rel_elseSlot halternative.of_within k.leaf) fun _ _ halternative => ?_
  have hcleanup := rel_toList_iff.1 (hcleanup.of_within.imp fun _ _ hcd => rel_finallyClause hcd)
  refine k.bind (k.slot hcleanup k.leaf) fun _ _ hcleanup => ?_
  exact k.answers (.cons k.leaf (.cons hbody
    (List.rel_append hcatches (.cons halternative (.cons hcleanup .nil)))))

def withItemReading : Reading :=
  within ((field "value").orElse named.first) (
    onKind ["as_pattern"] ((named.nth 0, .expression) ::
      within ((field "alias").orElse (named.nth 1)) aliasReading) ++
    offKind ["as_pattern"] [(here, .expression)])

theorem rel_withItem (h : k.Meets withItemReading s t) :
    k.Answers k.Nodes (withItem k.calls s) (withItem k.calls' t) := by
  have hselect : ∀ tree : Tree, ((field "value").orElse named.first).select tree =
      ((tree.field? "value").or tree.named.head?).toList := fun _ => select_orElse rfl rfl
  have hvalue := h.of_within
  rw [hselect, hselect, rel_toList_iff] at hvalue
  unfold withItem
  generalize (s.field? "value").or s.named.head? = x at hvalue ⊢
  generalize (t.field? "value").or t.named.head? = y at hvalue ⊢
  cases hvalue with
  | none => exact k.binary k.leaf k.leaf
  | some hcd =>
    obtain ⟨haliased, hplain⟩ := meets_append.1 hcd
    simp only [← hcd.kind_eq]
    split
    · rename_i hkind
      have h := haliased.of_onKind (by simpa using hkind)
      simp only [meets_cons] at h
      have halias := h.2.of_within
      rw [select_orElse rfl rfl, select_orElse rfl rfl] at halias
      refine k.bind (k.expressionSlot h.1) fun _ _ hcontext => ?_
      refine k.bind (rel_aliasSlot halias k.leaf) fun _ _ halias => ?_
      exact k.binary hcontext halias
    · rename_i hkind
      have hvalue : k.Outcome .expression _ _ := hplain.here_of_offKind (by simpa using hkind)
      exact k.bind hvalue fun _ _ hvalue => k.binary hvalue k.leaf

def withReading : Reading :=
  within (namedOf "with_clause" / namedOf "with_item") withItemReading ++
  within (field "body") blockReading

theorem agrees_withStatement : Agrees withStatement withReading := by
  intro k s t h
  obtain ⟨hitems, hbody⟩ := meets_append.1 h
  refine k.bind (k.mapM (hitems.of_within.imp fun _ _ hcd => rel_withItem hcd)) fun _ _ hitems => ?_
  refine k.bind (rel_blockAt hbody.of_within) fun _ _ hbody => ?_
  exact k.answer (rel_wrapAsync h.nil (k.node (List.rel_append hitems (.cons hbody .nil))))

/-! ## Clauses of `match` -/

def patternReading : Reading :=
  [(here, .whether fun text => Text.trim text == "_"), (named.when (· == 1), .expression),
    (named.hereIf (· != 1), .collapsed)]

theorem rel_casePattern (h : k.Meets patternReading s t) :
    k.Answers k.Nodes (casePattern k.calls s) (casePattern k.calls' t) := by
  simp only [patternReading, meets_cons] at h
  obtain ⟨-, hsingle, hother, hst⟩ := h
  have hsingle (hlength : s.named.length = 1) :=
    hst.of_when hsingle (by simpa [named] using hlength)
  have hother (hlength : s.named.length ≠ 1) : k.Outcome .collapsed s t :=
    hst.of_hereIf hother (by simpa [named] using hlength)
  have hpairs := hst.named
  simp only [named] at hsingle
  unfold casePattern
  generalize s.named = xs at hpairs hsingle hother ⊢
  generalize t.named = ys at hpairs hsingle hother ⊢
  rcases hpairs with _ | ⟨hfirst, _ | ⟨hsecond, hrest⟩⟩
  · exact k.answer (k.otherNode hst (hother (by simp)) .nil)
  · exact k.outcome (List.forall₂_cons.1 (hsingle rfl)).1
  · exact k.answer (k.otherNode hst (hother (by simp)) .nil)

def caseReading : Reading :=
  within (namedOf "case_pattern") patternReading ++
  [(field "guard" / named.first, .expression)] ++ within (field "consequence") blockReading

def isWildcard (patterns : List Tree) : Bool :=
  match patterns with
  | [only] => Text.trim only.text == "_"
  | _ => false

theorem isWildcard_eq (h : List.Forall₂ (k.Meets patternReading) ss ts) :
    isWildcard ss = isWildcard ts := by
  rcases h with _ | ⟨hfirst, _ | ⟨hsecond, hrest⟩⟩
  · rfl
  · simp only [patternReading, meets_cons, uses_here] at hfirst
    exact (Use.test_eq_of_whether (k.outcome hfirst.1) :)
  · rfl

theorem rel_caseClause (h : k.Meets caseReading s t) :
    k.Answers k.Nodes (caseClause k.calls s) (caseClause k.calls' t) := by
  simp only [caseReading, meets_append, meets_cons] at h
  obtain ⟨⟨hpatterns, hguard, -⟩, hbody⟩ := h
  have hpatterns : List.Forall₂ (k.Meets patternReading) (s.namedOf "case_pattern")
    (t.namedOf "case_pattern") := hpatterns.of_within
  have hguard : List.Forall₂ (k.Uses .expression)
      ((s.field? "guard").bind fun clause => clause.named.head?).toList
      ((t.field? "guard").bind fun clause => clause.named.head?).toList := by
    rw [toList_bind, toList_bind]
    exact hguard
  refine k.bind (k.mapM (hpatterns.imp fun _ _ hcd => rel_casePattern hcd)) fun _ _ hnodes => ?_
  refine k.bind (k.expressionSlot hguard) fun _ _ hguard => ?_
  refine k.bind (rel_blockAt hbody.of_within) fun _ _ hbody => ?_
  have hwildcard : isWildcard (s.namedOf "case_pattern") = isWildcard (t.namedOf "case_pattern") :=
    isWildcard_eq hpatterns
  refine k.answer (k.of_kind_eq (congrArg NodeKind.caseClause hwildcard) ?_)
  exact .cons (k.spanning hpatterns hnodes k.leaf) (.cons hguard (.cons hbody .nil))

def matchReading : Reading :=
  (field "subject", .expression) :: within (field "body" / namedOf "case_clause") caseReading

theorem agrees_matching : Agrees matching matchReading := by
  intro k s t h
  obtain ⟨hsubject, hclauses⟩ := meets_cons.1 h
  refine k.bind (k.expressionSlot hsubject) fun _ _ hsubject => ?_
  have hclauses := hclauses.of_within
  rw [select_field_div, select_field_div] at hclauses
  exact k.bind (k.mapM (hclauses.imp fun _ _ hcd => rel_caseClause hcd)) fun _ _ hclauses =>
    k.answers (.cons hsubject hclauses)

/-! ## Definitions -/

def decoratorReading : Reading :=
  (named.hereIf (· == 0), .text) ::
  within named.first (
    onKind ["call"]
      ((field "function", .collapsed) :: within (field "arguments") argumentsReading) ++
    offKind ["call"] [(here, .collapsed)])

theorem rel_decorator (h : k.Meets decoratorReading s t) :
    k.Answers k.Nodes (decorator k.calls s) (decorator k.calls' t) := by
  have hexpression := (meets_cons.1 h).2
  obtain ⟨hs, ht, htext⟩ | ⟨c, d, hs, ht, hcd⟩ := first_or_own h hexpression.of_within
  · have htext : s.text = t.text := htext
    simp only [decorator, hs, ht, htext]
    exact k.answers .nil
  · obtain ⟨hcall, hother⟩ := meets_append.1 hcd
    simp only [decorator, hs, ht, ← hcd.kind_eq]
    split
    · rename_i hkind
      have h := hcall.of_onKind (by simpa using hkind)
      simp only [meets_cons] at h
      have hname : (c.field? "function").map Tree.collapsed =
          (d.field? "function").map Tree.collapsed := option_map_text_eq h.1
      refine k.bind (rel_argumentsOf h.2.of_within) fun _ _ harguments => ?_
      rw [hname]
      exact k.answers harguments
    · rename_i hkind
      have hname : c.collapsed = d.collapsed := hother.here_of_offKind (by simpa using hkind)
      rw [hname]
      exact k.answers .nil

def functionReading : Reading :=
  within (field "parameters") parametersReading ++ [(field "return_type", .typeRef)] ++
  within (field "body") blockReading ++ [(field "name", .text)]

theorem rel_functionAt (h : k.Meets functionReading s t)
    (hdecorators : List.Forall₂ k.Nodes decorators decorators') :
    k.Answers k.Nodes (functionAt decorators a k.calls s)
      (functionAt decorators' b k.calls' t) := by
  simp only [functionReading, meets_append, meets_cons] at h
  obtain ⟨⟨⟨hparameters, hreturn, -⟩, hbody⟩, hname, hst⟩ := h
  refine k.bind (rel_parametersOf hparameters.of_within) fun _ _ hparameters => ?_
  refine k.bind (k.typeSlot hreturn) fun _ _ hreturn => ?_
  refine k.bind (rel_blockAt hbody.of_within) fun _ _ hbody => ?_
  rw [fieldText_eq hname, hst.hasToken_eq]
  exact k.answers (List.rel_append (List.rel_append hdecorators hparameters)
    (.cons hreturn (.cons hbody .nil)))

def baseReading : Reading :=
  onKind ["keyword_argument"] [(field "name", .text), (field "value", .collapsed)] ++
  offKind ["keyword_argument", "list_splat", "dictionary_splat"] [(here, .collapsed)]

theorem baseKeywords_eq (h : List.Forall₂ (k.Meets baseReading) ss ts) :
    baseKeywords ss = baseKeywords ts := by
  refine map_eq_of_rel (rel_filter_and h fun c d hcd => by rw [hcd.kind_eq]) ?_
  rintro c d ⟨hcd, hkind⟩
  have h := (meets_append.1 hcd).1.of_onKind (by simpa using hkind)
  simp only [meets_cons] at h
  have hvalue : (c.field? "value").map Tree.collapsed = (d.field? "value").map Tree.collapsed :=
    option_map_text_eq h.2.1
  rw [fieldText_eq h.1, hvalue]

theorem baseTypes_eq (h : List.Forall₂ (k.Meets baseReading) ss ts) :
    baseTypes ss = baseTypes ts := by
  refine map_eq_of_rel (rel_filter_and h fun c d hcd => by rw [hcd.kind_eq]) ?_
  rintro c d ⟨hcd, hkind⟩
  exact (meets_append.1 hcd).2.here_of_offKind (by simpa [and_assoc] using hkind)

def classReading : Reading :=
  within (field "superclasses" / named) baseReading ++ within (field "body") blockReading ++
  [(field "name", .text)]

theorem rel_classAt (h : k.Meets classReading s t)
    (hdecorators : List.Forall₂ k.Nodes decorators decorators') :
    k.Answers k.Nodes (classAt decorators a k.calls s) (classAt decorators' b k.calls' t) := by
  simp only [classReading, meets_append, meets_cons] at h
  obtain ⟨⟨hbases, hbody⟩, hname, -⟩ := h
  have hbases := hbases.of_within
  rw [select_field_div, select_field_div] at hbases
  refine k.bind (rel_blockAt hbody.of_within) fun _ _ hbody => ?_
  refine k.answer (k.of_kind_eq ?_ (List.rel_append hdecorators (.cons hbody .nil)))
  rw [fieldText_eq hname]
  exact congrArg₂ (fun types keywords => NodeKind.typeDeclaration
    ⟨t.fieldText "name", .classType, {}, types, keywords⟩) (baseTypes_eq hbases)
    (baseKeywords_eq hbases)

def decoratedReading : Reading :=
  within (namedOf "decorator") decoratorReading ++
  within (field "definition") (
    onKind ["function_definition"] functionReading ++ onKind ["class_definition"] classReading) ++
  [(((field "definition").having fun kind =>
    kind == "function_definition" || kind == "class_definition").hereIf (· == 0), .collapsed)]

theorem agrees_decorated : Agrees decorated decoratedReading := by
  intro k s t h
  simp only [decoratedReading, meets_append, meets_cons] at h
  obtain ⟨⟨hdecorators, hdefinition⟩, hown, hst⟩ := h
  refine k.bind (k.mapM (hdecorators.of_within.imp fun _ _ hcd => rel_decorator hcd))
    fun _ _ hdecorators => ?_
  have hother (hnot : ∀ definition ∈ s.field? "definition",
      definition.kind ≠ "function_definition" ∧ definition.kind ≠ "class_definition") :
      k.Outcome .collapsed s t := by
    refine hst.of_hereIf hown ?_
    simpa [having, field] using hnot
  have hdefinition := rel_toList_iff.1 hdefinition.of_within
  generalize s.field? "definition" = x at hdefinition hother ⊢
  generalize t.field? "definition" = y at hdefinition ⊢
  cases hdefinition with
  | none => exact k.answer (k.otherNode hst (hother (by simp)) hdecorators)
  | some hcd =>
    obtain ⟨hfunction, hclass⟩ := meets_append.1 hcd
    simp only [← hcd.kind_eq]
    split
    · rename_i hkind
      exact rel_functionAt (hfunction.of_onKind (by simpa using hkind)) hdecorators
    · rename_i hnot
      split
      · rename_i hkind
        exact rel_classAt (hclass.of_onKind (by simpa using hkind)) hdecorators
      · rename_i hnot'
        refine k.answer (k.otherNode hst (hother ?_) hdecorators)
        simpa using ⟨by simpa using hnot, by simpa using hnot'⟩

/-! ## All rules -/

def statementReadings : List (String × Reading) := [
  ("expression_statement", lineReading),
  ("return_statement", [(named, .expression)]),
  ("pass_statement", []),
  ("break_statement", []),
  ("continue_statement", []),
  ("if_statement", ifReading),
  ("while_statement", whileReading),
  ("for_statement", forReading),
  ("try_statement", tryReading),
  ("with_statement", withReading),
  ("raise_statement", [((besides "cause").first, .expression), (field "cause", .expression)]),
  ("assert_statement", [(named.nth 0, .expression), (named.nth 1, .expression)]),
  ("global_statement", [(named, .text)]),
  ("nonlocal_statement", [(named, .text)]),
  ("delete_statement", [(deletionTargets, .expression)]),
  ("import_statement", importReading),
  ("import_from_statement", importReading),
  ("future_import_statement", importReading),
  ("function_definition", functionReading),
  ("class_definition", classReading),
  ("decorated_definition", decoratedReading),
  ("match_statement", matchReading),
  ("comment", textReading)]

theorem agrees_function :
    Agrees (fun calls tree => functionAt [] tree.span calls tree) functionReading :=
  fun _ _ _ h => rel_functionAt h .nil

theorem agrees_class : Agrees (fun calls tree => classAt [] tree.span calls tree) classReading :=
  fun _ _ _ h => rel_classAt h .nil

theorem agrees_statementRules :
    List.Forall₂ (fun rule reading => rule.1 = reading.1 ∧ Agrees rule.2 reading.2)
      statementRules statementReadings := by
  simp only [statementRules, statementReadings, List.forall₂_cons, List.forall₂_nil_left_iff,
    and_true, agrees_expressionStatement, agrees_returning, agrees_leaf,
    agrees_conditional, agrees_whileLoop, agrees_forLoop, agrees_tryStatement,
    agrees_withStatement, agrees_raising, agrees_asserting,
    agrees_nameList NodeKind.globalNames, agrees_nameList NodeKind.nonlocalNames, agrees_deleting,
    agrees_importing, agrees_decorated, agrees_matching,
    agrees_commentNode, agrees_function, agrees_class]

theorem agrees_statement (k : Agreement commentKinds)
    (h : k.Meets ((statementReadings.lookup s.kind).getD otherReading) s t) :
    k.Answers k.Nodes (statement k.calls s) (statement k.calls' t) :=
  Agreement.apply agrees_statementRules (agrees_otherExpression k s t) h

def readings : Readings
  | .expression, kind => (expressionReadings.lookup kind).getD otherReading
  | .statement, kind => (statementReadings.lookup kind).getD otherReading
  | .declaration, kind => (statementReadings.lookup kind).getD otherReading
  | .typeRef, _ => typeReading
  | .source _, _ => []

theorem reads_step : Reads step readings := by
  intro calls use s t hown h
  cases use with
  | expression => exact agrees_expression (.reformatting calls) h
  | statement => exact agrees_statement (.reformatting calls) h
  | declaration => exact agrees_statement (.reformatting calls) h
  | typeRef => exact agrees_typeRef (.reformatting calls) s t h
  | source view => exact Use.meets_source h.1 hown

end CodeEvolution.Lowering.Python
