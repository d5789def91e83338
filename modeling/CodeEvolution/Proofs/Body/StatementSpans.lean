import CodeEvolution.Proofs.Body.Ancestors
import CodeEvolution.Proofs.Body.Heads
import CodeEvolution.Proofs.Node.Row
/-!
# Where the statements of a body stand in the source

Where nodes lie inside their parents and one after the other, so do statements. A statement starts
no earlier than those numbered before it, and it starts where an earlier one ends or behind that
point, unless the earlier one holds it or is the `try` whose clause it belongs to.
-/
namespace CodeEvolution

variable {start stop : Nat} {positions : List Nat} {start' stop' cut depth index : Nat}

namespace Node

variable {language : Language} {node : Node}

def ArePlaced (node : Node) (positions : List Nat) : Prop :=
  positions.Pairwise fun p q => ∀ c d, node.children[p]? = some c → node.children[q]? = some d →
    c.span.endOffset ≤ d.span.startOffset

theorem arePlaced_of_children (h : node.InOrder language)
    (hwritten : node.written language = node.children)
    (hstrays : ∀ c d, node.strays language c d = false) (hpositions : positions.Pairwise (· < ·)) :
    node.ArePlaced positions := by
  rw [InOrder, hwritten, List.pairwise_iff_getElem] at h
  refine hpositions.imp fun hlt c d hc hd => ?_
  obtain ⟨hp, rfl⟩ := List.getElem?_eq_some_iff.mp hc
  obtain ⟨hq, rfl⟩ := List.getElem?_eq_some_iff.mp hd
  refine (h _ _ hp hq hlt).resolve_right ?_
  rw [hstrays]
  exact Bool.false_ne_true

/-- A loop that tests last has its condition before its body, but its statements in order. -/
theorem arePlaced_testLast (h : node.InOrder language) (hkind : node.kind = .whileLoop true) :
    node.ArePlaced [1, 2] := by
  have hstrays : ∀ c d, node.strays language c d = false := by
    intro c d
    cases language <;> simp [strays, hkind]
  obtain ⟨kind, span, children⟩ := node
  obtain rfl : kind = .whileLoop true := hkind
  by_cases hshape : language = .java ∧ ∃ condition body alternative,
      children = [condition, body, alternative]
  · obtain ⟨rfl, condition, body, alternative, rfl⟩ := hshape
    rw [InOrder] at h
    have hordered : body.span.endOffset ≤ alternative.span.startOffset := by
      have hpairs := List.rel_of_pairwise_cons h (List.mem_cons_of_mem _ List.mem_cons_self)
      refine hpairs.resolve_right ?_
      rw [hstrays]
      exact Bool.false_ne_true
    refine List.pairwise_pair.mpr fun c d hc hd => ?_
    obtain rfl := Option.some.inj hc
    obtain rfl := Option.some.inj hd
    exact hordered
  · refine arePlaced_of_children h ?_ hstrays (by decide)
    unfold written
    split
    · rename_i hkind _
      cases hkind
    · rename_i hchildren
      exact absurd ⟨rfl, _, _, _, hchildren⟩ hshape
    · rename_i hkind
      cases hkind
    · rfl

theorem InOrder.arePlaced (h : node.InOrder language) :
    node.ArePlaced
      (node.kind.inside node.children.length ++ node.kind.beside node.children.length) := by
  have hpositions := node.kind.positions_pairwise node.children.length
  have hplain : node.kind.isReordered = false → (∀ c d, node.strays language c d = false) →
      node.ArePlaced
        (node.kind.inside node.children.length ++ node.kind.beside node.children.length) :=
    fun hkind hstrays => arePlaced_of_children h (written_eq_children hkind) hstrays hpositions
  cases hkind : node.kind
  case whileLoop testLast =>
    rw [← hkind]
    cases testLast with
    | true =>
      simpa [hkind, NodeKind.inside, NodeKind.beside] using arePlaced_testLast h hkind
    | false => exact hplain (by rw [hkind]; rfl) (by cases language <;> simp [strays, hkind])
  case forLoop style =>
    rw [← hkind]
    cases style with
    | each => exact hplain (by rw [hkind]; rfl) (by cases language <;> simp [strays, hkind])
    | classic => simp [ArePlaced, hkind, NodeKind.inside, NodeKind.beside]
  -- A kind with two positions or more has all its children in order.
  all_goals first
    | simp [ArePlaced, NodeKind.inside, NodeKind.beside]; done
    | rw [← hkind]
      exact hplain (by rw [hkind]; rfl) (by cases language <;> simp [strays, hkind])

theorem eq_of_mem_read {test : Node → Bool} {position : Nat} {child : Node}
    (h : child ∈ (node.children[position]?.filter test).toList) :
    node.children[position]? = some child :=
  (Option.filter_eq_some_iff.mp (Option.mem_toList.mp h)).1

theorem ArePlaced.read (h : node.ArePlaced positions) (test : Node → Bool) :
    (positions.flatMap fun position => (node.children[position]?.filter test).toList).Pairwise
      fun c d => c.span.endOffset ≤ d.span.startOffset := by
  rw [List.pairwise_flatMap]
  refine ⟨fun position _ => ?_, h.imp fun hplaced c hc d hd => ?_⟩
  · cases node.children[position]?.filter test <;> simp
  · exact hplaced c d (eq_of_mem_read hc) (eq_of_mem_read hd)

theorem InOrder.statements (h : node.InOrder language) :
    (node.statementsInside ++ node.clausesBeside).Pairwise fun c d =>
      c.span.endOffset ≤ d.span.startOffset := by
  obtain ⟨hinside, hbeside, hacross⟩ := List.pairwise_append.mp h.arePlaced
  refine List.pairwise_append.mpr ⟨ArePlaced.read hinside _, ArePlaced.read hbeside _, ?_⟩
  intro c hc d hd
  obtain ⟨p, hp, hc⟩ := List.mem_flatMap.mp hc
  obtain ⟨q, hq, hd⟩ := List.mem_flatMap.mp hd
  exact hacross p hp q hq c d (eq_of_mem_read hc) (eq_of_mem_read hd)

end Node

namespace Statement

variable {statements : List Statement}

/-! ## Rows of statements -/

mutual

/-- A statement lies between two offsets, and so does in it what it holds, one after the other and
before the clauses beside it. Only a `try` has clauses. -/
def IsRow (start stop : Nat) : Statement → Prop
  | .unknown _ _ => start ≤ stop
  | .known head nested handlers =>
    start ≤ head.span.startOffset ∧ head.span.endOffset ≤ stop ∧
      (handlers ≠ [] → head.kind = .tryStatement) ∧
      ∃ cut, AreRow head.span.startOffset cut nested ∧ AreRow cut head.span.endOffset handlers

def AreRow (start stop : Nat) : List Statement → Prop
  | [] => start ≤ stop
  | statement :: rest => ∃ cut, IsRow start cut statement ∧ AreRow cut stop rest

end

mutual

theorem IsRow.le {start stop : Nat} : {statement : Statement} → IsRow start stop statement →
    start ≤ stop
  | .unknown _ _, h => h
  | .known _ _ _, ⟨hstart, hstop, _, _, hnested, hhandlers⟩ => by
    have := hnested.le
    have := hhandlers.le
    omega

theorem AreRow.le {start stop : Nat} : {statements : List Statement} →
    AreRow start stop statements → start ≤ stop
  | [], h => h
  | _ :: _, ⟨_, hfirst, hrest⟩ => Nat.le_trans hfirst.le hrest.le

end

theorem IsRow.mono {statement : Statement} (h : IsRow start stop statement)
    (hstart : start' ≤ start) (hstop : stop ≤ stop') : IsRow start' stop' statement := by
  cases statement with
  | unknown => exact Nat.le_trans hstart (Nat.le_trans h hstop)
  | known =>
    obtain ⟨hfirst, hlast, hrest⟩ := h
    exact ⟨Nat.le_trans hstart hfirst, Nat.le_trans hlast hstop, hrest⟩

theorem AreRow.mono (h : AreRow start stop statements) (hstart : start' ≤ start)
    (hstop : stop ≤ stop') : AreRow start' stop' statements := by
  induction statements generalizing start start' with
  | nil => exact Nat.le_trans hstart (Nat.le_trans h hstop)
  | cons statement rest ih =>
    obtain ⟨cut, hfirst, hrest⟩ := h
    exact ⟨cut, hfirst.mono hstart le_rfl, ih hrest le_rfl⟩

theorem areRow_append {others : List Statement} :
    AreRow start stop (statements ++ others) ↔
      ∃ cut, AreRow start cut statements ∧ AreRow cut stop others := by
  induction statements generalizing start with
  | nil =>
    rw [List.nil_append]
    constructor
    · exact fun h => ⟨start, le_rfl, h⟩
    · rintro ⟨cut, hcut, h⟩
      exact h.mono hcut le_rfl
  | cons statement rest ih =>
    rw [List.cons_append]
    constructor
    · rintro ⟨first, hfirst, hrest⟩
      obtain ⟨cut, hstatements, hothers⟩ := ih.mp hrest
      exact ⟨cut, ⟨first, hfirst, hstatements⟩, hothers⟩
    · rintro ⟨cut, ⟨first, hfirst, hstatements⟩, hothers⟩
      exact ⟨first, hfirst, ih.mpr ⟨cut, hstatements, hothers⟩⟩

theorem areRow_flatMap {nodes : List Node} {f : Node → List Statement} (hle : start ≤ stop)
    (hordered : nodes.Pairwise fun c d => c.span.endOffset ≤ d.span.startOffset)
    (hwithin : ∀ node ∈ nodes, start ≤ node.span.startOffset ∧ node.span.endOffset ≤ stop)
    (hrows : ∀ node ∈ nodes, AreRow node.span.startOffset node.span.endOffset (f node)) :
    AreRow start stop (nodes.flatMap f) := by
  induction nodes generalizing start with
  | nil => exact hle
  | cons node rest ih =>
    obtain ⟨hfirst, hordered⟩ := List.pairwise_cons.mp hordered
    obtain ⟨hnode, hwithin⟩ := List.forall_mem_cons.mp hwithin
    obtain ⟨hrow, hrows⟩ := List.forall_mem_cons.mp hrows
    rw [List.flatMap_cons]
    refine areRow_append.mpr ⟨node.span.endOffset, hrow.mono hnode.1 le_rfl, ?_⟩
    exact ih hnode.2 hordered (fun other hother => ⟨hfirst other hother, (hwithin other hother).2⟩)
      hrows

theorem areRow_unknown (hle : start ≤ stop)
    (h : ∀ statement ∈ statements, ∃ line label, statement = .unknown line label) :
    AreRow start stop statements := by
  induction statements with
  | nil => exact hle
  | cons statement rest ih =>
    obtain ⟨⟨line, label, rfl⟩, hrest⟩ := List.forall_mem_cons.mp h
    exact ⟨start, le_rfl, ih hrest⟩

/-- A node whose parts are nested and in order amounts to a row inside its span. -/
theorem ofNode_areRow {language : Language} (around : Surroundings) (stop : Nat) {node : Node}
    (hspan : node.span.startOffset ≤ node.span.endOffset)
    (hencloses : node.Everywhere Node.Encloses) (htidy : node.Tidy language) :
    AreRow node.span.startOffset node.span.endOffset (ofNode around stop node) := by
  induction node using Node.inductionOnChildren generalizing stop with
  | step node ih =>
    cases hkind : node.kind.statementKind? with
    | none =>
      have hunknown : ∀ statement ∈ ofNode around stop node, ∃ line label,
          statement = .unknown line label := fun _ => eq_unknown_of_mem_ofNode hkind
      exact areRow_unknown hspan hunknown
    | some kind =>
      obtain ⟨head, hhead, heq⟩ := ofNode_known around stop hkind
      let inner := if node.isBlock then node.span.endOffset else stop
      have hmem : ∀ child ∈ node.statementsInside ++ node.clausesBeside,
          child ∈ node.children := by
        intro child hchild
        rcases List.mem_append.mp hchild with hchild | hchild
        · exact Node.mem_children_of_inside hchild
        · exact Node.mem_children_of_beside hchild
      have hrow : AreRow node.span.startOffset node.span.endOffset
          ((node.statementsInside ++ node.clausesBeside).flatMap (ofNode around inner)) := by
        refine areRow_flatMap hspan htidy.self.statements ?_ ?_
        · intro child hchild
          have hwithin := hencloses.self child (hmem child hchild)
          exact ⟨hwithin.1, hwithin.2.2⟩
        · intro child hchild
          have hchild := hmem child hchild
          exact ih child hchild inner (hencloses.self child hchild).2.1 (hencloses.child hchild)
            (htidy.child hchild)
      rw [List.flatMap_append, areRow_append] at hrow
      rw [heq]
      refine ⟨node.span.endOffset, ?_, le_rfl⟩
      rw [IsRow, hhead.span]
      refine ⟨le_rfl, le_rfl, fun hne => ?_, hrow⟩
      obtain ⟨clause, hclause⟩ := List.exists_mem_of_ne_nil _ hne
      obtain ⟨child, hbeside, -⟩ := List.mem_flatMap.mp hclause
      rw [Node.kind_of_mem_beside hbeside] at hkind
      exact hhead.kind.trans (Option.some.inj hkind).symm

end Statement

/-! ## Numbered statements -/

namespace Body

variable {body : Body}

/-- A statement comes before another in the source: it starts no later, and unless it is a `try` it
ends before the other starts or holds it. -/
structure Precedes (body : Body) (f g : Fragment) : Prop where
  start : f.span.startOffset ≤ g.span.startOffset
  apart : f.kind ≠ .tryStatement → f.span.endOffset ≤ g.span.startOffset ∨ f ∈ body.ancestors g

structure AreLaid (body : Body) (start stop : Nat) (statements : List Fragment) : Prop where
  le : start ≤ stop
  within : ∀ f ∈ statements, start ≤ f.span.startOffset ∧
    f.span.startOffset ≤ f.span.endOffset ∧ f.span.endOffset ≤ stop
  ordered : statements.Pairwise body.Precedes

theorem AreLaid.append {statements others : List Fragment} (h : body.AreLaid start cut statements)
    (h' : body.AreLaid cut stop others) : body.AreLaid start stop (statements ++ others) where
  le := Nat.le_trans h.le h'.le
  within := by
    have hle := h.le
    have hle' := h'.le
    intro f hf
    rcases List.mem_append.mp hf with hf | hf
    · have := h.within f hf
      omega
    · have := h'.within f hf
      omega
  ordered := by
    refine List.pairwise_append.mpr ⟨h.ordered, h'.ordered, fun f hf g hg => ?_⟩
    have hf := h.within f hf
    have hg := h'.within g hg
    exact ⟨by omega, fun _ => Or.inl (by omega)⟩

/-- A statement comes before what it holds, and before the clauses beside it if it is a `try`. -/
theorem AreLaid.tree {f : Fragment} {nested others : List Fragment}
    (hstart : start ≤ f.span.startOffset) (hspan : f.span.startOffset ≤ f.span.endOffset)
    (hstop : f.span.endOffset ≤ stop) (hnested : body.AreLaid f.span.startOffset cut nested)
    (hothers : body.AreLaid cut stop others) (hholds : ∀ g ∈ nested, f ∈ body.ancestors g)
    (hafter : f.kind ≠ .tryStatement → ∀ g ∈ others, f.span.endOffset ≤ g.span.startOffset) :
    body.AreLaid start stop (f :: (nested ++ others)) := by
  have hboth := hnested.append hothers
  refine ⟨by omega, ?_, List.pairwise_cons.mpr ⟨fun g hg => ?_, hboth.ordered⟩⟩
  · intro g hg
    rcases List.mem_cons.mp hg with rfl | hg
    · exact ⟨hstart, hspan, hstop⟩
    · have := hboth.within g hg
      omega
  · refine ⟨(hboth.within g hg).1, fun hkind => ?_⟩
    rcases List.mem_append.mp hg with hg | hg
    · exact Or.inr (hholds g hg)
    · exact Or.inl (hafter hkind g hg)

theorem IsArena.mem_ancestors_of_isForest (harena : body.IsArena) {owner : Fragment}
    {roots : List Nat} {fragments : List Fragment}
    (hforest : Fragment.IsForest (some owner.id) depth index roots fragments)
    (howner : owner ∈ body.fragments) (hmem : ∀ f ∈ fragments, f ∈ body.fragments) :
    ∀ f ∈ fragments, owner ∈ body.ancestors f := by
  intro f hf
  generalize hid : f.id = id
  induction id using Nat.strongRecOn generalizing f with
  | ind id ih =>
    subst hid
    rcases hforest.placed f hf with ⟨_, _, hroot⟩ | ⟨other, hother, _, _, _, hpart⟩
    · rw [harena.ancestors_of_parent howner hroot.parent]
      exact List.mem_cons_self
    · rw [harena.ancestors_of_parent (hmem other hother) hpart.parent]
      exact List.mem_cons_of_mem _ (ih other.id hpart.later other hother rfl)

end Body

namespace Statement

variable {body : Body} (declared : Fragment → List Nat)

theorem filter_settled_known (s : RowStart) {head : StatementHead}
    (nested handlers rest : List Statement) (hshape : head.shape ≠ .expression) :
    (settled declared (s.number (.known head nested handlers :: rest))).filter
        Fragment.isStatement =
      settledHead declared s head nested handlers ::
        ((settled declared ((s.inside head).number nested)).filter Fragment.isStatement ++
          (settled declared ((s.behind head nested).number (handlers ++ rest))).filter
            Fragment.isStatement) := by
  have hstatement := settledHead_isStatement declared s nested handlers hshape
  have hcontrols := (settledHead_hasControls declared s head nested handlers).filter_isStatement
  rw [settled_known, List.filter_append, List.filter_cons_of_pos hstatement, List.filter_append,
    hcontrols, List.nil_append, List.cons_append]

theorem number_areLaid (h : body.IsArena) {s : RowStart} (statements : List Statement)
    (hshaped : ∀ statement ∈ statements, IsShaped statement) (hrow : AreRow start stop statements)
    (hmem : ∀ f ∈ settled declared (s.number statements), f ∈ body.fragments) :
    body.AreLaid start stop
      ((settled declared (s.number statements)).filter Fragment.isStatement) := by
  induction statements using inductionOnRow generalizing s start stop with
  | nil => exact ⟨hrow, by simp [numberAll, settled], .nil⟩
  | unknown line label rest ih =>
    obtain ⟨cut, hfirst, hrest⟩ := hrow
    exact ih (List.forall_mem_cons.mp hshaped).2 (hrest.mono hfirst le_rfl) hmem
  | known head nested handlers rest ihNested ihRest =>
    obtain ⟨hhead, hinside, hshaped⟩ := isShaped_row hshaped
    obtain ⟨last, ⟨hstart, hstop, htry, cut, hnested, hhandlers⟩, hrest⟩ := hrow
    rw [filter_settled_known declared s nested handlers rest hhead.shape]
    rw [settled_known, List.forall_mem_append, List.forall_mem_cons, List.forall_mem_append] at hmem
    obtain ⟨⟨hf, -, hmemNested⟩, hmemRest⟩ := hmem
    have hbehind := hrest.mono hstop le_rfl
    have hforest : Fragment.IsForest
        (some (settledHead declared s head nested handlers).id) _ _ _ _ :=
      number_isForest declared (s.inside head) nested hinside
    refine Body.AreLaid.tree hstart (Nat.le_trans hnested.le hhandlers.le)
      (Nat.le_trans hstop hrest.le) (ihNested hinside hnested hmemNested)
      (ihRest hshaped (areRow_append.mpr ⟨_, hhandlers, hbehind⟩) hmemRest) ?_ ?_
    · intro g hg
      exact h.mem_ancestors_of_isForest hforest hf hmemNested g (List.mem_filter.mp hg).1
    · intro hkind g hg
      -- Only a `try` has clauses, so here the rest stands behind the whole statement.
      obtain rfl : handlers = [] := by
        by_contra hne
        exact hkind (htry hne)
      exact ((ihRest hshaped hbehind hmemRest).within g hg).1

end Statement

end CodeEvolution
