import CodeEvolution.Proofs.Body.Declarations
import CodeEvolution.Proofs.Body.Places
import CodeEvolution.Proofs.Node.Layout
/-!
# The statements of a method and the variables they may introduce

The heads of some statements, in the order in which the statements are numbered. What a head says
about variables depends on its node and on where the innermost block around it ends; this is said
once for all kinds of statements here, and carried from the nodes to the heads.
-/
namespace CodeEvolution

variable {node : Node} {around : Surroundings} {b : Binding} {stop : Nat}
  {P : Nat → StatementHead → Prop} (statements : List Statement)

namespace Statement

mutual

def heads : Statement → List StatementHead
  | .unknown _ _ => []
  | .known head nested handlers => head :: (headsAll nested ++ headsAll handlers)

def headsAll : List Statement → List StatementHead
  | [] => []
  | statement :: rest => heads statement ++ headsAll rest

end

theorem headsAll_append (others : List Statement) :
    headsAll (statements ++ others) = headsAll statements ++ headsAll others := by
  induction statements with
  | nil => rfl
  | cons statement rest ih => rw [List.cons_append, headsAll, headsAll, ih, List.append_assoc]

theorem headsAll_known (head : StatementHead) (nested handlers rest : List Statement) :
    headsAll (.known head nested handlers :: rest) =
      head :: (headsAll nested ++ headsAll (handlers ++ rest)) := by
  rw [headsAll, heads, headsAll_append, List.cons_append, List.append_assoc]

theorem headsAll_singleton (statement : Statement) : headsAll [statement] = heads statement := by
  rw [headsAll, headsAll, List.append_nil]

theorem headsAll_flatMap {α : Type} (items : List α) (f : α → List Statement) :
    headsAll (items.flatMap f) = items.flatMap fun item => headsAll (f item) := by
  induction items with
  | nil => rfl
  | cons item rest ih => rw [List.flatMap_cons, headsAll_append, ih, List.flatMap_cons]

section Numbering

variable {α : Type} {ofEntry : NumberedStatement → List α} {ofHead : StatementHead → List α}
  (hhead : ∀ (f : Fragment) head, f.span = head.span → f.shape = head.shape →
    ofEntry ⟨f, head.bindings, head.outerNames⟩ = ofHead head)
  (hcontrol : ∀ f, ofEntry { fragment := f } = [])

include hhead hcontrol

omit hhead in
theorem flatMap_numberControls (parent depth id index : Nat) (controls : List Control) :
    (numberControls parent depth id index controls).flatMap ofEntry = [] := by
  induction controls generalizing id index with
  | nil => rfl
  | cons control rest ih =>
    rw [numberControls, List.flatMap_cons, hcontrol, ih, List.append_nil]

theorem flatMap_number (s : RowStart) (statements : List Statement) :
    (s.number statements).flatMap ofEntry = (headsAll statements).flatMap ofHead := by
  induction statements using inductionOnRow generalizing s with
  | nil => rfl
  | unknown line label rest ih => exact ih s
  | known head nested handlers rest ihNested ihRest =>
    rw [number_known, headsAll_known, List.flatMap_cons, List.flatMap_cons,
      hhead _ head rfl rfl, List.flatMap_append, List.flatMap_append, List.flatMap_append,
      flatMap_numberControls hcontrol, List.nil_append, ihNested, ihRest]

end Numbering

theorem number_bindings (s : RowStart) (statements : List Statement) :
    (s.number statements).flatMap NumberedStatement.bindings =
      (headsAll statements).flatMap StatementHead.bindings :=
  flatMap_number (fun _ _ _ _ => rfl) (fun _ => rfl) s statements

end Statement

theorem Node.Everywhere.below {P : Node → Prop} {below : Node} (h : node.Everywhere P)
    (hbelow : below ∈ node.preorder) : below.Everywhere P := by
  induction node using Node.inductionOnChildren with
  | step node ih =>
    obtain ⟨kind, span, children⟩ := node
    rw [preorder, List.mem_cons] at hbelow
    rcases hbelow with rfl | hbelow
    · exact h
    · obtain ⟨child, hchild, hbelow⟩ := mem_preorderAll.mp hbelow
      exact ih child hchild (h.child hchild) hbelow

theorem Node.mem_children_of_body? {method block : Node} (h : method.body? = some block) :
    block ∈ method.children := by
  unfold body? at h
  split at h
  · exact List.mem_of_getLast? (Option.filter_eq_some_iff.mp h).1
  · exact List.mem_of_getLast? (Option.filter_eq_some_iff.mp h).1
  · cases h

theorem Node.Everywhere.body {P : Node → Prop} {method block : Node} (h : method.Everywhere P)
    (hbody : method.body? = some block) : block.Everywhere P :=
  h.child (mem_children_of_body? hbody)

/-! ## Heads and the blocks around them -/

namespace Statement

/-- A property of the heads of a statement, given where the innermost block around each ends. -/
inductive Follows (P : Nat → StatementHead → Prop) : Nat → Statement → Prop
  | unknown (stop line : Nat) (label : String) : Follows P stop (.unknown line label)
  | known {stop : Nat} {head : StatementHead} {nested handlers : List Statement}
      (head_follows : P stop head)
      (inside : ∀ statement ∈ nested,
        Follows P (if head.kind = .block then head.span.endOffset else stop) statement)
      (beside : ∀ statement ∈ handlers, Follows P stop statement) :
      Follows P stop (.known head nested handlers)

theorem isBlock_iff {kind : StatementKind} (h : node.kind.statementKind? = some kind) :
    node.isBlock = true ↔ kind = .block := by
  obtain ⟨nodeKind, span, children⟩ := node
  cases nodeKind
  all_goals cases h
  all_goals simp [Node.isBlock]

/-- The heads of the statements of a node follow a rule that the heads of all nodes below it
follow. -/
theorem ofNode_follows
    (h : node.Everywhere fun below => ∀ stop kind head nested handlers, IsHead below kind head →
      .known head nested handlers ∈ ofNode around stop below → P stop head)
    (stop : Nat) : ∀ statement ∈ ofNode around stop node, Follows P stop statement := by
  induction node using Node.inductionOnChildren generalizing stop with
  | step node ih =>
    cases hkind : node.kind.statementKind? with
    | none =>
      intro statement hstatement
      obtain ⟨line, label, rfl⟩ := eq_unknown_of_mem_ofNode hkind hstatement
      exact .unknown stop line label
    | some kind =>
      obtain ⟨head, hhead, heq⟩ := ofNode_known around stop hkind
      have hfollows : P stop head :=
        h.self stop kind head _ _ hhead (heq ▸ List.mem_singleton_self _)
      rw [heq, List.forall_mem_singleton]
      refine .known hfollows ?_ ?_
      · intro statement hstatement
        obtain ⟨child, hinside, hmem⟩ := List.mem_flatMap.mp hstatement
        have hchild := Node.mem_children_of_inside hinside
        have hinner : (if node.isBlock then node.span.endOffset else stop) =
            if head.kind = .block then head.span.endOffset else stop := by
          rw [hhead.span, hhead.kind]
          exact if_congr (isBlock_iff hkind) rfl rfl
        exact hinner ▸ ih child hchild (h.child hchild) _ statement hmem
      · intro statement hstatement
        obtain ⟨clause, hbeside, hmem⟩ := List.mem_flatMap.mp hstatement
        have hclause := Node.mem_children_of_beside hbeside
        rw [Node.isBlock_of_mem_beside hbeside] at hmem
        exact ih clause hclause (h.child hclause) stop statement hmem

theorem follows_row {head : StatementHead} {nested handlers rest : List Statement}
    (h : ∀ statement ∈ .known head nested handlers :: rest, Follows P stop statement) :
    P stop head ∧
      (∀ statement ∈ nested,
        Follows P (if head.kind = .block then head.span.endOffset else stop) statement) ∧
      ∀ statement ∈ handlers ++ rest, Follows P stop statement := by
  obtain ⟨hfirst, hrest⟩ := List.forall_mem_cons.mp h
  cases hfirst with
  | known hhead hinside hbeside =>
    exact ⟨hhead, hinside, List.forall_mem_append.mpr ⟨hbeside, hrest⟩⟩

theorem mem_headsAll_follows (h : ∀ statement ∈ statements, Follows P stop statement) :
    ∀ head ∈ headsAll statements, ∃ stop, P stop head := by
  induction statements using inductionOnRow generalizing stop with
  | nil => exact fun head hhead => absurd hhead List.not_mem_nil
  | unknown line label rest ih => exact ih (List.forall_mem_cons.mp h).2
  | known head nested handlers rest ihNested ihRest =>
    obtain ⟨hhead, hinside, hrest⟩ := follows_row h
    rw [headsAll_known, List.forall_mem_cons, List.forall_mem_append]
    exact ⟨⟨stop, hhead⟩, ihNested hinside, ihRest hrest⟩

end Statement

/-! ## The variables that a statement may introduce -/

/-- A local variable of a scope, introduced whatever came before. -/
structure Binding.IsLocal (scope : Scope) (b : Binding) : Prop where
  role : b.introduced.role = .localVariable
  scope : b.introduced.scope = scope
  assignedAt : b.assignedAt = none

/-- How a statement introduces a variable; the innermost block around it ends at `stop`. -/
inductive Binding.Arises (around : Surroundings) (stop : Nat) (kind : StatementKind) (span : Span)
    (b : Binding) : Prop
  | assignedMember (assigned : kind = .assignment)
      (role : b.introduced.role = .memberAttribute)
      (scope : b.introduced.scope = .ofSpan around.file around.classSpan)
      (assignedAt : b.assignedAt = none)
  | assignedLocal (assigned : kind = .assignment)
      (language : around.language.declaresOnAssignment = true)
      (role : b.introduced.role = .localVariable)
      (scope : b.introduced.scope = Statement.localScope around stop span)
      (assignedAt : b.assignedAt = some span.startOffset)
  | declared (declares : kind = .variableDeclaration)
      (isLocal : b.IsLocal (Statement.localScope around stop span))
  /-- A local variable of a composite statement is visible in all of it. -/
  | held (composite : kind ≠ .assignment ∧ kind ≠ .variableDeclaration)
      (isLocal : b.IsLocal (.ofSpan around.file span))

namespace Statement

theorem targetBindings_isLocal {span : Span} {target : Node} {initializer : Option String}
    (h : b ∈ targetBindings around span target initializer) :
    b.IsLocal (.ofSpan around.file span) := by
  unfold targetBindings at h
  split at h
  · rw [List.mem_singleton.mp h]
    exact ⟨rfl, rfl, rfl⟩
  · obtain ⟨name, -, rfl⟩ := List.mem_map.mp h
    exact ⟨rfl, rfl, rfl⟩

theorem declaredBindings_isLocal {scope : Scope} (h : b ∈ declaredBindings scope node) :
    b.IsLocal scope := by
  obtain ⟨declarator, -, hb⟩ := List.mem_filterMap.mp h
  split at hb
  · rw [← Option.some.inj hb]
    exact ⟨rfl, rfl, rfl⟩
  · cases hb

theorem caughtBindings_isLocal (h : b ∈ caughtBindings around node) :
    b.IsLocal (.ofSpan around.file node.span) := by
  unfold caughtBindings at h
  split at h
  · exact absurd h List.not_mem_nil
  · rw [List.mem_singleton.mp h]
    exact ⟨rfl, rfl, rfl⟩

theorem resourceBindings_isLocal (h : b ∈ resourceBindings around node) :
    b.IsLocal (.ofSpan around.file node.span) := by
  obtain ⟨resource, -, hb⟩ := List.mem_filterMap.mp h
  split at hb
  · rw [← Option.some.inj hb]
    exact ⟨rfl, rfl, rfl⟩
  · cases hb

theorem headerBindings_isLocal (h : b ∈ headerBindings around node) :
    b.IsLocal (.ofSpan around.file node.span) := by
  obtain ⟨item, -, hb⟩ := List.mem_flatMap.mp h
  split at hb
  · exact declaredBindings_isLocal hb
  · exact absurd hb List.not_mem_nil

theorem loopBindings_isLocal (h : b ∈ loopBindings around node) :
    b.IsLocal (.ofSpan around.file node.span) := by
  unfold loopBindings at h
  split at h
  · exact absurd h List.not_mem_nil
  · exact targetBindings_isLocal h

theorem aliasBindings_isLocal (h : b ∈ aliasBindings around node) :
    b.IsLocal (.ofSpan around.file node.span) := by
  obtain ⟨item, -, hb⟩ := List.mem_flatMap.mp h
  split at hb
  · exact absurd hb List.not_mem_nil
  · exact targetBindings_isLocal hb

theorem assignedBindings_arises {operator : String}
    (h : b ∈ assignedBindings around stop operator node) :
    b.Arises around stop .assignment node.span := by
  unfold assignedBindings at h
  split at h
  · exact absurd h List.not_mem_nil
  · split at h
    · obtain ⟨target, -, hb⟩ := List.mem_filterMap.mp h
      unfold assignedBinding? at hb
      split at hb
      · split at hb
        · rename_i hlanguage
          rw [← Option.some.inj hb]
          exact .assignedLocal rfl hlanguage rfl rfl rfl
        · cases hb
      · split at hb
        · cases hb
        · split at hb
          · rw [← Option.some.inj hb]
            exact .assignedMember rfl rfl rfl rfl
          · cases hb
      · cases hb
    · exact absurd h List.not_mem_nil

theorem clauseHead_bindings (node : Node) : (clauseHead node).bindings = [] := by
  unfold clauseHead
  split <;> rfl

theorem ofNode_arises {head : StatementHead} {nested handlers : List Statement}
    (h : .known head nested handlers ∈ ofNode around stop node) :
    ∀ b ∈ head.bindings, b.Arises around stop head.kind head.span := by
  rw [ofNode_eq_ofKind] at h
  generalize node.children.map _ = outlines at h
  unfold ofKind at h
  split at h
  all_goals
    simp only [List.not_mem_nil, List.mem_singleton, Statement.known.injEq, reduceCtorEq] at h
  all_goals obtain ⟨rfl, -, -⟩ := h
  all_goals intro b hb
  all_goals first
    | exact absurd hb List.not_mem_nil
    | exact .held ⟨nofun, nofun⟩ (loopBindings_isLocal hb)
    | exact .held ⟨nofun, nofun⟩ (headerBindings_isLocal hb)
    | exact .held ⟨nofun, nofun⟩ (resourceBindings_isLocal hb)
    | exact .held ⟨nofun, nofun⟩ (caughtBindings_isLocal hb)
    | exact .held ⟨nofun, nofun⟩ (aliasBindings_isLocal hb)
    | exact .declared rfl (declaredBindings_isLocal hb)
    | exact assignedBindings_arises hb
    | exact absurd (clauseHead_bindings node ▸ hb) List.not_mem_nil

end Statement

end CodeEvolution
