import CodeEvolution.Proofs.FirstOccurrences
import CodeEvolution.Proofs.Node.RenamedText
/-!
# The statements of a method after a variable was renamed

The statements read from a method before and after correspond one by one. They are of the same
kinds and stand in the same places, have the same texts and name the same names up to the renaming,
and introduce variables of the same roles and scopes, under the new name where they introduced the
old one.
-/
namespace CodeEvolution

open Text (Exchanged)

variable {name : String} {target node : Node} (kind : StatementKind) (blockEnd : Nat)

/-- A node of a method leaves room for a renaming: it does not use the new name, leaves neither
name to an outer scope, if the method has a receiver, does not start where the class does, and is
printed so that names stand apart. -/
structure Node.Admits (r : Renaming) (node : Node) : Prop where
  fresh : node.name? ≠ some r.new
  outer : ∀ name ∈ node.outerNames, name ≠ r.old ∧ name ≠ r.new
  inside : r.around.receiver? = none ∨ node.span.startOffset ≠ r.around.classSpan.startOffset
  spaced : node.kind.isSpaced = true

instance Node.decidableAdmits (r : Renaming) : DecidablePred (Node.Admits r) := fun node =>
  decidable_of_iff (node.name? ≠ some r.new ∧
      (∀ name ∈ node.outerNames, name ≠ r.old ∧ name ≠ r.new) ∧
      (r.around.receiver? = none ∨ node.span.startOffset ≠ r.around.classSpan.startOffset) ∧
      node.kind.isSpaced = true)
    ⟨fun h => ⟨h.1, h.2.1, h.2.2.1, h.2.2.2⟩, fun h => ⟨h.fresh, h.outer, h.inside, h.spaced⟩⟩

structure Facts.IsRenamed (r : Renaming) (f g : Facts) : Prop where
  names : ∀ name, name ∈ g.names ↔ ∃ before ∈ f.names, r.name before = name
  fresh : r.new ∉ f.names
  choices : f.choices = [] → g.choices = []
  accesses : f.accesses = [] → g.accesses = []
  calls : ∀ j ∈ g.invocations, ∃ i ∈ f.invocations,
    j.name = i.name ∧ j.receiver?.isNone = i.receiver?.isNone

structure Control.IsRenamed (r : Renaming) (control other : Control) : Prop where
  text : Exchanged r.old r.new control.text other.text
  span : other.span = control.span
  facts : control.facts.IsRenamed r other.facts

/-- A variable before and after a renaming. Members keep their name and are told from the other
variables by their scope. -/
structure Variable.IsRenamed (r : Renaming) (v w : Variable) :
    Prop where
  role : w.role = v.role
  scope : w.scope = v.scope
  statement : w.statement = v.statement
  name : w.name = if v.isMember then v.name else r.name v.name
  fresh : v.isMember = false → v.name ≠ r.new
  member : v.isMember = true →
    r.around.receiver? ≠ none ∧ v.scope.start = r.around.classSpan.startOffset
  inside : v.isMember = false →
    r.around.receiver? = none ∨ v.scope.start ≠ r.around.classSpan.startOffset

structure Binding.IsRenamed (r : Renaming) (b c : Binding) :
    Prop where
  introduced : b.introduced.IsRenamed r c.introduced
  assignedAt : c.assignedAt = b.assignedAt
  assigned : b.assignedAt ≠ none → b.introduced.isMember = false

structure StatementHead.IsRenamed (r : Renaming)
    (head other : StatementHead) : Prop where
  kind : other.kind = head.kind
  text : Exchanged r.old r.new head.text other.text
  shape : other.shape = head.shape
  span : other.span = head.span
  facts : head.facts.IsRenamed r other.facts
  controls : List.Forall₂ (Control.IsRenamed r) head.controls other.controls
  bindings : List.Forall₂ (Binding.IsRenamed r) head.bindings other.bindings
  outerNames : other.outerNames = head.outerNames
  outer : ∀ name ∈ head.outerNames, name ≠ r.old ∧ name ≠ r.new

inductive Statement.IsRenamed (r : Renaming) :
    Statement → Statement → Prop
  | unknown (line : Nat) (label : String) :
    IsRenamed r (.unknown line label) (.unknown line label)
  | known {head other : StatementHead} {nested nested' handlers handlers' : List Statement}
    (heads : head.IsRenamed r other)
    (inside : List.Forall₂ (IsRenamed r) nested nested')
    (beside : List.Forall₂ (IsRenamed r) handlers handlers') :
    IsRenamed r (.known head nested handlers) (.known other nested' handlers')

section Facts

variable {r : Renaming}

theorem Facts.ofNodes_isRenamed (nodes : List Node)
    (h : ∀ node ∈ nodes, node.Everywhere (Node.Admits r)) :
    (ofNodes nodes).IsRenamed r (ofNodes (nodes.map (Node.rename r.name))) where
  names name := by
    simp only [ofNodes, mem_firstOccurrences, Node.expressionsOf_rename, List.filterMap_map,
      List.mem_filterMap, Function.comp_apply, Node.identifier?_rename, Option.map_eq_some_iff]
    grind
  fresh := by
    simp only [ofNodes, mem_firstOccurrences, List.mem_filterMap, not_exists, not_and]
    intro node hnode hname
    have hfresh := (Node.Everywhere.expressionOf nodes h node hnode).fresh
    apply hfresh
    unfold Node.identifier? at hname
    unfold Node.name?
    split at hname <;> simp_all
  choices := by
    simp only [ofNodes, Node.expressionsOf_rename, List.filterMap_map, List.filterMap_eq_nil_iff,
      Function.comp_apply]
    intro hnone node hnode
    have hnode := hnone node hnode
    unfold Node.choice? at hnode ⊢
    rw [Node.rename_kind]
    cases hkind : node.kind <;> simp_all [NodeKind.rename]
  accesses := by
    simp only [ofNodes, Node.expressionsOf_rename, List.filterMap_map, List.filterMap_eq_nil_iff,
      Function.comp_apply]
    intro hnone node hnode
    have hnode := hnone node hnode
    unfold Node.memberAccess? at hnode ⊢
    rw [Node.rename_kind]
    cases hkind : node.kind <;> simp_all [NodeKind.rename]
  calls := by
    simp only [ofNodes, Node.expressionsOf_rename, List.filterMap_map, List.mem_filterMap,
      Function.comp_apply]
    rintro j ⟨node, hnode, hj⟩
    unfold Node.invocation? at hj
    rw [Node.rename_kind] at hj
    cases hkind : node.kind <;> simp only [hkind, NodeKind.rename, reduceCtorEq] at hj
    rename_i name
    cases hj
    exact ⟨⟨node.render, name, (node.present? 0).map Node.render, node.argumentTexts⟩,
      ⟨node, hnode, by rw [Node.invocation?, hkind]⟩, rfl, by simp⟩

theorem Facts.IsRenamed.mentions {f g : Facts} (h : f.IsRenamed r g) (hname : name ≠ r.new) :
    g.mentions (r.name name) = f.mentions name := by
  rw [Facts.mentions, Facts.mentions, Bool.eq_iff_iff, List.contains_iff_mem,
    List.contains_iff_mem, h.names]
  constructor
  · rintro ⟨before, hbefore, heq⟩
    have hfresh : before ≠ r.new := fun hnew => h.fresh (hnew ▸ hbefore)
    exact (r.name_inj hfresh hname).mp heq ▸ hbefore
  · exact fun hmem => ⟨name, hmem, rfl⟩

theorem Facts.isRenamed_empty : ({} : Facts).IsRenamed r {} where
  names := by simp
  fresh := by simp
  choices := fun h => h
  accesses := fun h => h
  calls := by simp

end Facts

namespace Statement

variable {r : Renaming}

section Lists

variable {α β : Type} {R : β → β → Prop} {items : List α}

theorem forall₂_filterMap {g g' : α → Option β}
    (h : ∀ item ∈ items, Option.Rel R (g item) (g' item)) :
    List.Forall₂ R (items.filterMap g) (items.filterMap g') := by
  induction items with
  | nil => exact .nil
  | cons item rest ih =>
    have hrest := ih fun other hother => h other (List.mem_cons_of_mem _ hother)
    have hitem := h item List.mem_cons_self
    rw [List.filterMap_cons, List.filterMap_cons]
    generalize g item = a, g' item = b at hitem
    cases hitem with
    | none => exact hrest
    | some hab => exact .cons hab hrest

theorem forall₂_flatMap {g g' : α → List β}
    (h : ∀ item ∈ items, List.Forall₂ R (g item) (g' item)) :
    List.Forall₂ R (items.flatMap g) (items.flatMap g') := by
  induction items with
  | nil => exact .nil
  | cons item rest ih =>
    rw [List.flatMap_cons, List.flatMap_cons]
    exact List.rel_append (h item List.mem_cons_self)
      (ih fun other hother => h other (List.mem_cons_of_mem _ hother))

end Lists

section Heads

variable {node : Node} {controls controls' : List Node} {bindings bindings' : List Binding}

theorem text_isRenamed (h : node.Everywhere (Node.Admits r)) :
    Exchanged r.old r.new node.render (node.rename r.name).render :=
  Node.render_exchanged r node fun below hbelow => (h below hbelow).spaced

theorem control_isRenamed (h : node.Everywhere (Node.Admits r)) :
    (control node).IsRenamed r (control (node.rename r.name)) where
  text := text_isRenamed h
  span := Node.rename_span _ node
  facts := Facts.ofNodes_isRenamed [node] (by simpa using h)

theorem compositeHead_isRenamed (h : node.Everywhere (Node.Admits r))
    (hcontrols : ∀ control ∈ controls, control.Everywhere (Node.Admits r))
    (hcontrols' : controls' = controls.map (Node.rename r.name))
    (hbindings : List.Forall₂ (Binding.IsRenamed r) bindings bindings') :
    (compositeHead kind node controls bindings).IsRenamed r
      (compositeHead kind (node.rename r.name) controls' bindings') where
  kind := rfl
  text := text_isRenamed h
  shape := rfl
  span := Node.rename_span _ node
  facts := by
    subst hcontrols'
    exact Facts.ofNodes_isRenamed controls hcontrols
  controls := by
    subst hcontrols'
    simp only [compositeHead, List.filter_map, List.forall₂_map_left_iff,
      List.forall₂_map_right_iff, Function.comp_def, Node.isAbsent_rename, List.forall₂_same]
    intro control hcontrol
    exact control_isRenamed (hcontrols control (List.mem_filter.mp hcontrol).1)
  bindings := hbindings
  outerNames := rfl
  outer := by simp [compositeHead]

theorem leafHead_isRenamed (h : node.Everywhere (Node.Admits r))
    (hbindings : List.Forall₂ (Binding.IsRenamed r) bindings bindings') :
    (leafHead kind node bindings).IsRenamed r (leafHead kind (node.rename r.name) bindings') where
  kind := rfl
  text := text_isRenamed h
  shape := rfl
  span := Node.rename_span _ node
  facts := Facts.ofNodes_isRenamed [node] (by simpa using h)
  controls := .nil
  bindings := hbindings
  outerNames := rfl
  outer := by simp [leafHead]

end Heads

section Bindings

variable {node : Node}

theorem localBinding_isRenamed {scope : Scope}
    (hinside : r.around.receiver? = none ∨ scope.start ≠ r.around.classSpan.startOffset)
    (hfresh : name ≠ r.new) (span span' : Span) (type type' : TypeInfo)
    (initializer initializer' : Option String) :
    (localBinding scope name span type initializer).IsRenamed r
      (localBinding scope (r.name name) span' type' initializer') where
  introduced :=
    { role := rfl
      scope := rfl
      statement := rfl
      name := rfl
      fresh := fun _ => hfresh
      member := nofun
      inside := fun _ => hinside }
  assignedAt := rfl
  assigned := fun _ => rfl

theorem boundName?_ne (h : target.Everywhere (Node.Admits r))
    (hname : target.boundName? = some name) : name ≠ r.new := by
  rintro rfl
  unfold Node.boundName? at hname
  split at hname
  · rename_i hkind
    exact h.self.fresh (by simp [Node.name?, hkind, ← hname])
  · obtain ⟨operand, hoperand, hidentifier⟩ := Option.bind_eq_some_iff.mp hname
    unfold Node.identifier? at hidentifier
    split at hidentifier
    · rename_i hkind
      exact (h.present? hoperand).self.fresh (by simp [Node.name?, hkind, ← hidentifier])
    · simp at hidentifier
  · simp at hname

theorem targetBindings_isRenamed {statement : Span}
    (hinside : r.around.receiver? = none ∨ statement.startOffset ≠ r.around.classSpan.startOffset)
    (htarget : target.Everywhere (Node.Admits r)) (initializer initializer' : Option String) :
    List.Forall₂ (Binding.IsRenamed r)
      (targetBindings r.around statement target initializer)
      (targetBindings r.around statement (target.rename r.name) initializer') := by
  have hnames : ((target.rename r.name).targets.filterMap Node.boundName?) =
      (target.targets.filterMap Node.boundName?).map r.name := by
    rw [Node.targets_rename, List.filterMap_map, List.map_filterMap]
    exact List.filterMap_congr fun t _ => Node.boundName?_rename _ t
  have hfresh : ∀ name ∈ target.targets.filterMap Node.boundName?, name ≠ r.new := by
    intro name hname
    obtain ⟨t, ht, hbound⟩ := List.mem_filterMap.mp hname
    exact boundName?_ne (Node.Everywhere.target target htarget t ht) hbound
  unfold targetBindings
  rw [Node.rename_kind, hnames]
  cases hkind : target.kind
  case «variable» name sort =>
    have hname : name ≠ r.new := by
      rintro rfl
      exact htarget.self.fresh (by simp [Node.name?, hkind])
    exact .cons (localBinding_isRenamed hinside hname _ _ _ _ _ _) .nil
  all_goals
    simp only [NodeKind.rename, List.map_map, List.forall₂_map_left_iff,
      List.forall₂_map_right_iff, List.forall₂_same]
    exact fun name hname => localBinding_isRenamed hinside (hfresh name hname) _ _ _ _ _ _

theorem variable_ne {sort : ParameterSort} (h : node.Admits r)
    (hkind : node.kind = .variable name sort) : name ≠ r.new := by
  rintro rfl
  exact h.fresh (by simp [Node.name?, hkind])

theorem declaredBindings_isRenamed {scope : Scope}
    (hinside : r.around.receiver? = none ∨ scope.start ≠ r.around.classSpan.startOffset)
    (h : node.Everywhere (Node.Admits r)) :
    List.Forall₂ (Binding.IsRenamed r) (declaredBindings scope node)
      (declaredBindings scope (node.rename r.name)) := by
  unfold declaredBindings
  rw [Node.rename_children, ← List.map_drop, List.filterMap_map]
  apply forall₂_filterMap
  intro declarator hdeclarator
  have hadmits := h.child (List.mem_of_mem_drop hdeclarator)
  rw [Function.comp_apply, Node.rename_kind]
  cases hkind : declarator.kind
  case «variable» =>
    exact .some (localBinding_isRenamed hinside (variable_ne hadmits.self hkind) _ _ _ _ _ _)
  all_goals exact .none

section

variable (h : node.Everywhere (Node.Admits r))

include h

theorem resourceBindings_isRenamed :
    List.Forall₂ (Binding.IsRenamed r) (resourceBindings r.around node)
      (resourceBindings r.around (node.rename r.name)) := by
  unfold resourceBindings
  rw [Node.grandchildren_rename, Node.rename_span, List.filterMap_map]
  apply forall₂_filterMap
  intro resource hresource
  have hadmits := h.grandchild hresource
  rw [Function.comp_apply, Node.rename_kind]
  cases hkind : resource.kind
  case «variable» =>
    exact .some (localBinding_isRenamed h.self.inside (variable_ne hadmits.self hkind) _ _ _ _ _ _)
  all_goals exact .none

theorem headerBindings_isRenamed :
    List.Forall₂ (Binding.IsRenamed r) (headerBindings r.around node)
      (headerBindings r.around (node.rename r.name)) := by
  unfold headerBindings
  rw [Node.grandchildren_rename, Node.rename_span, List.flatMap_map]
  apply forall₂_flatMap
  intro item hitem
  rw [Node.rename_kind]
  cases item.kind
  case variableDeclaration =>
    exact declaredBindings_isRenamed h.self.inside (h.grandchild hitem)
  all_goals exact .nil

theorem caughtBindings_isRenamed :
    List.Forall₂ (Binding.IsRenamed r) (caughtBindings r.around node)
      (caughtBindings r.around (node.rename r.name)) := by
  unfold caughtBindings
  rw [Node.present?_rename, Node.rename_span]
  cases hname : node.present? 1 with
  | none => exact .nil
  | some caught =>
    rw [Option.map_some, Option.bind_some, Option.bind_some, Node.identifier?_rename]
    cases hidentifier : caught.identifier? with
    | none => exact .nil
    | some name =>
      have hfresh : name ≠ r.new := by
        apply boundName?_ne (h.present? hname)
        unfold Node.identifier? at hidentifier
        unfold Node.boundName?
        split at hidentifier <;> simp_all
      exact .cons (localBinding_isRenamed h.self.inside hfresh _ _ _ _ _ _) .nil

theorem loopBindings_isRenamed :
    List.Forall₂ (Binding.IsRenamed r) (loopBindings r.around node)
      (loopBindings r.around (node.rename r.name)) := by
  unfold loopBindings
  rw [Node.present?_rename, Node.rename_span]
  cases htarget : node.present? 0 with
  | none => exact .nil
  | some target => exact targetBindings_isRenamed h.self.inside (h.present? htarget) _ _

theorem aliasBindings_isRenamed :
    List.Forall₂ (Binding.IsRenamed r) (aliasBindings r.around node)
      (aliasBindings r.around (node.rename r.name)) := by
  unfold aliasBindings
  rw [Node.withItems_rename, Node.rename_span, List.flatMap_map]
  apply forall₂_flatMap
  intro item hitem
  have hadmits := h.child (List.mem_filter.mp hitem).1
  rw [Node.present?_rename]
  cases htarget : item.present? 1 with
  | none => exact .nil
  | some target => exact targetBindings_isRenamed h.self.inside (hadmits.present? htarget) _ _

end

/-- Neither name is that of the receiver, so a member is assigned through it before and after. -/
theorem assignedBinding?_isRenamed
    (hinside : r.around.receiver? = none ∨ node.span.startOffset ≠ r.around.classSpan.startOffset)
    (htarget : target.Everywhere (Node.Admits r)) (type type' : TypeInfo)
    (initializer initializer' : Option String) :
    Option.Rel (Binding.IsRenamed r)
      (assignedBinding? r.around blockEnd node type initializer target)
      (assignedBinding? r.around blockEnd (node.rename r.name) type' initializer'
        (target.rename r.name)) := by
  unfold assignedBinding?
  rw [Node.rename_kind]
  cases hkind : target.kind
  case simpleName identifier =>
    have hfresh : identifier ≠ r.new := by
      rintro rfl
      exact htarget.self.fresh (by simp [Node.name?, hkind])
    simp only [NodeKind.rename]
    split
    · refine .some ⟨⟨rfl, ?_, rfl, rfl, fun _ => hfresh, nofun, fun _ => ?_⟩, ?_, fun _ => rfl⟩
      · simp
      · rw [localScope_start]
        exact hinside
      · simp
    · exact .none
  case fieldAccess name =>
    simp only [NodeKind.rename, Node.present?_rename]
    cases target.present? 0 with
    | none => exact .none
    | some receiver =>
      simp only [Option.map_some, Option.bind_some, Node.identifier?_rename]
      cases receiver.identifier? with
      | none => exact .none
      | some identifier =>
        simp only [Option.map_some]
        have hreceiver : r.around.receiver? = some (r.name identifier) ↔
            r.around.receiver? = some identifier := by
          unfold Renaming.name
          split
          · rename_i heq
            subst heq
            exact ⟨fun h => absurd h r.newPlain, fun h => absurd h r.oldPlain⟩
          · rfl
        by_cases hown : r.around.receiver? = some identifier
        · rw [if_pos hown, if_pos (hreceiver.mpr hown)]
          exact .some ⟨⟨rfl, rfl, rfl, rfl, nofun, fun _ => ⟨by simp [hown], rfl⟩, nofun⟩, rfl,
            fun h => absurd rfl h⟩
        · rw [if_neg hown, if_neg (mt hreceiver.mp hown)]
          exact .none
  all_goals exact .none

theorem assignedBindings_isRenamed (operator : String) (h : node.Everywhere (Node.Admits r)) :
    List.Forall₂ (Binding.IsRenamed r)
      (assignedBindings r.around blockEnd operator node)
      (assignedBindings r.around blockEnd operator (node.rename r.name)) := by
  unfold assignedBindings
  rw [Node.child?_rename]
  cases hchild : node.child? 0 with
  | none => exact .nil
  | some target =>
    simp only [Option.map_some, Node.targets_rename]
    split
    · rw [List.filterMap_map]
      apply forall₂_filterMap
      intro t ht
      exact assignedBinding?_isRenamed blockEnd h.self.inside
        (Node.Everywhere.target target (h.child? hchild) t ht) _ _ _ _
    · exact .nil

end Bindings

theorem bareHead_isRenamed (shape : Shape) {text text' : String} (node : Node)
    (htext : Exchanged r.old r.new text text') :
    StatementHead.IsRenamed r { kind, shape, text, span := node.span }
      { kind, shape, text := text', span := (node.rename r.name).span } where
  kind := rfl
  text := htext
  shape := rfl
  span := Node.rename_span _ node
  facts := Facts.isRenamed_empty
  controls := .nil
  bindings := .nil
  outerNames := rfl
  outer := by simp

theorem clauseHead_isRenamed (h : node.Everywhere (Node.Admits r)) :
    (clauseHead node).IsRenamed r (clauseHead (node.rename r.name)) := by
  have hbare : ∀ kind, (compositeHead kind node [] []).IsRenamed r
      (compositeHead kind (node.rename r.name) [] []) :=
    fun kind => compositeHead_isRenamed kind h (by simp) rfl .nil
  unfold clauseHead
  rw [Node.rename_kind]
  cases node.kind
  all_goals exact hbare _

theorem outerHead_isRenamed (h : node.Everywhere (Node.Admits r)) {names : List String}
    (hnames : node.outerNames = names) :
    StatementHead.IsRenamed r
      { leafHead .outerNames node [] with outerNames := names }
      { leafHead .outerNames (node.rename r.name) [] with outerNames := names } :=
  { leafHead_isRenamed .outerNames h .nil with
    outerNames := rfl
    outer := hnames ▸ h.self.outer }

theorem head_isRenamed (h : node.Everywhere (Node.Admits r)) {head other : StatementHead}
    {nested nested' handlers handlers' : List Statement}
    {outlines outlines' : List (List Statement)}
    (hhead : ofKind r.around blockEnd node outlines = [.known head nested handlers])
    (hother : ofKind r.around blockEnd (node.rename r.name) outlines' =
      [.known other nested' handlers']) :
    head.IsRenamed r other := by
  have hpresent : ∀ indices, ∀ control ∈ node.presentAt indices,
      control.Everywhere (Node.Admits r) := fun _ _ => h.presentAt
  have hgrand : ∀ index, ∀ control ∈ node.grandchildren index,
      control.Everywhere (Node.Admits r) := fun _ _ => h.grandchild
  unfold ofKind at hhead hother
  rw [Node.rename_kind] at hother
  cases hkind : node.kind
  all_goals rw [hkind] at hhead hother
  case forLoop style =>
    cases style with
    | each =>
      cases hhead
      cases hother
      exact compositeHead_isRenamed _ h (hpresent _) (Node.presentAt_rename _ _ _)
        (loopBindings_isRenamed h)
    | classic =>
      cases hhead
      cases hother
      refine compositeHead_isRenamed _ h ?_ ?_ (headerBindings_isRenamed h)
      · simp only [List.forall_mem_append]
        exact ⟨⟨hgrand 0, hpresent _⟩, hgrand 2⟩
      · simp only [Node.grandchildren_rename, Node.presentAt_rename, List.map_append]
  all_goals cases hhead
  all_goals cases hother
  case caseClause =>
    refine compositeHead_isRenamed _ h ?_ ?_ .nil
    · simp only [List.forall_mem_append]
      exact ⟨hgrand 0, hpresent _⟩
    · simp only [Node.grandchildren_rename, Node.presentAt_rename, List.map_append]
  case tryStatement =>
    exact compositeHead_isRenamed _ h (hgrand 0) (Node.grandchildren_rename _ _ _)
      (resourceBindings_isRenamed h)
  case catchClause =>
    exact compositeHead_isRenamed _ h (hgrand 0) (Node.grandchildren_rename _ _ _)
      (caughtBindings_isRenamed h)
  case withStatement =>
    refine compositeHead_isRenamed _ h ?_ ?_ (aliasBindings_isRenamed h)
    · intro control hcontrol
      obtain ⟨item, hitem, hcontext⟩ := List.mem_filterMap.mp hcontrol
      exact (h.child (List.mem_filter.mp hitem).1).present? hcontext
    · rw [Node.withItems_rename, List.filterMap_map, List.map_filterMap]
      exact List.filterMap_congr fun item _ => Node.present?_rename _ _ _
  case variableDeclaration =>
    refine leafHead_isRenamed _ h ?_
    rw [Node.rename_span]
    refine declaredBindings_isRenamed ?_ h
    rw [localScope_start]
    exact h.self.inside
  case assignment operator =>
    exact leafHead_isRenamed _ h (assignedBindings_isRenamed blockEnd operator h)
  case globalNames => exact outerHead_isRenamed h (by simp [Node.outerNames, hkind])
  case nonlocalNames => exact outerHead_isRenamed h (by simp [Node.outerNames, hkind])
  -- The other kinds introduce nothing.
  all_goals first
    | exact clauseHead_isRenamed h
    | exact bareHead_isRenamed _ _ node (.copy _)
    | exact bareHead_isRenamed _ _ node (text_isRenamed h)
    | exact leafHead_isRenamed _ h .nil
    | exact compositeHead_isRenamed _ h (by simp) rfl .nil
    | exact compositeHead_isRenamed _ h (hpresent _) (Node.presentAt_rename _ _ _) .nil

theorem ofNode_isRenamed (node : Node) (h : node.Everywhere (Node.Admits r)) :
    List.Forall₂ (IsRenamed r) (ofNode r.around blockEnd node)
      (ofNode r.around blockEnd (node.rename r.name)) := by
  induction node using Node.inductionOnChildren generalizing blockEnd with
  | step node ih =>
    have hkinds := NodeKind.apply_rename r.name (g := NodeKind.statementKind?)
      (fun _ _ => rfl) (fun _ _ _ => rfl) node.kind
    rw [← Node.rename_kind] at hkinds
    cases hkind : node.kind.statementKind? with
    | some kind =>
      obtain ⟨head, -, hhead⟩ := ofNode_known r.around blockEnd hkind
      obtain ⟨other, -, hother⟩ := ofNode_known r.around blockEnd (hkinds.trans hkind)
      have hheads : head.IsRenamed r other :=
        head_isRenamed blockEnd h ((ofNode_eq_ofKind ..).symm.trans hhead)
          ((ofNode_eq_ofKind ..).symm.trans hother)
      rw [hhead, hother, Node.statementsInside_rename, Node.clausesBeside_rename,
        Node.isBlock_rename, Node.rename_span, List.flatMap_map, List.flatMap_map]
      refine .cons (.known hheads (forall₂_flatMap fun child hchild => ?_)
        (forall₂_flatMap fun child hchild => ?_)) .nil
      · have hchild := Node.mem_children_of_inside hchild
        exact ih child hchild _ (h.child hchild)
      · have hchild := Node.mem_children_of_beside hchild
        exact ih child hchild _ (h.child hchild)
    | none =>
      have hlabel := NodeKind.apply_rename r.name (g := NodeKind.label)
        (fun _ _ => rfl) (fun _ _ _ => rfl) node.kind
      have hcomments := NodeKind.apply_rename r.name (g := NodeKind.isComment)
        (fun _ _ => rfl) (fun _ _ _ => rfl) node.kind
      rw [← Node.rename_kind] at hlabel hcomments
      rw [ofNode_eq_ofKind, ofNode_eq_ofKind]
      cases hcomment : node.kind.isComment with
      | true =>
        rw [ofKind_comment _ _ _ hcomment, ofKind_comment _ _ _ (hcomments.trans hcomment)]
        exact .nil
      | false =>
        rw [ofKind_unknown _ _ _ hkind hcomment,
          ofKind_unknown _ _ _ (hkinds.trans hkind) (hcomments.trans hcomment), hlabel,
          Node.rename_span]
        exact .cons (.unknown _ _) .nil

end Statement

end CodeEvolution
