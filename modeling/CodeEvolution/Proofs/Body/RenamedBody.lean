import CodeEvolution.Proofs.Body.Layout
import CodeEvolution.Proofs.Body.RenamedStatements
/-!
# The body of a method after a variable was renamed

Numbering depends on how many statements there are and how they are nested, so corresponding
statements get the same numbers and places. Which statement introduces a variable depends on names
and scopes only, and no two names have become one, so the variables correspond too and the same
fragments refer to them.
-/
namespace CodeEvolution

variable (statement : Option Nat)

structure Fragment.IsTwin (f g : Fragment) : Prop where
  id : g.id = f.id
  kind : g.kind = f.kind
  shape : g.shape = f.shape
  depth : g.depth = f.depth
  span : g.span = f.span
  parent : g.parent = f.parent
  expressions : g.expressions = f.expressions
  index : g.index = f.index

/-- The fragment of a statement or a control before and after a renaming. -/
structure Fragment.IsRenamed (r : Renaming) (f g : Fragment) : Prop where
  twin : f.IsTwin g
  text : Text.Exchanged r.old r.new f.text g.text
  facts : f.facts.IsRenamed r g.facts

structure NumberedStatement.IsRenamed (r : Renaming) (entry other : NumberedStatement) : Prop where
  fragment : entry.fragment.IsRenamed r other.fragment
  bindings : List.Forall₂ (Binding.IsRenamed r) entry.bindings other.bindings
  outerNames : other.outerNames = entry.outerNames
  outer : ∀ name ∈ entry.outerNames, name ≠ r.old ∧ name ≠ r.new

namespace Statement

variable {r : Renaming} {statements others : List Statement}

theorem sizeAll_isRenamed (h : List.Forall₂ (IsRenamed r) statements others) :
    sizeAll others = sizeAll statements := by
  induction statements using inductionOnRow generalizing others with
  | nil =>
    cases h
    rfl
  | unknown line label rest ih =>
    obtain ⟨other, others, hfirst, hrest, rfl⟩ := List.forall₂_cons_left_iff.mp h
    cases hfirst
    simpa using ih hrest
  | known head nested handlers rest ihNested ihRest =>
    obtain ⟨other, others, hfirst, hrest, rfl⟩ := List.forall₂_cons_left_iff.mp h
    cases hfirst with
    | known heads inside beside =>
      rw [sizeAll_known, sizeAll_known, heads.controls.length_eq, ihNested inside,
        ihRest (List.rel_append beside hrest)]

theorem numberControls_isRenamed (parent depth id index : Nat) {controls controls' : List Control}
    (h : List.Forall₂ (Control.IsRenamed r) controls controls') :
    List.Forall₂ (NumberedStatement.IsRenamed r)
      (numberControls parent depth id index controls)
      (numberControls parent depth id index controls') := by
  induction h generalizing id index with
  | nil => exact .nil
  | cons hcontrol _ ih =>
    refine .cons ⟨⟨?_, hcontrol.text, hcontrol.facts⟩, .nil, rfl, by simp⟩ (ih _ _)
    exact ⟨rfl, rfl, rfl, rfl, hcontrol.span, rfl, rfl, rfl⟩

theorem number_isRenamed (s : RowStart) (h : List.Forall₂ (IsRenamed r) statements others) :
    List.Forall₂ (NumberedStatement.IsRenamed r) (s.number statements) (s.number others) := by
  induction statements using inductionOnRow generalizing s others with
  | nil =>
    cases h
    exact .nil
  | unknown line label rest ih =>
    obtain ⟨other, others, hfirst, hrest, rfl⟩ := List.forall₂_cons_left_iff.mp h
    cases hfirst
    exact (ih s hrest :)
  | known head nested handlers rest ihNested ihRest =>
    obtain ⟨other, others, hfirst, hrest, rfl⟩ := List.forall₂_cons_left_iff.mp h
    cases hfirst with
    | known heads inside beside =>
      rw [number_known, number_known, RowStart.inside, RowStart.behind, RowStart.inside,
        RowStart.behind, heads.kind, ← heads.controls.length_eq, sizeAll_isRenamed inside]
      refine .cons ⟨⟨?_, heads.text, heads.facts⟩, heads.bindings, heads.outerNames, heads.outer⟩ ?_
      · refine ⟨rfl, heads.kind, heads.shape, rfl, heads.span, rfl, ?_, rfl⟩
        simp only [headFragment, heads.controls.length_eq]
      · exact List.rel_append (List.rel_append
          (numberControls_isRenamed _ _ _ _ heads.controls) (ihNested _ inside))
          (ihRest _ (List.rel_append beside hrest))

end Statement

namespace Variable.IsRenamed

variable {r : Renaming} {v w u t : Variable}

theorem isMember (h : v.IsRenamed r w) : w.isMember = v.isMember := by
  rw [Variable.isMember, Variable.isMember, h.role]

theorem introducedBy (h : v.IsRenamed r w) (statement : Option Nat) :
    ({ v with statement } : Variable).IsRenamed r { w with statement } :=
  ⟨h.role, h.scope, rfl, h.name, h.fresh, h.member, h.inside⟩

theorem name_of_local (h : v.IsRenamed r w) (hlocal : v.isMember = false) :
    w.name = r.name v.name := by
  rw [h.name, hlocal]
  rfl

/-- A local variable is never taken for a member, whatever their names. -/
theorem scope_ne (hv : v.IsRenamed r w) (hu : u.IsRenamed r t)
    (hmember : v.isMember = true) (hlocal : u.isMember = false) : v.scope ≠ u.scope := by
  obtain ⟨hreceiver, hstart⟩ := hv.member hmember
  intro hscope
  rcases hu.inside hlocal with hnone | hinside
  · exact hreceiver hnone
  · exact hinside (hscope ▸ hstart)

theorem same_eq (hv : v.IsRenamed r w) (hu : u.IsRenamed r t) : w.same t = v.same u := by
  unfold Variable.same
  rw [hv.scope, hu.scope]
  cases hmember : v.isMember <;> cases hmember' : u.isMember
  · rw [hv.name_of_local hmember, hu.name_of_local hmember', Bool.eq_iff_iff]
    simp only [Bool.and_eq_true, beq_iff_eq]
    rw [r.name_inj (hv.fresh hmember) (hu.fresh hmember')]
  · have hne : v.scope ≠ u.scope := (hu.scope_ne hv hmember' hmember).symm
    rw [beq_eq_false_iff_ne.mpr hne, Bool.false_and, Bool.false_and]
  · have hne : v.scope ≠ u.scope := hv.scope_ne hu hmember hmember'
    rw [beq_eq_false_iff_ne.mpr hne, Bool.false_and, Bool.false_and]
  · rw [hv.name, hu.name, hmember, hmember', if_pos rfl, if_pos rfl]

end Variable.IsRenamed

namespace DeclaredNames

structure IsRenamed (r : Renaming) (names others : DeclaredNames) :
    Prop where
  declarations : List.Forall₂ (Variable.IsRenamed r) names.declarations others.declarations
  outerNames : others.outerNames = names.outerNames
  outer : ∀ name ∈ names.outerNames, name ≠ r.old ∧ name ≠ r.new

variable {r : Renaming} {names others : DeclaredNames}

theorem any_eq_of_forall₂ {α β : Type} {R : α → β → Prop} {l : List α} {l' : List β}
    {p : α → Bool} {q : β → Bool} (h : List.Forall₂ R l l') (hpq : ∀ a b, R a b → q b = p a) :
    l'.any q = l.any p := by
  induction h with
  | nil => rfl
  | cons hab _ ih => rw [List.any_cons, List.any_cons, hpq _ _ hab, ih]

theorem introduces_isRenamed (h : names.IsRenamed r others) {b c : Binding}
    (hb : b.IsRenamed r c) : others.introduces c = names.introduces b := by
  have hsame : others.declarations.any c.introduced.same =
      names.declarations.any b.introduced.same :=
    any_eq_of_forall₂ h.declarations fun v w hv => hb.introduced.same_eq hv
  unfold introduces
  rw [hb.assignedAt, hsame]
  cases hassigned : b.assignedAt with
  | none => rfl
  | some offset =>
    have hlocal := hb.assigned (by simp [hassigned])
    have hfresh := hb.introduced.fresh hlocal
    have hname := hb.introduced.name_of_local hlocal
    have houter : others.outerNames.contains c.introduced.name =
        names.outerNames.contains b.introduced.name := by
      rw [h.outerNames, hname, Bool.eq_iff_iff, List.contains_iff_mem, List.contains_iff_mem]
      unfold Renaming.name
      split
      · rename_i heq
        exact ⟨fun hmem => absurd rfl (h.outer _ hmem).2, fun hmem => absurd heq (h.outer _ hmem).1⟩
      · rfl
    have hvisible : others.isVisible c.introduced.name offset =
        names.isVisible b.introduced.name offset := by
      refine any_eq_of_forall₂ h.declarations fun v w hv => ?_
      rw [hv.isMember, hv.scope]
      cases hmember : v.isMember with
      | true => simp
      | false =>
        rw [hv.name_of_local hmember, hname]
        congr 2
        rw [Bool.eq_iff_iff, beq_iff_eq, beq_iff_eq, r.name_inj (hv.fresh hmember) hfresh]
    dsimp only
    rw [houter, hvisible]

theorem declare_isRenamed (h : names.IsRenamed r others) {b c : Binding} (hb : b.IsRenamed r c) :
    (declare statement names b).IsRenamed r (declare statement others c) := by
  unfold declare
  rw [introduces_isRenamed h hb]
  split
  · refine ⟨List.rel_append h.declarations (.cons ?_ .nil), h.outerNames, h.outer⟩
    exact hb.introduced.introducedBy statement
  · exact h

theorem foldl_declare_isRenamed {bindings bindings' : List Binding}
    (hbindings : List.Forall₂ (Binding.IsRenamed r) bindings bindings')
    (h : names.IsRenamed r others) :
    (bindings.foldl (declare statement) names).IsRenamed r
      (bindings'.foldl (declare statement) others) := by
  induction hbindings generalizing names others with
  | nil => exact h
  | cons hb _ ih => exact ih (declare_isRenamed statement h hb)

theorem afterStatement_isRenamed (h : names.IsRenamed r others)
    {entry other : NumberedStatement} (hentry : entry.IsRenamed r other) :
    (names.afterStatement entry).IsRenamed r (others.afterStatement other) := by
  unfold afterStatement
  rw [hentry.fragment.twin.id]
  refine foldl_declare_isRenamed _ hentry.bindings ⟨h.declarations, ?_, ?_⟩
  · rw [h.outerNames, hentry.outerNames]
  · exact List.forall_mem_append.mpr ⟨h.outer, hentry.outer⟩

theorem foldl_afterStatement_isRenamed {entries entries' : List NumberedStatement}
    (hentries : List.Forall₂ (NumberedStatement.IsRenamed r) entries entries')
    (h : names.IsRenamed r others) :
    (entries.foldl afterStatement names).IsRenamed r (entries'.foldl afterStatement others) := by
  induction hentries generalizing names others with
  | nil => exact h
  | cons hentry _ ih => exact ih (afterStatement_isRenamed h hentry)

theorem ofParameters_isRenamed {parameters parameters' : List Variable}
    (h : List.Forall₂ (Variable.IsRenamed r) parameters parameters') :
    (ofParameters parameters).IsRenamed r (ofParameters parameters') := by
  have hfold : ∀ variableList : List Variable, ofParameters variableList =
      (variableList.map fun v => ({ introduced := v } : Binding)).foldl (declare none) {} := by
    intro variableList
    rw [List.foldl_map]
    rfl
  rw [hfold, hfold]
  refine foldl_declare_isRenamed none ?_ ⟨.nil, rfl, by simp⟩
  rw [List.forall₂_map_left_iff, List.forall₂_map_right_iff]
  exact h.imp fun v w hv => ⟨hv, rfl, fun hassigned => absurd rfl hassigned⟩

end DeclaredNames

namespace Body

/-- Two bodies of a method, the second after a renaming. The same fragments refer to a variable
that is no member before and after. -/
structure IsRenamed (r : Renaming) (body other : Body) : Prop where
  fragments : List.Forall₂ (Fragment.IsRenamed r) body.fragments other.fragments
  declarations : List.Forall₂ (Variable.IsRenamed r) body.declarations other.declarations
  references : ∀ (id : Nat) (v : Variable), body.declarations[id]? = some v →
    v.isMember = false → other.references[id]? = body.references[id]?

section OfMethod

variable {r : Renaming}

theorem refersTo_isRenamed (receiver? : Option String) {v w : Variable} {f g : Fragment}
    (hv : v.IsRenamed r w) (hlocal : v.isMember = false)
    (hf : f.IsRenamed r g) :
    refersTo receiver? w g = refersTo receiver? v f := by
  have hblock : g.isBlock = f.isBlock := by rw [Fragment.isBlock, Fragment.isBlock, hf.twin.kind]
  unfold refersTo
  rw [hblock, hv.isMember, hlocal, hv.scope, hf.twin.span, hv.name_of_local hlocal,
    hf.facts.mentions (hv.fresh hlocal)]
  rfl

theorem filter_labels_eq {β : Type} {label : Fragment → β} {p q : Fragment → Bool}
    {R : Fragment → Fragment → Prop} {fragments others : List Fragment}
    (h : List.Forall₂ R fragments others) (hlabel : ∀ f g, R f g → label g = label f)
    (hpq : ∀ f g, R f g → q g = p f) :
    (others.filter q).map label = (fragments.filter p).map label := by
  induction h with
  | nil => rfl
  | @cons f g fs gs hfg _ ih =>
    rw [List.filter_cons, List.filter_cons, hpq f g hfg]
    split
    · rw [List.map_cons, List.map_cons, ih, hlabel f g hfg]
    · exact ih

theorem statementsOf_isRenamed {method : Node} (h : method.Everywhere (Node.Admits r)) :
    List.Forall₂ (Statement.IsRenamed r) (statementsOf r.around method)
      (statementsOf r.around (method.rename r.name)) := by
  unfold statementsOf
  rw [Node.body?_rename]
  cases hbody : method.body? with
  | none => exact .nil
  | some block =>
    have hblock : block ∈ method.children := by
      unfold Node.body? at hbody
      split at hbody
      · exact List.mem_of_getLast? (Option.filter_eq_some_iff.mp hbody).1
      · exact List.mem_of_getLast? (Option.filter_eq_some_iff.mp hbody).1
      · simp at hbody
    exact Statement.ofNode_isRenamed _ block (h.child hblock)

theorem ofParameter?_isRenamed {scope : Scope} {parameter : Node}
    (hinside : r.around.receiver? = none ∨ scope.start ≠ r.around.classSpan.startOffset)
    (hfresh : parameter.name? ≠ some r.new) :
    Option.Rel (Variable.IsRenamed r) (Variable.ofParameter? scope parameter)
      (Variable.ofParameter? scope (parameter.rename r.name)) := by
  unfold Variable.ofParameter?
  rw [Node.rename_kind]
  cases hkind : parameter.kind
  case «variable» name sort =>
    have hname : name ≠ r.new := by
      rintro rfl
      exact hfresh (by simp [Node.name?, hkind])
    exact .some ⟨rfl, rfl, rfl, rfl, fun _ => hname, by simp [Variable.isMember], fun _ => hinside⟩
  all_goals exact .none

theorem ofMethod_references (around : Surroundings) (method : Node) (parameters : List Node) :
    (ofMethod around method parameters).references =
      (ofMethod around method parameters).declarations.map fun v =>
        ((ofMethod around method parameters).fragments.filter
          (refersTo around.receiver? v)).map Fragment.id :=
  rfl

theorem exists_of_getElem? {α β : Type} {R : α → β → Prop} {l : List α} {l' : List β}
    (h : List.Forall₂ R l l') {index : Nat} {a : α} (ha : l[index]? = some a) :
    ∃ b, l'[index]? = some b ∧ R a b := by
  have hrel := rel_getElem? h index
  rw [ha] at hrel
  generalize l'[index]? = found at hrel
  cases hrel with
  | some h => exact ⟨_, rfl, h⟩

theorem ofMethod_isRenamed {method : Node} {parameters : List Node}
    (hmethod : method.Everywhere (Node.Admits r))
    (hparameters : ∀ parameter ∈ parameters, parameter.name? ≠ some r.new) :
    (ofMethod r.around method parameters).IsRenamed r
      (ofMethod r.around (method.rename r.name) (parameters.map (Node.rename r.name))) := by
  let scope := Scope.ofSpan r.around.file method.span
  have hnumbered := Statement.number_isRenamed { } (statementsOf_isRenamed hmethod)
  have hdeclared : List.Forall₂ (Variable.IsRenamed r)
      (parameters.filterMap (Variable.ofParameter? scope))
      ((parameters.map (Node.rename r.name)).filterMap (Variable.ofParameter? scope)) := by
    rw [List.filterMap_map]
    exact Statement.forall₂_filterMap fun parameter hparameter =>
      ofParameter?_isRenamed hmethod.self.inside (hparameters parameter hparameter)
  have hnames := DeclaredNames.foldl_afterStatement_isRenamed hnumbered
    (DeclaredNames.ofParameters_isRenamed hdeclared)
  have hfragments : List.Forall₂ (Fragment.IsRenamed r)
      (ofMethod r.around method parameters).fragments
      (ofMethod r.around (method.rename r.name)
        (parameters.map (Node.rename r.name))).fragments := by
    simp only [ofMethod, List.forall₂_map_left_iff, List.forall₂_map_right_iff]
    exact hnumbered.imp fun entry other h =>
      ⟨{ h.fragment.twin with }, h.fragment.text, h.fragment.facts⟩
  have hvariables : List.Forall₂ (Variable.IsRenamed r)
      (ofMethod r.around method parameters).declarations
      (ofMethod r.around (method.rename r.name)
        (parameters.map (Node.rename r.name))).declarations := by
    simp only [ofMethod, Node.rename_span]
    exact hnames.declarations
  refine ⟨hfragments, hvariables, ?_⟩
  intro id v hv hlocal
  obtain ⟨w, hw, hvw⟩ := exists_of_getElem? hvariables hv
  rw [ofMethod_references, ofMethod_references, List.getElem?_map, List.getElem?_map, hv, hw,
    Option.map_some, Option.map_some]
  congr 1
  exact filter_labels_eq hfragments (fun f g h => h.twin.id)
    fun f g h => refersTo_isRenamed r.around.receiver? hvw hlocal h

end OfMethod

end Body

end CodeEvolution
