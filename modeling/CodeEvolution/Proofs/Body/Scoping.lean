import CodeEvolution.Proofs.Body.Heads
/-!
# How the variables of a body come together

The statements of a body are taken one after the other. A variable is declared if none of its name
and scope is there; one that an assignment introduces also has to be hidden where it is assigned,
and its name must not have been left to an outer scope before. This is said here as a relation
between a variable and those declared before it, kept by every step.
-/
namespace CodeEvolution

variable {b : Binding} {entry : NumberedStatement} (statement : Option Nat)
  {bindings : List Binding}

def Variable.IsAssigned (entries : List NumberedStatement) (w : Variable) : Prop :=
  w.role = .localVariable ∧ ∃ entry ∈ entries, w.statement = some entry.fragment.id ∧
    entry.fragment.kind = .assignment

structure Variable.Allows (entries : List NumberedStatement) (v w : Variable) : Prop where
  distinct : v.same w = false
  parameter : w.statement = none → v.statement = none
  statement : ∀ i j, v.statement = some i → w.statement = some j → i ≤ j
  hidden : w.IsAssigned entries → v.isMember = false → v.name = w.name →
    v.scope.contains w.scope.start = false

/-- A variable is one that a statement introduces. If it is assigned, no statement up to this one
leaves its name to an outer scope. -/
structure Variable.Originates (entries : List NumberedStatement) (entry : NumberedStatement)
    (w : Variable) : Prop where
  mem : entry ∈ entries
  binding : ∃ b ∈ entry.bindings, w = { b.introduced with statement := some entry.fragment.id }
  outer : w.IsAssigned entries → ∀ other ∈ entries, other.fragment.id ≤ entry.fragment.id →
    w.name ∉ other.outerNames

structure NumberedStatement.AreRegular (around : Surroundings) (entries : List NumberedStatement) :
    Prop where
  ascending : entries.Pairwise fun e e' => e.fragment.id < e'.fragment.id
  arises : ∀ entry ∈ entries, ∀ b ∈ entry.bindings,
    ∃ stop, b.Arises around stop entry.fragment.kind entry.fragment.span

theorem rel_or_rel_of_pairwise {α : Type} {R : α → α → Prop} {l : List α} (h : l.Pairwise R)
    {x y : α} (hx : x ∈ l) (hy : y ∈ l) : x = y ∨ R x y ∨ R y x := by
  obtain ⟨i, hi, rfl⟩ := List.mem_iff_getElem.mp hx
  obtain ⟨j, hj, rfl⟩ := List.mem_iff_getElem.mp hy
  have hrel := List.pairwise_iff_getElem.mp h
  rcases Nat.lt_trichotomy i j with hlt | rfl | hlt
  · exact Or.inr (Or.inl (hrel i j hi hj hlt))
  · exact Or.inl rfl
  · exact Or.inr (Or.inr (hrel j i hj hi hlt))

theorem NumberedStatement.AreRegular.eq_of_id {around : Surroundings}
    {entries : List NumberedStatement} (h : AreRegular around entries) {e e' : NumberedStatement}
    (he : e ∈ entries) (he' : e' ∈ entries) (hid : e.fragment.id = e'.fragment.id) : e = e' := by
  rcases rel_or_rel_of_pairwise h.ascending he he' with heq | hlt | hlt
  · exact heq
  · exact absurd hid (Nat.ne_of_lt hlt)
  · exact absurd hid.symm (Nat.ne_of_lt hlt)

namespace DeclaredNames

variable {around : Surroundings} {entries : List NumberedStatement} {names : DeclaredNames}

/-- The names after the statements with numbers below a limit. -/
structure Reaches (entries : List NumberedStatement) (limit : Nat) (names : DeclaredNames) :
    Prop where
  outer : ∀ entry ∈ entries, entry.fragment.id < limit →
    ∀ name ∈ entry.outerNames, name ∈ names.outerNames
  ordered : names.declarations.Pairwise (Variable.Allows entries)
  origin : ∀ v ∈ names.declarations, v.statement ≠ none →
    ∃ entry, entry.fragment.id < limit ∧ v.Originates entries entry

theorem hidden_of_introduces {stop : Nat} {kind : StatementKind} {span : Span}
    (h : names.introduces b = true) (harises : b.Arises around stop kind span)
    (hkind : kind = .assignment) (hrole : b.introduced.role = .localVariable) :
    b.introduced.name ∉ names.outerNames ∧ ∀ v ∈ names.declarations, v.isMember = false →
      v.name = b.introduced.name → v.scope.contains b.introduced.scope.start = false := by
  cases harises with
  | assignedMember _ hmember =>
    rw [hmember] at hrole
    cases hrole
  | declared hdeclares =>
    rw [hkind] at hdeclares
    cases hdeclares
  | held hcomposite => exact absurd hkind hcomposite.1
  | assignedLocal _ _ _ hscope hassigned =>
    simp only [introduces, hassigned, Bool.and_eq_true, Bool.not_eq_true'] at h
    obtain ⟨⟨houter, hvisible⟩, -⟩ := h
    refine ⟨by simpa using houter, fun v hv hmember hname => ?_⟩
    have hany := List.any_eq_false.mp hvisible v hv
    rw [hscope, Statement.localScope_start]
    simpa [hname, hmember] using hany

theorem same_eq_false_of_introduces (h : names.introduces b = true) {v : Variable}
    (hv : v ∈ names.declarations) : v.same b.introduced = false := by
  simp only [introduces, Bool.and_eq_true, Bool.not_eq_true'] at h
  have hsame := List.any_eq_false.mp h.2 v hv
  simp only [Variable.same, Bool.and_eq_true, beq_iff_eq, not_and] at hsame
  simp only [Variable.same, Bool.and_eq_false_iff, beq_eq_false_iff_ne]
  by_cases hscope : v.scope = b.introduced.scope
  · exact Or.inr fun hname => hsame hscope.symm hname.symm
  · exact Or.inl hscope

theorem foldl_declare_distinct (h : names.declarations.Pairwise fun v w => v.same w = false) :
    (bindings.foldl (declare statement) names).declarations.Pairwise fun v w =>
      v.same w = false := by
  induction bindings generalizing names with
  | nil => exact h
  | cons b rest ih =>
    refine ih ?_
    unfold declare
    split
    · rename_i hintroduces
      refine List.pairwise_append.mpr ⟨h, List.pairwise_singleton _ _, fun v hv w hw => ?_⟩
      rw [List.mem_singleton.mp hw]
      exact same_eq_false_of_introduces hintroduces hv
    · exact h

theorem hidden_of_isAssigned (hregular : NumberedStatement.AreRegular around entries)
    (hentry : entry ∈ entries) (hb : b ∈ entry.bindings) (h : names.introduces b = true)
    (hassigned : Variable.IsAssigned entries
      { b.introduced with statement := some entry.fragment.id }) :
    b.introduced.name ∉ names.outerNames ∧ ∀ v ∈ names.declarations, v.isMember = false →
      v.name = b.introduced.name → v.scope.contains b.introduced.scope.start = false := by
  obtain ⟨stop, harises⟩ := hregular.arises entry hentry b hb
  obtain ⟨hrole, other, hother, hid, hkind⟩ := hassigned
  obtain rfl := hregular.eq_of_id hentry hother (Option.some.inj hid)
  exact hidden_of_introduces h harises hkind hrole

/-- A step of a statement: one of its variables is declared or left out. -/
theorem Reaches.declare (hregular : NumberedStatement.AreRegular around entries)
    (hentry : entry ∈ entries) (hb : b ∈ entry.bindings)
    (h : Reaches entries (entry.fragment.id + 1) names) :
    Reaches entries (entry.fragment.id + 1)
      (DeclaredNames.declare (some entry.fragment.id) names b) := by
  unfold DeclaredNames.declare
  split
  · rename_i hintroduces
    have hassigned := hidden_of_isAssigned hregular hentry hb hintroduces
    refine ⟨h.outer, ?_, ?_⟩
    · refine List.pairwise_append.mpr ⟨h.ordered, List.pairwise_singleton _ _, ?_⟩
      intro v hv u hu
      rw [List.mem_singleton.mp hu]
      refine ⟨same_eq_false_of_introduces hintroduces hv, nofun, fun i j hi hj => ?_,
        fun hw => (hassigned hw).2 v hv⟩
      obtain ⟨other, hlt, horigin⟩ := h.origin v hv (by rw [hi]; simp)
      obtain ⟨c, -, hc⟩ := horigin.binding
      have hother : some other.fragment.id = some i := by rw [← hi, hc]
      have hentryId : some entry.fragment.id = some j := hj
      have := Option.some.inj hother
      have := Option.some.inj hentryId
      omega
    · intro v hv hstatement
      rcases List.mem_append.mp hv with hv | hv
      · exact h.origin v hv hstatement
      · rw [List.mem_singleton.mp hv]
        refine ⟨entry, Nat.lt_succ_self _, hentry, ⟨b, hb, rfl⟩,
          fun hw other hother hle hname => ?_⟩
        exact (hassigned hw).1 (h.outer other hother (Nat.lt_succ_of_le hle) _ hname)
  · exact h

theorem Reaches.foldl_declare (hregular : NumberedStatement.AreRegular around entries)
    (hentry : entry ∈ entries) (hb : ∀ b ∈ bindings, b ∈ entry.bindings)
    (h : Reaches entries (entry.fragment.id + 1) names) :
    Reaches entries (entry.fragment.id + 1)
      (bindings.foldl (DeclaredNames.declare (some entry.fragment.id)) names) := by
  induction bindings generalizing names with
  | nil => exact h
  | cons b rest ih =>
    obtain ⟨hfirst, hrest⟩ := List.forall_mem_cons.mp hb
    exact ih hrest (h.declare hregular hentry hfirst)

theorem Reaches.foldl_afterStatement (hregular : NumberedStatement.AreRegular around entries)
    {rest : List NumberedStatement} {limit : Nat} (h : Reaches entries limit names)
    (hrest : ∀ entry ∈ rest, entry ∈ entries)
    (hascending : rest.Pairwise fun e e' => e.fragment.id < e'.fragment.id)
    (hlimit : ∀ entry ∈ entries, entry.fragment.id < limit ∨ entry ∈ rest)
    (hbound : ∀ entry ∈ rest, limit ≤ entry.fragment.id) :
    ∃ limit, Reaches entries limit (rest.foldl afterStatement names) := by
  induction rest generalizing names limit with
  | nil => exact ⟨limit, h⟩
  | cons entry rest ih =>
    obtain ⟨hentry, hrest⟩ := List.forall_mem_cons.mp hrest
    obtain ⟨hlater, hascending⟩ := List.pairwise_cons.mp hascending
    have hfirst := hbound entry List.mem_cons_self
    -- Before its variables are declared, a statement leaves names to an outer scope.
    have hstart : Reaches entries (entry.fragment.id + 1)
        { names with outerNames := names.outerNames ++ entry.outerNames } := by
      refine ⟨fun other hother hlt name hname => ?_, h.ordered, fun v hv hstatement => ?_⟩
      · rcases hlimit other hother with hbelow | hmem
        · exact List.mem_append_left _ (h.outer other hother hbelow name hname)
        · rcases List.mem_cons.mp hmem with rfl | hmem
          · exact List.mem_append_right _ hname
          · have := hlater other hmem
            omega
      · obtain ⟨other, hlt, horigin⟩ := h.origin v hv hstatement
        exact ⟨other, by omega, horigin⟩
    refine ih (hstart.foldl_declare hregular hentry fun _ hb => hb) hrest hascending ?_ ?_
    · intro other hother
      rcases hlimit other hother with hbelow | hmem
      · exact Or.inl (by omega)
      · rcases List.mem_cons.mp hmem with rfl | hmem
        · exact Or.inl (Nat.lt_succ_self _)
        · exact Or.inr hmem
    · exact fun other hother => hlater other hother

/-! ## Parameters -/

theorem declare_extends (b : Binding) :
    names.declarations <+: (declare statement names b).declarations := by
  unfold declare
  split
  · exact List.prefix_append _ _
  · exact List.prefix_rfl

theorem foldl_declare_extends (names : DeclaredNames) (bindings : List Binding) :
    names.declarations <+: (bindings.foldl (declare statement) names).declarations := by
  induction bindings generalizing names with
  | nil => exact List.prefix_rfl
  | cons b rest ih => exact (declare_extends statement b).trans (ih _)

theorem foldl_afterStatement_extends (entries : List NumberedStatement) :
    names.declarations <+: (entries.foldl afterStatement names).declarations := by
  induction entries generalizing names with
  | nil => exact List.prefix_rfl
  | cons entry rest ih =>
    have hfirst : names.declarations <+: (names.afterStatement entry).declarations :=
      foldl_declare_extends _ { names with outerNames := names.outerNames ++ entry.outerNames } _
    exact hfirst.trans ih

theorem exists_same_of_declare (names : DeclaredNames) (h : b.assignedAt = none) :
    ∃ v ∈ (declare statement names b).declarations,
      v.scope = b.introduced.scope ∧ v.name = b.introduced.name := by
  unfold declare
  split
  · exact ⟨_, List.mem_append_right _ (List.mem_singleton_self _), rfl, rfl⟩
  · rename_i hintroduces
    simp only [introduces, h, Bool.true_and, Bool.not_eq_true, Bool.not_eq_false'] at hintroduces
    obtain ⟨v, hv, hsame⟩ := List.any_eq_true.mp hintroduces
    simp only [Variable.same, Bool.and_eq_true, beq_iff_eq] at hsame
    exact ⟨v, hv, hsame.1.symm, hsame.2.symm⟩

theorem exists_same_of_parameter {parameters : List Variable} {parameter : Variable}
    (h : parameter ∈ parameters) :
    ∃ v ∈ (ofParameters parameters).declarations,
      v.scope = parameter.scope ∧ v.name = parameter.name := by
  obtain ⟨before, after, rfl⟩ := List.append_of_mem h
  obtain ⟨v, hv, hsame⟩ := exists_same_of_declare none (ofParameters before)
    (b := { introduced := parameter }) rfl
  refine ⟨v, ?_, hsame⟩
  rw [ofParameters_eq_foldl] at hv ⊢
  rw [List.map_append, List.foldl_append, List.map_cons, List.foldl_cons]
  exact (foldl_declare_extends none _ _).subset hv

theorem reaches_ofParameters (parameters : List Variable) :
    Reaches entries 0 (ofParameters parameters) := by
  have hnone : ∀ v ∈ (ofParameters parameters).declarations, v.statement = none := by
    intro v hv
    obtain ⟨parameter, -, rfl⟩ := mem_ofParameters hv
    rfl
  have hdistinct : (ofParameters parameters).declarations.Pairwise fun v w => v.same w = false := by
    rw [ofParameters_eq_foldl]
    exact foldl_declare_distinct none .nil
  refine ⟨fun _ _ hlt => absurd hlt (Nat.not_lt_zero _), ?_,
    fun v hv hne => absurd (hnone v hv) hne⟩
  refine hdistinct.imp_of_mem fun hv hw hsame => ⟨hsame, fun _ => hnone _ hv, ?_, ?_⟩
  · intro i j hi
    rw [hnone _ hv] at hi
    cases hi
  · rintro ⟨-, entry, -, hstatement, -⟩
    rw [hnone _ hw] at hstatement
    cases hstatement

end DeclaredNames

end CodeEvolution
