import CodeEvolution.Proofs.Body.Blocks
/-!
# Where the variables of a body come from

Every variable of a body is a parameter, or a statement other than a block introduces it: the
variables are taken from the numbered statements, and no block introduces one.
-/
namespace CodeEvolution

variable {v : Variable} {names : DeclaredNames} {statement : Option Nat} (around : Surroundings)
  (method : Node)

namespace DeclaredNames

theorem mem_declare {binding : Binding} (h : v ∈ (declare statement names binding).declarations) :
    v ∈ names.declarations ∨ v = { binding.introduced with statement } := by
  unfold declare at h
  split at h
  · simpa using h
  · exact Or.inl h

theorem mem_foldl_declare {bindings : List Binding}
    (h : v ∈ (bindings.foldl (declare statement) names).declarations) :
    v ∈ names.declarations ∨ ∃ binding ∈ bindings, v = { binding.introduced with statement } := by
  induction bindings generalizing names with
  | nil => exact Or.inl h
  | cons binding rest ih =>
    rcases ih h with h | ⟨other, hother, h⟩
    · rcases mem_declare h with h | h
      · exact Or.inl h
      · exact Or.inr ⟨binding, List.mem_cons_self, h⟩
    · exact Or.inr ⟨other, List.mem_cons_of_mem _ hother, h⟩

theorem ofParameters_eq_foldl (parameters : List Variable) :
    ofParameters parameters =
      (parameters.map fun v => ({ introduced := v } : Binding)).foldl (declare none) {} := by
  rw [List.foldl_map]
  rfl

theorem mem_ofParameters {parameters : List Variable}
    (h : v ∈ (ofParameters parameters).declarations) :
    ∃ parameter ∈ parameters, v = { parameter with statement := none } := by
  rw [ofParameters_eq_foldl] at h
  rcases mem_foldl_declare h with h | ⟨binding, hbinding, rfl⟩
  · simp at h
  · obtain ⟨parameter, hparameter, rfl⟩ := List.mem_map.mp hbinding
    exact ⟨parameter, hparameter, rfl⟩

theorem mem_foldl_afterStatement {entries : List NumberedStatement}
    (h : v ∈ (entries.foldl afterStatement names).declarations) :
    v ∈ names.declarations ∨
      ∃ entry ∈ entries, v.statement = some entry.fragment.id ∧ entry.bindings ≠ [] := by
  induction entries generalizing names with
  | nil => exact Or.inl h
  | cons entry rest ih =>
    rcases ih h with h | ⟨other, hother, h⟩
    · rcases mem_foldl_declare h with h | ⟨binding, hbinding, rfl⟩
      · exact Or.inl h
      · exact Or.inr ⟨entry, List.mem_cons_self, rfl, List.ne_nil_of_mem hbinding⟩
    · exact Or.inr ⟨other, List.mem_cons_of_mem _ hother, h⟩

end DeclaredNames

namespace Body

def Originates (body : Body) (v : Variable) : Prop :=
  (v.statement = none ∧ v.role = .parameter) ∨
    ∃ f ∈ body.fragments, v.statement = some f.id ∧ f.isStatement = true ∧ f.isBlock = false

theorem numberedOf_introduces :
    ∀ entry ∈ numberedOf around method, entry.bindings ≠ [] →
      entry.fragment.isStatement = true ∧ entry.fragment.isBlock = false := by
  refine Statement.forall_mem_number (statementsOf_isShaped around method) ?_ ?_ _
  · intro s head nested handlers hshaped hbindings
    refine ⟨?_, beq_eq_false_iff_ne.mpr fun hblock => hbindings (hshaped.block hblock).2⟩
    simpa [Statement.headFragment, Fragment.isStatement] using hshaped.shape
  · exact fun _ _ _ _ _ _ _ hbindings => absurd rfl hbindings

theorem role_of_ofParameter? {scope : Scope} {node : Node}
    (h : Variable.ofParameter? scope node = some v) : v.role = .parameter := by
  unfold Variable.ofParameter? at h
  split at h
  · rw [← Option.some.inj h]
  · simp at h

theorem ofMethod_originates (parameters : List Node) :
    ∀ v ∈ (ofMethod around method parameters).declarations,
      (ofMethod around method parameters).Originates v := by
  intro v hv
  rcases DeclaredNames.mem_foldl_afterStatement hv with hv | ⟨entry, hentry, hid, hbindings⟩
  · obtain ⟨parameter, hparameter, rfl⟩ := DeclaredNames.mem_ofParameters hv
    obtain ⟨node, -, hnode⟩ := List.mem_filterMap.mp hparameter
    have hrole := role_of_ofParameter? hnode
    exact Or.inl ⟨rfl, hrole⟩
  · right
    obtain ⟨declared, hfragments⟩ := ofMethod_fragments around method parameters
    have houtside := numberedOf_introduces around method entry hentry hbindings
    refine ⟨introducing entry.fragment (declared entry.fragment), ?_, hid, houtside⟩
    rw [hfragments]
    exact List.mem_map_of_mem hentry

def IsOfMethod (body : Body) : Prop :=
  ∃ around method parameters, body = ofMethod around method parameters

namespace IsOfMethod

variable {body : Body} (h : body.IsOfMethod)

include h

theorem isLaidOut : body.IsLaidOut := by
  obtain ⟨around, method, parameters, rfl⟩ := h
  exact ofMethod_isLaidOut around method parameters

theorem isArena : body.IsArena := by
  obtain ⟨around, method, parameters, rfl⟩ := h
  exact ofMethod_isArena around method parameters

theorem originates : ∀ v ∈ body.declarations, body.Originates v := by
  obtain ⟨around, method, parameters, rfl⟩ := h
  exact ofMethod_originates around method parameters

theorem owner {g : Fragment} (hg : g ∈ body.fragments) (hshape : g.shape = .expression) :
    ∃ owner ∈ body.composites, g.id ∈ owner.expressions := by
  obtain ⟨around, method, parameters, rfl⟩ := h
  exact ofMethod_owner around method parameters hg hshape

end IsOfMethod

end Body

end CodeEvolution
