import CodeEvolution.Proofs.Delta.Exactness
import CodeEvolution.Proofs.Delta.Unchanged
/-!
# The difference of a model and a reordering of it

Where a key belongs to one member only, the pairing by keys pairs each member with the one that
took its place, wherever it stands. So a model and a reordering of it have no difference: no class,
operation or attribute is left over, and every operation is paired with itself.
-/
namespace CodeEvolution

variable {c c' : ModelClass} {pair : OperationPair} (config : Config)

/-- One list has the members of another in some order, each of them replaced by a related one. -/
def Rearranged {α : Type} (R : α → α → Prop) (befores afters : List α) : Prop :=
  ∃ arranged, List.Perm arranged befores ∧ List.Forall₂ R arranged afters

namespace Rearranged

variable {α : Type} {R : α → α → Prop} {befores afters : List α}

theorem of_perm (h : List.Perm afters befores) : Rearranged (· = ·) befores afters :=
  ⟨afters, h, List.forall₂_same.mpr fun _ _ => rfl⟩

theorem length_eq (h : Rearranged R befores afters) : afters.length = befores.length := by
  obtain ⟨arranged, hperm, hrelated⟩ := h
  exact hrelated.length_eq.symm.trans hperm.length_eq

theorem exists_after (h : Rearranged R befores afters) {b : α} (hb : b ∈ befores) :
    ∃ a ∈ afters, R b a := by
  obtain ⟨arranged, hperm, hrelated⟩ := h
  obtain ⟨i, hi, rfl⟩ := List.mem_iff_getElem.mp (hperm.mem_iff.mpr hb)
  have hi' : i < afters.length := hrelated.length_eq ▸ hi
  exact ⟨afters[i], List.getElem_mem hi', hrelated.get hi hi'⟩

theorem exists_before (h : Rearranged R befores afters) {a : α} (ha : a ∈ afters) :
    ∃ b ∈ befores, R b a := by
  obtain ⟨arranged, hperm, hrelated⟩ := h
  obtain ⟨i, hi, rfl⟩ := List.mem_iff_getElem.mp ha
  have hi' : i < arranged.length := hrelated.length_eq ▸ hi
  exact ⟨arranged[i], hperm.mem_iff.mp (List.getElem_mem hi'), hrelated.get hi' hi⟩

end Rearranged

namespace Partition

variable {α : Type}

theorem of_common_same (same : α → α → Bool) (befores afters : List α) :
    ∀ p ∈ (Partition.of same befores afters).common, same p.1 p.2 = true := by
  fun_induction Partition.of same befores afters with
  | case1 => simp
  | case2 b rest afters a others htake tail ih =>
    exact List.forall_mem_cons.mpr ⟨(takeFirst_eq_some htake).1, ih⟩
  | case3 b rest afters _ tail ih => exact ih

section Unique

variable {κ : Type} [BEq κ] [LawfulBEq κ] {key : α → κ} {R : α → α → Prop} {befores afters : List α}

theorem of_rearranged (hunique : (befores.map key).Nodup) (hkey : ∀ b a, R b a → key a = key b)
    (h : Rearranged R befores afters) :
    (Partition.of (fun b a => key b == key a) befores afters).removed = [] ∧
      (Partition.of (fun b a => key b == key a) befores afters).added = [] ∧
      ∀ p ∈ (Partition.of (fun b a => key b == key a) befores afters).common,
        p.1 ∈ befores ∧ R p.1 p.2 := by
  have hbefore := of_before_perm (fun b a => key b == key a) befores afters
  have hafter := of_after_perm (fun b a => key b == key a) befores afters
  have hapart := of_apart (fun b a => key b == key a) befores afters
  have hsame := of_common_same (fun b a => key b == key a) befores afters
  generalize Partition.of (fun b a => key b == key a) befores afters = p at *
  have hfirst : ∀ pair ∈ p.common, pair.1 ∈ befores := fun pair hpair =>
    hbefore.subset (List.mem_append_right _ (List.mem_map_of_mem hpair))
  have hpartner : ∀ pair ∈ p.common, ∀ b ∈ befores, R b pair.2 → pair.1 = b := by
    intro pair hpair b hb hrelated
    apply List.inj_on_of_nodup_map hunique (hfirst pair hpair) hb
    exact (beq_iff_eq.mp (hsame pair hpair)).trans (hkey b pair.2 hrelated)
  have hremoved : p.removed = [] := by
    rw [List.eq_nil_iff_forall_not_mem]
    intro b hb
    have hmem : b ∈ befores := hbefore.subset (List.mem_append_left _ hb)
    obtain ⟨a, ha, hrelated⟩ := h.exists_after hmem
    -- What took the place of `b` is not left over, so it is paired, and then with `b` again.
    rcases List.mem_append.mp (hafter.mem_iff.mpr ha) with hadded | hcommon
    · have hne := hapart b hb a hadded
      simp [hkey b a hrelated] at hne
    · obtain ⟨pair, hpair, rfl⟩ := List.mem_map.mp hcommon
      have heq := hpartner pair hpair b hmem hrelated
      have hnodup := hbefore.nodup_iff.mpr (List.Nodup.of_map key hunique)
      exact (List.nodup_append.mp hnodup).2.2 b hb pair.1 (List.mem_map_of_mem hpair) heq.symm
  have hadded : p.added = [] := by
    have hlength := h.length_eq
    rw [← hbefore.length_eq, ← hafter.length_eq, hremoved] at hlength
    simpa using hlength
  refine ⟨hremoved, hadded, ?_⟩
  intro pair hpair
  obtain ⟨b, hb, hrelated⟩ := h.exists_before
    (hafter.subset (List.mem_append_right _ (List.mem_map_of_mem hpair)))
  rw [hpartner pair hpair b hb hrelated]
  exact ⟨hb, hrelated⟩

end Unique

end Partition

structure ModelClass.IsReordering (c c' : ModelClass) : Prop where
  operations : List.Perm c'.operations c.operations
  attributes : List.Perm c'.attributes c.attributes
  rest : c' = { c with operations := c'.operations, attributes := c'.attributes }

theorem ModelClass.IsReordering.qualifiedName (h : c.IsReordering c') :
    c'.qualifiedName = c.qualifiedName := by
  rw [h.rest]
  rfl

theorem ModelClass.IsReordering.decorators (h : c.IsReordering c') :
    c'.decorators = c.decorators := by
  rw [h.rest]

/-- One model has the classes of another in some order, each with its operations and attributes in
some order. -/
def Model.IsReordering (m m' : Model) : Prop :=
  Rearranged ModelClass.IsReordering m.classes m'.classes

/-- Whatever is looked up by a key is the only one of that key: classes by qualified name,
operations by signature and attributes by name, type and role within a class, decorators by name
within a class or an operation. -/
structure Model.HasUniqueKeys (m : Model) : Prop where
  classes : (m.classes.map ModelClass.qualifiedName).Nodup
  operations : ∀ c ∈ m.classes, (c.operations.map Operation.signatureKey).Nodup
  attributes : ∀ c ∈ m.classes, (c.attributes.map Attribute.matchKey).Nodup
  classDecorators : ∀ c ∈ m.classes, (c.decorators.map Decorator.name).Nodup
  operationDecorators : ∀ c ∈ m.classes, ∀ o ∈ c.operations, (o.decorators.map Decorator.name).Nodup

structure OperationPair.IsIdentity (pair : OperationPair) : Prop where
  after : pair.after = pair.before
  isIdentical : pair.alignment.isIdentical = true
  links : ∀ link ∈ pair.alignment.links, link.IsIdentity

theorem OperationPair.ofOperations_isIdentity (receivers : List String) {o : Operation}
    (h : o.body.IsOfMethod) : (ofOperations config receivers o o).IsIdentity := by
  have hself := ofOperations_isReflexive config receivers o
  exact ⟨rfl, Comparison.align_isIdentical hself h, Comparison.align_isIdentity hself h⟩

namespace ClassDelta

theorem pairOperations_reordered {operations operations' : List Operation}
    (hunique : (operations.map Operation.signatureKey).Nodup)
    (h : List.Perm operations' operations) :
    (pairOperations operations operations').removed = [] ∧
      (pairOperations operations operations').added = [] ∧
      ∀ p ∈ (pairOperations operations operations').common, p.1 ∈ operations ∧ p.1 = p.2 := by
  have hexact : (bySignature operations operations').removed = [] ∧
      (bySignature operations operations').added = [] ∧
      ∀ p ∈ (bySignature operations operations').common, p.1 ∈ operations ∧ p.1 = p.2 :=
    Partition.of_rearranged hunique (fun _ _ heq => congrArg Operation.signatureKey heq.symm)
      (.of_perm h)
  obtain ⟨hremoved, hadded, hcommon⟩ := hexact
  rw [pairOperations_eq]
  dsimp only
  rw [hremoved, hadded]
  refine ⟨rfl, rfl, ?_⟩
  intro p hp
  rw [(sortByPosition_perm _ _ _).mem_iff, List.mem_append] at hp
  rcases hp with hp | hp
  · exact hcommon p hp
  · simp [renewedPairs] at hp

theorem mem_commonOperations_reordered {config : Config} {matchedBy : ClassMatch}
    (hunique : (c.operations.map Operation.signatureKey).Nodup) (h : c.IsReordering c')
    (hpair : pair ∈ (ofClasses config c c' matchedBy).commonOperations) :
    ∃ o ∈ c.operations, pair = .ofOperations config c.language.receivers o o := by
  obtain ⟨p, hp, rfl⟩ := List.mem_map.mp hpair
  obtain ⟨hmem, heq⟩ := (pairOperations_reordered hunique h.operations).2.2 p hp
  exact ⟨p.1, hmem, by rw [heq]⟩

theorem ofClasses_reordered_isUnchanged
    (hoperations : (c.operations.map Operation.signatureKey).Nodup)
    (hattributes : (c.attributes.map Attribute.matchKey).Nodup)
    (hbodies : ∀ o ∈ c.operations, o.body.IsOfMethod) (h : c.IsReordering c') :
    (ofClasses config c c' .byName).IsUnchanged := by
  have hpaired := pairOperations_reordered hoperations h.operations
  have hmatched := Partition.of_rearranged hattributes
    (fun _ _ heq => congrArg Attribute.matchKey heq.symm) (.of_perm h.attributes)
  constructor
  · rfl
  · exact hpaired.1
  · exact hpaired.2.1
  · exact hmatched.1
  · exact hmatched.2.1
  · intro pair hpair
    obtain ⟨o, ho, rfl⟩ := mem_commonOperations_reordered hoperations h hpair
    exact OperationPair.ofOperations_isUnchanged config _ (hbodies o ho)

end ClassDelta

namespace ModelDelta

section Reordered

variable (config : Config) {m m' : Model} (hunique : m.HasUniqueKeys) (h : m.IsReordering m')

include hunique h

theorem ofModels_reordered :
    (ofModels config m m').removedClasses = [] ∧ (ofModels config m m').addedClasses = [] ∧
      ∀ d ∈ (ofModels config m m').commonClasses, ∃ c ∈ m.classes, ∃ c',
        c.IsReordering c' ∧ d = .ofClasses config c c' .byName := by
  have hnamed : (byQualifiedName m m').removed = [] ∧ (byQualifiedName m m').added = [] ∧
      ∀ p ∈ (byQualifiedName m m').common, p.1 ∈ m.classes ∧ p.1.IsReordering p.2 :=
    Partition.of_rearranged hunique.classes (fun _ _ hc => hc.qualifiedName) h
  obtain ⟨hremoved, hadded, hcommon⟩ := hnamed
  have hpaired : byQualifiedName m m' = ⟨[], [], (byQualifiedName m m').common⟩ := by
    calc byQualifiedName m m'
        = ⟨(byQualifiedName m m').removed, (byQualifiedName m m').added,
            (byQualifiedName m m').common⟩ := rfl
      _ = ⟨[], [], (byQualifiedName m m').common⟩ := by rw [hremoved, hadded]
  obtain ⟨hremoved, hadded, hperm⟩ := ofModels_allPaired config hpaired
  refine ⟨hremoved, hadded, ?_⟩
  intro d hd
  obtain ⟨p, hp, rfl⟩ := List.mem_map.mp (hperm.mem_iff.mp hd)
  exact ⟨p.1, (hcommon p hp).1, p.2, (hcommon p hp).2, rfl⟩

theorem mem_operationPairs_reordered (hpair : pair ∈ (ofModels config m m').operationPairs) :
    ∃ c ∈ m.classes, ∃ o ∈ c.operations, pair = .ofOperations config c.language.receivers o o := by
  obtain ⟨d, hd, hpair⟩ := List.mem_flatMap.mp hpair
  obtain ⟨c, hc, c', hcc', rfl⟩ := (ofModels_reordered config hunique h).2.2 d hd
  exact ⟨c, hc, ClassDelta.mem_commonOperations_reordered (hunique.operations c hc) hcc' hpair⟩

theorem ofModels_reordered_isUnchanged (hbodies : m.HasMethodBodies) :
    (ofModels config m m').IsUnchanged := by
  obtain ⟨hremoved, hadded, hcommon⟩ := ofModels_reordered config hunique h
  refine ⟨hremoved, hadded, ?_⟩
  intro d hd
  obtain ⟨c, hc, c', hcc', rfl⟩ := hcommon d hd
  exact ClassDelta.ofClasses_reordered_isUnchanged config (hunique.operations c hc)
    (hunique.attributes c hc) (hbodies c hc) hcc'

end Reordered

end ModelDelta

end CodeEvolution
