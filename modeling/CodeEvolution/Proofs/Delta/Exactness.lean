import CodeEvolution.Proofs.Delta.Operations
import CodeEvolution.Proofs.Delta.Similarity
/-!
# The difference of two models is an exact partition

Three passes pair classes, operations and attributes. Pairs of similar classes go by position, so
the classes they take away are counted by position as well. Equality up to order counts repeated
classes, operations and attributes by occurrence.
-/
namespace CodeEvolution

variable {positions : List Nat} (threshold : Binary64) (removed added : List ModelClass)

namespace ModelDelta

def picked {α : Type} (positions : List Nat) (items : List α) : List α :=
  positions.filterMap fun i => items[i]?

theorem notAt_perm {α : Type} {items : List α} (hnodup : positions.Nodup)
    (hbound : ∀ i ∈ positions, i < items.length) :
    List.Perm (notAt positions items ++ picked positions items) items := by
  -- Members may be repeated, so both sides are compared with their positions attached.
  let entries := positions.filterMap fun i => items[i]?.map fun a => (a, i)
  have hentries : entries.Nodup := by
    apply List.Nodup.of_map Prod.snd
    have hid : ∀ i ∈ positions, (items[i]?.map fun a => (a, i)).map Prod.snd = some i := by
      intro i hi
      simp [List.getElem?_eq_getElem (hbound i hi)]
    rw [List.map_filterMap, List.filterMap_congr hid]
    simpa using hnodup
  have hzip : (items.zipIdx.filter fun entry => positions.contains entry.2).Nodup := by
    apply List.Nodup.filter
    apply List.Nodup.of_map Prod.snd
    rw [List.zipIdx_map_snd]
    exact List.nodup_range'
  have hsame : List.Perm (items.zipIdx.filter fun entry => positions.contains entry.2) entries := by
    rw [List.perm_ext_iff_of_nodup hzip hentries]
    rintro ⟨a, i⟩
    simp only [List.mem_filter, List.mem_zipIdx_iff_getElem?, List.contains_iff_mem, entries,
      List.mem_filterMap, Option.map_eq_some_iff, Prod.mk.injEq]
    constructor
    · rintro ⟨ha, hi⟩
      exact ⟨i, hi, a, ha, rfl, rfl⟩
    · rintro ⟨j, hj, b, hb, rfl, rfl⟩
      exact ⟨hb, hj⟩
  have hpicked : picked positions items = entries.map Prod.fst := by
    simp [picked, entries, List.map_filterMap, Function.comp_def]
  have hall := (List.perm_append_comm.trans (List.filter_append_perm
    (fun entry : α × Nat => positions.contains entry.2) items.zipIdx)).map Prod.fst
  rw [List.map_append, List.zipIdx_map_fst] at hall
  rw [hpicked, notAt]
  exact ((hsame.symm.map Prod.fst).append_left _).trans hall

theorem perm_notAt_append {α : Type} {items paired all side : List α} (hnodup : positions.Nodup)
    (hbound : ∀ i ∈ positions, i < items.length) (hall : List.Perm (items ++ paired) all)
    (hside : List.Perm side (paired ++ picked positions items)) :
    List.Perm (notAt positions items ++ side) all :=
  (hside.append_left _).trans (perm_move (notAt_perm hnodup hbound) hall)

theorem mem_of_mem_notAt {α : Type} {items : List α} {a : α} (h : a ∈ notAt positions items) :
    a ∈ items := by
  obtain ⟨entry, hentry, rfl⟩ := List.mem_map.mp h
  exact List.fst_mem_of_mem_zipIdx (List.mem_filter.mp hentry).1

def similarPairs (threshold : Binary64) (removed added : List ModelClass) : List ClassPair :=
  (SimilarPair.choose threshold removed added).filterMap (similarClasses? removed added)

theorem similarPairs_fst :
    (similarPairs threshold removed added).map Prod.fst =
      picked ((SimilarPair.choose threshold removed added).map SimilarPair.before) removed := by
  rw [similarPairs, picked, List.map_filterMap, List.filterMap_map]
  apply List.filterMap_congr
  intro pair hpair
  obtain ⟨hb, ha⟩ := SimilarPair.choose_bounds hpair
  simp [similarClasses?, hb, ha]

theorem similarPairs_snd :
    (similarPairs threshold removed added).map (fun pair => pair.2.1) =
      picked ((SimilarPair.choose threshold removed added).map SimilarPair.after) added := by
  rw [similarPairs, picked, List.map_filterMap, List.filterMap_map]
  apply List.filterMap_congr
  intro pair hpair
  obtain ⟨hb, ha⟩ := SimilarPair.choose_bounds hpair
  simp [similarClasses?, hb, ha]

end ModelDelta

namespace ClassDelta

/-- Nothing is lost between two paired classes, nothing is told twice, and what is left over on
the two sides has no key in common and no name borne once on either side. -/
structure IsExact (d : ClassDelta) : Prop where
  before_operations : List.Perm
    (d.removedOperations ++ d.commonOperations.map OperationPair.before) d.before.operations
  after_operations : List.Perm
    (d.addedOperations ++ d.commonOperations.map OperationPair.after) d.after.operations
  before_attributes : List.Perm
    (d.removedAttributes ++ d.commonAttributes.map Prod.fst) d.before.attributes
  after_attributes : List.Perm
    (d.addedAttributes ++ d.commonAttributes.map Prod.snd) d.after.attributes
  attributes_apart : ∀ b ∈ d.removedAttributes, ∀ a ∈ d.addedAttributes, b.matchKey ≠ a.matchKey
  operations_apart : ∀ b ∈ d.removedOperations, ∀ a ∈ d.addedOperations,
    b.signatureKey ≠ a.signatureKey
  no_name_once : ∀ name,
    ¬((d.removedOperations.countP fun o => o.name == name) = 1 ∧
      (d.addedOperations.countP fun o => o.name == name) = 1)

theorem ofClasses_isExact (config : Config) (before after : ModelClass)
    (matchedBy : ClassMatch) : (ofClasses config before after matchedBy).IsExact where
  before_operations := by
    simpa [ofClasses, OperationPair.ofOperations, Function.comp_def] using
      pairOperations_before_perm before.operations after.operations
  after_operations := by
    simpa [ofClasses, OperationPair.ofOperations, Function.comp_def] using
      pairOperations_after_perm before.operations after.operations
  before_attributes := Partition.of_before_perm _ before.attributes after.attributes
  after_attributes := Partition.of_after_perm _ before.attributes after.attributes
  attributes_apart := by
    intro b hb a ha
    simpa using Partition.of_apart _ before.attributes after.attributes b hb a ha
  operations_apart := pairOperations_apart before.operations after.operations
  no_name_once := by
    intro name
    have h := pairOperations_names before.operations after.operations name
    rw [countNamed_eq_countP, countNamed_eq_countP] at h
    exact h

end ClassDelta

namespace ModelDelta

section Classes

variable (config : Config) (before after : Model)

def byQualifiedName : Partition ModelClass :=
  Partition.of (fun b a => b.qualifiedName == a.qualifiedName) before.classes after.classes

def classPairs : List ClassPair :=
  ((byQualifiedName before after).common.map fun p => (p.1, p.2, .byName)) ++
    similarPairs config.classSimilarityThreshold (byQualifiedName before after).removed
      (byQualifiedName before after).added

theorem commonClasses_perm :
    List.Perm (ofModels config before after).commonClasses
      ((classPairs config before after).map fun pair =>
        .ofClasses config pair.1 pair.2.1 pair.2.2) :=
  (sortByPosition_perm _ _ _).map _

theorem before_classes_perm :
    List.Perm ((ofModels config before after).removedClasses ++
      (ofModels config before after).commonClasses.map ClassDelta.before) before.classes := by
  have hpairs := (commonClasses_perm config before after).map ClassDelta.before
  simp only [classPairs, List.map_append, List.map_map, Function.comp_def,
    ClassDelta.ofClasses] at hpairs
  rw [similarPairs_fst] at hpairs
  exact perm_notAt_append (SimilarPair.choose_injective _ _ _).1
    (List.forall_mem_map.mpr fun pair hpair => (SimilarPair.choose_bounds hpair).1)
    (Partition.of_before_perm _ before.classes after.classes) hpairs

theorem after_classes_perm :
    List.Perm ((ofModels config before after).addedClasses ++
      (ofModels config before after).commonClasses.map ClassDelta.after) after.classes := by
  have hpairs := (commonClasses_perm config before after).map ClassDelta.after
  simp only [classPairs, List.map_append, List.map_map, Function.comp_def,
    ClassDelta.ofClasses] at hpairs
  rw [similarPairs_snd] at hpairs
  exact perm_notAt_append (SimilarPair.choose_injective _ _ _).2
    (List.forall_mem_map.mpr fun pair hpair => (SimilarPair.choose_bounds hpair).2)
    (Partition.of_after_perm _ before.classes after.classes) hpairs

theorem classes_apart :
    ∀ b ∈ (ofModels config before after).removedClasses,
      ∀ a ∈ (ofModels config before after).addedClasses, b.qualifiedName ≠ a.qualifiedName := by
  intro b hb a ha
  have h := Partition.of_apart (fun b a : ModelClass => b.qualifiedName == a.qualifiedName)
    before.classes after.classes b (mem_of_mem_notAt hb) a (mem_of_mem_notAt ha)
  simpa using h

theorem commonClasses_isExact : ∀ d ∈ (ofModels config before after).commonClasses, d.IsExact := by
  intro d hd
  obtain ⟨pair, -, rfl⟩ := List.mem_map.mp ((commonClasses_perm config before after).subset hd)
  exact ClassDelta.ofClasses_isExact config pair.1 pair.2.1 pair.2.2

end Classes

/-- Every class of two models, and every operation and attribute of two paired classes, is
accounted for exactly once, and what is left over on the two sides could not have been paired. -/
theorem ofModels_exact (config : Config) (before after : Model) :
    let delta := ofModels config before after
    List.Perm (delta.removedClasses ++ delta.commonClasses.map ClassDelta.before)
        before.classes ∧
      List.Perm (delta.addedClasses ++ delta.commonClasses.map ClassDelta.after) after.classes ∧
      (∀ b ∈ delta.removedClasses, ∀ a ∈ delta.addedClasses, b.qualifiedName ≠ a.qualifiedName) ∧
      ∀ d ∈ delta.commonClasses, d.IsExact :=
  ⟨before_classes_perm config before after, after_classes_perm config before after,
    classes_apart config before after, commonClasses_isExact config before after⟩

end ModelDelta

end CodeEvolution
