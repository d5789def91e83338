import CodeEvolution.Proofs.Delta.Exactness
import Mathlib.Data.List.Perm.Basic
/-!
# The difference of two models read backwards

Each pass goes through the first side and searches the second, yet which members it pairs does not
depend on the direction. Members of one key are paired in their order on both sides, a name left
over once on either side is so in both directions, and similar classes are chosen by a preference
that both directions share. So exchanging two models exchanges what was removed and what was added,
and the sides of every pair.
-/
namespace CodeEvolution

variable (removed added : List Operation)

namespace Partition

variable {α : Type}

/-- A pairing read backwards: the sides of all pairs exchanged, and removed and added. -/
structure IsMirror (p q : Partition α) : Prop where
  removed : q.removed = p.added
  added : q.added = p.removed
  common : List.Perm q.common (p.common.map Prod.swap)

theorem of_isMirror {κ : Type} [BEq κ] [LawfulBEq κ] (key : α → κ) (befores afters : List α) :
    (Partition.of (fun b a => key b == key a) befores afters).IsMirror
      (Partition.of (fun b a => key b == key a) afters befores) := by
  induction befores generalizing afters with
  | nil =>
    have hnone : ∀ items : List α, Partition.of (fun b a => key b == key a) items [] =
        ⟨items, [], []⟩ := by
      intro items
      induction items with
      | nil => rfl
      | cons a rest ih =>
        rw [of_cons_none (by rfl), ih]
    rw [hnone]
    exact ⟨rfl, rfl, .refl _⟩
  | cons b rest ih =>
    cases h : takeFirst (fun a => key b == key a) afters with
    | some found =>
      obtain ⟨a, others⟩ := found
      obtain ⟨front, back, rfl, rfl, ha, hfront⟩ := takeFirst_split h
      -- Backwards, what stands before the partner passes the member over, and then it is found.
      have hskip := of_unmatched (fun b a => key b == key a)
        (fun c hc => BEq.comm.trans (hfront c hc)) rest
      have htake : takeFirst (fun c => key a == key c)
          (b :: (Partition.of (fun b a => key b == key a) front rest).added) =
          some (b, (Partition.of (fun b a => key b == key a) front rest).added) := by
        simp [takeFirst, beq_iff_eq.mp ha]
      obtain ⟨hremoved, hadded, hcommon⟩ := ih (front ++ back)
      rw [of_append] at hremoved hadded hcommon
      rw [of_cons_some h, of_append, hskip]
      dsimp only
      rw [of_cons_some htake]
      exact ⟨hremoved, hadded, List.perm_middle.trans (hcommon.cons (a, b))⟩
    | none =>
      have hskip := of_unmatched (fun b a => key b == key a)
        (fun c hc => BEq.comm.trans (takeFirst_eq_none_iff.mp h c hc)) rest
      obtain ⟨hremoved, hadded, hcommon⟩ := ih afters
      rw [of_cons_none h, hskip]
      exact ⟨hremoved, congrArg (b :: ·) hadded, hcommon⟩

end Partition

namespace ClassDelta

theorem leftOnce_comm : leftOnce added removed = leftOnce removed added :=
  funext fun _ => Bool.and_comm _ _

theorem nodup_renewedPairs : (renewedPairs removed added).Nodup := by
  apply List.Nodup.of_map Prod.fst
  rw [renewedPairs_fst]
  exact (nodup_names fun _ h => (leftOnce_iff.mp h).1).of_map Operation.name

theorem renewedPairs_swap :
    List.Perm (renewedPairs added removed) ((renewedPairs removed added).map Prod.swap) := by
  rw [List.perm_ext_iff_of_nodup (nodup_renewedPairs added removed)
    ((nodup_renewedPairs removed added).map Prod.swap_injective)]
  rintro ⟨a, o⟩
  rw [show (a, o) = Prod.swap (o, a) from rfl, List.mem_map_of_injective Prod.swap_injective,
    mem_renewedPairs, mem_renewedPairs, renewed?_eq_some, renewed?_eq_some, leftOnce_comm]
  constructor
  · rintro ⟨ha, honce, ho, hname⟩
    exact ⟨ho, hname.symm ▸ honce, ha, hname.symm⟩
  · rintro ⟨ho, honce, ha, hname⟩
    exact ⟨ha, hname.symm ▸ honce, ho, hname.symm⟩

theorem pairOperations_isMirror (before after : List Operation) :
    (pairOperations before after).IsMirror (pairOperations after before) := by
  have hexact : (bySignature before after).IsMirror (bySignature after before) :=
    Partition.of_isMirror Operation.signatureKey before after
  rw [pairOperations_eq, pairOperations_eq]
  dsimp only
  rw [hexact.removed, hexact.added]
  refine ⟨?_, ?_, ?_⟩
  · simp only [notOnce, leftOnce_comm]
  · simp only [notOnce, leftOnce_comm]
  · refine (sortByPosition_perm _ _ _).trans (.trans ?_ ((sortByPosition_perm _ _ _).symm.map _))
    rw [List.map_append]
    exact hexact.common.append (renewedPairs_swap _ _)

/-- The difference of two classes read backwards, up to the order of pairs. The alignments of
bodies are left aside. -/
structure IsMirror (d m : ClassDelta) : Prop where
  before : m.before = d.after
  after : m.after = d.before
  matchedBy : m.matchedBy = d.matchedBy
  removedOperations : m.removedOperations = d.addedOperations
  addedOperations : m.addedOperations = d.removedOperations
  commonOperations : List.Perm (m.commonOperations.map fun p => (p.before, p.after))
    (d.commonOperations.map fun p => (p.after, p.before))
  removedAttributes : m.removedAttributes = d.addedAttributes
  addedAttributes : m.addedAttributes = d.removedAttributes
  commonAttributes : List.Perm m.commonAttributes (d.commonAttributes.map Prod.swap)

theorem ofClasses_isMirror (config : Config) (before after : ModelClass)
    (matchedBy : ClassMatch) :
    (ofClasses config before after matchedBy).IsMirror
      (ofClasses config after before matchedBy) := by
  have hoperations := pairOperations_isMirror before.operations after.operations
  have hattributes := Partition.of_isMirror Attribute.matchKey before.attributes after.attributes
  exact
    { before := rfl
      after := rfl
      matchedBy := rfl
      removedOperations := hoperations.removed
      addedOperations := hoperations.added
      commonOperations := by
        simp only [ofClasses, OperationPair.ofOperations, List.map_map, Function.comp_def,
          Prod.mk.eta, List.map_id']
        exact hoperations.common
      removedAttributes := hattributes.removed
      addedAttributes := hattributes.added
      commonAttributes := hattributes.common }

end ClassDelta

namespace ModelDelta

theorem notAt_eq_of_perm {α : Type} {positions positions' : List Nat}
    (h : List.Perm positions positions') (items : List α) :
    notAt positions items = notAt positions' items := by
  have hcontains : ∀ i, positions.contains i = positions'.contains i := by
    intro i
    rw [Bool.eq_iff_iff, List.contains_iff_mem, List.contains_iff_mem, h.mem_iff]
  simp only [notAt, hcontains]

theorem similarPairs_swap (threshold : Binary64) (removed added : List ModelClass) :
    List.Perm (similarPairs threshold added removed)
      ((similarPairs threshold removed added).map fun pair => (pair.2.1, pair.1, pair.2.2)) := by
  have hclasses : ∀ pair : SimilarPair, similarClasses? added removed pair.swap =
      (similarClasses? removed added pair).map fun pair => (pair.2.1, pair.1, pair.2.2) := by
    intro pair
    simp only [similarClasses?, SimilarPair.swap]
    cases removed[pair.before]? <;> cases added[pair.after]? <;> rfl
  have hchosen := (SimilarPair.choose_swap threshold removed added).filterMap
    (similarClasses? added removed)
  rw [List.filterMap_map, Function.comp_def, funext hclasses] at hchosen
  rw [similarPairs, similarPairs, List.map_filterMap]
  exact hchosen

section Classes

variable (config : Config) (before after : Model)

theorem byQualifiedName_isMirror :
    (byQualifiedName before after).IsMirror (byQualifiedName after before) :=
  Partition.of_isMirror ModelClass.qualifiedName before.classes after.classes

theorem classPairs_swap :
    List.Perm (classPairs config after before)
      ((classPairs config before after).map fun pair => (pair.2.1, pair.1, pair.2.2)) := by
  have hnamed := byQualifiedName_isMirror before after
  rw [classPairs, classPairs, hnamed.removed, hnamed.added, List.map_append, List.map_map]
  have hbyName := hnamed.common.map fun p => (p.1, p.2, ClassMatch.byName)
  rw [List.map_map] at hbyName
  exact hbyName.append (similarPairs_swap _ _ _)

theorem removedClasses_mirror :
    (ofModels config after before).removedClasses =
      (ofModels config before after).addedClasses := by
  have hnamed := byQualifiedName_isMirror before after
  have hchosen := (SimilarPair.choose_swap config.classSimilarityThreshold
    (byQualifiedName before after).removed (byQualifiedName before after).added).map
    SimilarPair.before
  rw [List.map_map] at hchosen
  change notAt ((SimilarPair.choose _ (byQualifiedName after before).removed
    (byQualifiedName after before).added).map _) (byQualifiedName after before).removed = _
  rw [hnamed.removed, hnamed.added]
  exact notAt_eq_of_perm hchosen _

theorem commonClasses_mirror :
    ∃ arranged, List.Forall₂ ClassDelta.IsMirror (ofModels config before after).commonClasses
        arranged ∧
      List.Perm arranged (ofModels config after before).commonClasses := by
  let backwards := (classPairs config before after).map fun pair =>
    ClassDelta.ofClasses config pair.2.1 pair.1 pair.2.2
  have hpairs : List.Forall₂ ClassDelta.IsMirror
      ((classPairs config before after).map fun pair =>
        ClassDelta.ofClasses config pair.1 pair.2.1 pair.2.2) backwards := by
    rw [List.forall₂_map_left_iff, List.forall₂_map_right_iff, List.forall₂_same]
    exact fun pair _ => ClassDelta.ofClasses_isMirror config pair.1 pair.2.1 pair.2.2
  have hbackwards : List.Perm (ofModels config after before).commonClasses backwards := by
    refine (commonClasses_perm config after before).trans ?_
    have h := (classPairs_swap config before after).map fun pair =>
      ClassDelta.ofClasses config pair.1 pair.2.1 pair.2.2
    rwa [List.map_map] at h
  obtain ⟨arranged, hmirror, hperm⟩ :=
    List.perm_comp_forall₂ (commonClasses_perm config before after) hpairs
  exact ⟨arranged, hmirror, hperm.trans hbackwards.symm⟩

end Classes

/-- The difference of two models read backwards: the classes that were removed and those that were
added change places, and the pairs of classes, each read backwards, are the same up to order. -/
structure IsMirror (d m : ModelDelta) : Prop where
  before : m.before = d.after
  after : m.after = d.before
  removedClasses : m.removedClasses = d.addedClasses
  addedClasses : m.addedClasses = d.removedClasses
  commonClasses : ∃ arranged, List.Forall₂ ClassDelta.IsMirror d.commonClasses arranged ∧
    List.Perm arranged m.commonClasses

/-- The difference of two models, taken in the other direction, is the same one read backwards. -/
theorem ofModels_isMirror (config : Config) (before after : Model) :
    (ofModels config before after).IsMirror (ofModels config after before) where
  before := rfl
  after := rfl
  removedClasses := removedClasses_mirror config before after
  addedClasses := (removedClasses_mirror config after before).symm
  commonClasses := commonClasses_mirror config before after

end ModelDelta

end CodeEvolution
