import CodeEvolution.Proofs.Delta.Unchanged
import CodeEvolution.Refactoring.Run
/-!
# Rules where nothing is left to explain

Thirteen of the fourteen rules start from a class, an operation, an attribute or a variable that
was removed, added or renamed, so they propose nothing where nothing was. Nor do they where only
operations were removed and added and all of them are explained. Decorators are looked up by name,
and of several that bear one name only the first is found. That is the only way in which an
unchanged model gives rise to a proposal.
-/
namespace CodeEvolution

variable {d : ClassDelta} {inference : Inference}

structure OperationPair.KeepsVariables (pair : OperationPair) : Prop where
  removed : pair.alignment.variableDelta.removed = []
  added : pair.alignment.variableDelta.added = []
  renamed : pair.alignment.variableDelta.renamed = []

theorem OperationPair.IsUnchanged.keepsVariables {pair : OperationPair} (h : pair.IsUnchanged) :
    pair.KeepsVariables :=
  ⟨h.removed, h.added, h.renamed⟩

namespace OperationPair.KeepsVariables

variable {pair : OperationPair} (h : pair.KeepsVariables)

include h

theorem removedVariables : pair.removedVariables = [] := by
  rw [OperationPair.removedVariables, h.removed]
  rfl

theorem addedVariables : pair.addedVariables = [] := by
  rw [OperationPair.addedVariables, h.added]
  rfl

theorem renamedVariables : pair.renamedVariables = [] := by
  rw [OperationPair.renamedVariables, h.renamed]
  rfl

end OperationPair.KeepsVariables

namespace ModelDelta.IsUnchanged

variable {delta : ModelDelta} (h : delta.IsUnchanged)

include h

theorem members_eq_nil {β : Type} {classes : List ModelClass} (hclasses : classes = [])
    {ofClass : ModelClass → List β} {ofPair : ClassDelta → List β}
    (hpair : ∀ d, d.IsUnchanged → ofPair d = []) :
    classes.flatMap ofClass ++ delta.commonClasses.flatMap ofPair = [] := by
  rw [hclasses, List.flatMap_nil, List.nil_append, List.flatMap_eq_nil_iff]
  exact fun d hd => hpair d (h.commonClasses d hd)

theorem removedOperations : delta.removedOperations = [] :=
  h.members_eq_nil h.removedClasses fun _ hd => hd.removedOperations

theorem addedOperations : delta.addedOperations = [] :=
  h.members_eq_nil h.addedClasses fun _ hd => hd.addedOperations

theorem removedAttributes : delta.removedAttributes = [] :=
  h.members_eq_nil h.removedClasses fun _ hd => hd.removedAttributes

theorem addedAttributes : delta.addedAttributes = [] :=
  h.members_eq_nil h.addedClasses fun _ hd => hd.addedAttributes

theorem operationPairs : ∀ pair ∈ delta.operationPairs, pair.IsUnchanged := by
  intro pair hpair
  obtain ⟨d, hd, hpair⟩ := List.mem_flatMap.mp hpair
  exact (h.commonClasses d hd).commonOperations pair hpair

theorem openKeys : Inference.openKeys delta = [] := by
  simp [Inference.openKeys, h.removedClasses, h.addedClasses, h.removedOperations,
    h.addedOperations, h.removedAttributes, h.addedAttributes]

end ModelDelta.IsUnchanged

namespace Inference

theorem ofDecorators_matched {classes : List ClassDelta} {pairs : List OperationPair}
    {proposal : Proposal}
    (h : proposal ∈ classes.flatMap ofClassDecorators ++ pairs.flatMap ofMethodDecorators) :
    proposal.matched = none := by
  rcases List.mem_append.mp h with h | h
  · obtain ⟨d, -, h⟩ := List.mem_flatMap.mp h
    obtain ⟨change, -, rfl⟩ := List.mem_map.mp h
    rfl
  · obtain ⟨pair, -, h⟩ := List.mem_flatMap.mp h
    obtain ⟨change, -, rfl⟩ := List.mem_map.mp h
    rfl

theorem alignedPairs_eq_nil {pairs : List (Operation × Operation)}
    (hpairs : ∀ p ∈ pairs, inference.isClaimed (.ofRemovedOperation p.1) = true) :
    inference.alignedPairs pairs = [] := by
  rw [alignedPairs, List.filter_eq_nil_iff.mpr, List.map_nil, List.mergeSort_nil]
  intro p hp
  simp [hpairs p hp]

theorem classProposals_eq_nil (h : ∀ d ∈ inference.delta.commonClasses, d.matchedBy = .byName) :
    inference.classProposals = [] := by
  rw [classProposals, List.filter_eq_nil_iff.mpr, List.filterMap_nil]
  intro d hd
  simp [ClassDelta.isRenamedOrMoved, h d hd]

/-- Nothing is left to explain but changes of decorators: classes were neither renamed nor moved,
the removed and added operations are explained, there are no removed or added attributes, and the
variables of paired operations are the same. -/
structure IsSettled (inference : Inference) : Prop where
  matchedBy : ∀ d ∈ inference.delta.commonClasses, d.matchedBy = .byName
  removedOperations : ∀ o ∈ inference.delta.removedOperations,
    inference.isClaimed (.ofRemovedOperation o) = true
  addedOperations : ∀ o ∈ inference.delta.addedOperations,
    inference.isClaimed (.ofAddedOperation o) = true
  removedAttributes : inference.delta.removedAttributes = []
  addedAttributes : inference.delta.addedAttributes = []
  operationPairs : ∀ pair ∈ inference.operationPairs, pair.KeepsVariables

namespace IsSettled

variable {inference : Inference} (h : inference.IsSettled)

include h

theorem classRemovedAttributes (hd : d ∈ inference.delta.commonClasses) :
    d.removedAttributes = [] :=
  List.flatMap_eq_nil_iff.mp (List.append_eq_nil_iff.mp h.removedAttributes).2 d hd

theorem classAddedAttributes (hd : d ∈ inference.delta.commonClasses) : d.addedAttributes = [] :=
  List.flatMap_eq_nil_iff.mp (List.append_eq_nil_iff.mp h.addedAttributes).2 d hd

theorem classRemovedOperations (hd : d ∈ inference.delta.commonClasses) :
    ∀ o ∈ d.removedOperations, inference.isClaimed (.ofRemovedOperation o) = true := by
  intro o ho
  exact h.removedOperations o (List.mem_append_right _ (List.mem_flatMap.mpr ⟨d, hd, ho⟩))

theorem classAddedOperations (hd : d ∈ inference.delta.commonClasses) :
    ∀ o ∈ d.addedOperations, inference.isClaimed (.ofAddedOperation o) = true := by
  intro o ho
  exact h.addedOperations o (List.mem_append_right _ (List.mem_flatMap.mpr ⟨d, hd, ho⟩))

theorem flatMap_pairs {proposals : OperationPair → List Proposal}
    (hnone : ∀ pair : OperationPair, pair.KeepsVariables → proposals pair = []) :
    inference.operationPairs.flatMap proposals = [] := by
  rw [List.flatMap_eq_nil_iff]
  exact fun pair hpair => hnone pair (h.operationPairs pair hpair)

theorem renameOperationProposals : inference.renameOperationProposals = [] := by
  have hnone : inference.delta.commonClasses.flatMap
      (fun d => inference.alignedPairs (renamePairs d)) = [] := by
    rw [List.flatMap_eq_nil_iff]
    intro d hd
    apply alignedPairs_eq_nil
    intro p hp
    obtain ⟨b, hb, hp⟩ := List.mem_flatMap.mp hp
    obtain ⟨a, -, rfl⟩ := List.mem_map.mp hp
    exact h.classRemovedOperations hd b hb
  rw [Inference.renameOperationProposals, hnone]
  rfl

theorem extractInlineOperationProposals : inference.extractInlineOperationProposals = [] := by
  rw [Inference.extractInlineOperationProposals, List.flatMap_eq_nil_iff]
  intro pair _
  rw [List.append_eq_nil_iff, List.filterMap_eq_nil_iff, List.filterMap_eq_nil_iff]
  constructor
  · intro added hadded
    unfold addedBeside at hadded
    split at hadded
    · rename_i d hd
      have hclaimed := h.classAddedOperations (List.mem_of_find?_eq_some hd) added hadded
      simp [extraction?, hclaimed]
    · simp at hadded
  · intro removed hremoved
    unfold removedBeside at hremoved
    split at hremoved
    · rename_i d hd
      have hclaimed := h.classRemovedOperations (List.mem_of_find?_eq_some hd) removed hremoved
      simp [inlining?, hclaimed]
    · simp at hremoved

theorem moveAttributeProposals : inference.moveAttributeProposals = [] := by
  simp [Inference.moveAttributeProposals, h.removedAttributes]

theorem extractAttributeProposals : inference.extractAttributeProposals = [] := by
  rw [Inference.extractAttributeProposals, List.flatMap_eq_nil_iff]
  intro d hd
  rw [h.classAddedAttributes hd, List.filterMap_nil]

theorem replaceVariableProposals : inference.replaceVariableProposals = [] := by
  apply h.flatMap_pairs
  intro pair hpair
  rw [hpair.removedVariables, List.filterMap_nil]

theorem extractInlineVariableProposals : inference.extractInlineVariableProposals = [] := by
  apply h.flatMap_pairs
  intro pair hpair
  rw [hpair.addedVariables, hpair.removedVariables]
  rfl

theorem renameVariableProposals : inference.renameVariableProposals = [] := by
  apply h.flatMap_pairs
  intro pair hpair
  rw [hpair.renamedVariables, List.filterMap_nil]

theorem mergeSplitProposals : inference.mergeSplitProposals = [] := by
  rw [Inference.mergeSplitProposals, List.append_eq_nil_iff]
  constructor
  · rw [List.flatMap_eq_nil_iff]
    intro d hd
    simp [ofClassAttributes, h.classAddedAttributes hd, h.classRemovedAttributes hd]
  · apply h.flatMap_pairs
    intro pair hpair
    simp [ofPairVariables, hpair.removedVariables, hpair.addedVariables]

theorem hierarchyProposals : inference.hierarchyProposals = [] := by
  have hnone : (inference.delta.removedOperations.filter fun b =>
      !inference.isClaimed (.ofRemovedOperation b)) = [] := by
    rw [List.filter_eq_nil_iff]
    intro b hb
    simp [h.removedOperations b hb]
  simp [Inference.hierarchyProposals, h.removedAttributes, hnone]

theorem moveOperationProposals : inference.moveOperationProposals = [] := by
  have hnone : inference.alignedPairs inference.movePairs = [] := by
    apply alignedPairs_eq_nil
    intro p hp
    obtain ⟨b, hb, hp⟩ := List.mem_flatMap.mp hp
    obtain ⟨a, -, rfl⟩ := List.mem_map.mp hp
    exact h.removedOperations b hb
  rw [Inference.moveOperationProposals, hnone]
  rfl

theorem parameterizeProposals : inference.parameterizeProposals = [] := by
  apply h.flatMap_pairs
  intro pair hpair
  rw [hpair.removedVariables, List.filterMap_nil]

theorem addRemoveParameterProposals : inference.addRemoveParameterProposals = [] := by
  apply h.flatMap_pairs
  intro pair hpair
  simp [ofPairParameters, hpair.removedVariables, hpair.addedVariables]

theorem proposals_eq_nil {rule : Rule} (hrule : rule ≠ .decorators) :
    rule.proposals inference = [] := by
  cases rule with
  | classRenameMove => exact classProposals_eq_nil h.matchedBy
  | renameOperation => exact h.renameOperationProposals
  | extractInlineOperation => exact h.extractInlineOperationProposals
  | moveRenameAttribute => exact h.moveAttributeProposals
  | extractAttribute => exact h.extractAttributeProposals
  | replaceVariableWithAttribute => exact h.replaceVariableProposals
  | extractInlineVariable => exact h.extractInlineVariableProposals
  | renameVariable => exact h.renameVariableProposals
  | mergeSplit => exact h.mergeSplitProposals
  | pullUpPushDown => exact h.hierarchyProposals
  | moveOperation => exact h.moveOperationProposals
  | decorators => exact absurd rfl hrule
  | parameterizeVariable => exact h.parameterizeProposals
  | addRemoveParameter => exact h.addRemoveParameterProposals

end IsSettled

/-- Nothing was changed, and no refactoring taken so far pairs two operations. -/
structure IsQuiet (inference : Inference) : Prop where
  delta : inference.delta.IsUnchanged
  matched : ∀ e ∈ inference.emitted, e.proposal.matched = none

namespace IsQuiet

variable {inference : Inference} (h : inference.IsQuiet)

include h

theorem operationPairs_eq : inference.operationPairs = inference.delta.operationPairs := by
  rw [Inference.operationPairs, List.filterMap_eq_nil_iff.mpr h.matched, List.append_nil]

theorem isSettled : inference.IsSettled where
  matchedBy d hd := (h.delta.commonClasses d hd).matchedBy
  removedOperations := by simp [h.delta.removedOperations]
  addedOperations := by simp [h.delta.addedOperations]
  removedAttributes := h.delta.removedAttributes
  addedAttributes := h.delta.addedAttributes
  operationPairs pair hpair := by
    rw [h.operationPairs_eq] at hpair
    exact (h.delta.operationPairs pair hpair).keepsVariables

end IsQuiet

end Inference

end CodeEvolution
