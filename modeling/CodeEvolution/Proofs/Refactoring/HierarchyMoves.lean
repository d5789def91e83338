import CodeEvolution.Proofs.Refactoring.FirstMatch
import CodeEvolution.Proofs.Refactoring.Tellers
/-!
# Moves and hierarchies

A member that goes to a supertype or to a subtype was pulled up or pushed down, not moved. For
attributes the rule for moves leaves out classes of one hierarchy. The rule for moved operations
does not look at hierarchies at all. It asks that both ends of a pair are unexplained, though, and
the rule for hierarchies accepts every pair of one name that the other would accept: after it has
been tried, one end of such a pair is explained.
-/
namespace CodeEvolution

variable {before after : Attribute} {change : AttributeChange} {source target : AttributeRef}

/-- Neither of two classes inherits from the other in the second model; the first class goes by
its name in the first model. -/
structure ModelDelta.AreUnrelated (delta : ModelDelta) (source target : String) : Prop where
  up : delta.after.isSubtype (delta.afterName source) target = false
  down : delta.after.isSubtype target (delta.afterName source) = false

namespace Inference

variable {inference : Inference} {proposal : Proposal}

theorem areUnrelated_of_mayBeOne (h : inference.mayBeOne before after = true)
    (hclass : inference.delta.afterName before.className ≠ after.className) :
    inference.delta.AreUnrelated before.className after.className := by
  simp only [mayBeOne, Bool.and_eq_true, Bool.or_eq_true, beq_iff_eq] at h
  have hrelated := h.2.resolve_left hclass.symm
  simp only [related, Bool.not_or, Bool.and_eq_true, Bool.not_eq_true'] at hrelated
  exact ⟨hrelated.1, hrelated.2⟩

theorem afterName_ne_of_mayBeOne (h : inference.mayBeOne before after = true)
    (hname : before.name = after.name) :
    inference.delta.afterName before.className ≠ after.className := by
  intro hclass
  simp [mayBeOne, hname, hclass] at h

theorem moveAttributeProposals_areUnrelated (h : proposal ∈ inference.moveAttributeProposals)
    (hchange : change ∈ [.move, .moveAndRename])
    (htold : proposal.refactoring = .ofAttribute change source target) :
    inference.delta.AreUnrelated source.className target.className := by
  obtain ⟨before, after, told, hone, hcases, hrefactoring⟩ := mem_moveAttributeProposals h
  obtain ⟨rfl, rfl, rfl⟩ : told = change ∧ AttributeRef.of before = source ∧
      AttributeRef.of after = target := by
    simpa using hrefactoring.symm.trans htold
  obtain ⟨-, hname⟩ | ⟨rfl, -⟩ | ⟨-, hclass⟩ := attributeChange?_cases hcases
  · exact areUnrelated_of_mayBeOne hone (afterName_ne_of_mayBeOne hone hname)
  · simp at hchange
  · exact areUnrelated_of_mayBeOne hone hclass

/-- What it takes for two operations to be aligned by the rules for renamed and moved ones. -/
structure IsFreePair (inference : Inference) (before after : Operation) : Prop where
  parameters : before.hasSameParameters after = true
  removed : inference.isClaimed (.ofRemovedOperation before) = false
  added : inference.isClaimed (.ofAddedOperation after) = false

theorem mem_alignedPairs {pairs : List (Operation × Operation)} {pair : OperationPair} :
    pair ∈ inference.alignedPairs pairs ↔
      ∃ before after, (before, after) ∈ pairs ∧ inference.IsFreePair before after ∧
        pair = inference.pairUp before after := by
  simp only [alignedPairs, List.mem_mergeSort, List.mem_map, List.mem_filter, Prod.exists,
    Bool.and_eq_true, Bool.not_eq_true']
  constructor
  · rintro ⟨before, after, ⟨hmem, ⟨hsame, hremoved⟩, hadded⟩, rfl⟩
    exact ⟨before, after, hmem, ⟨hsame, hremoved, hadded⟩, rfl⟩
  · rintro ⟨before, after, hmem, hfree, rfl⟩
    exact ⟨before, after, ⟨hmem, ⟨hfree.parameters, hfree.removed⟩, hfree.added⟩, rfl⟩

theorem mem_moveOperationProposals (h : proposal ∈ inference.moveOperationProposals) :
    ∃ before ∈ inference.delta.removedOperations, ∃ after ∈ inference.delta.addedOperations,
      after.className ≠ inference.delta.afterName before.className ∧
      inference.IsFreePair before after ∧
      (inference.pairUp before after).alignment.ratio.lt
        inference.config.operationMappingThreshold = false ∧
      proposal.refactoring = .ofOperation
        (if before.name = after.name then .move else .moveAndRename) (.of before) (.of after) := by
  obtain ⟨pair, hpair, rfl⟩ := List.mem_map.mp h
  obtain ⟨haligned, hratio⟩ := List.mem_filter.mp hpair
  obtain ⟨before, after, hmem, hfree, rfl⟩ := mem_alignedPairs.mp haligned
  obtain ⟨b, hb, hmem⟩ := List.mem_flatMap.mp hmem
  obtain ⟨a, ha, heq⟩ := List.mem_map.mp hmem
  obtain ⟨rfl, rfl⟩ := Prod.mk.inj heq
  obtain ⟨hadded, hclass⟩ := List.mem_filter.mp ha
  exact ⟨b, hb, a, hadded, by simpa using hclass, hfree, by simpa using hratio, rfl⟩

theorem direction?_isSome {source target : String}
    (hclass : target ≠ inference.delta.afterName source)
    (hrelated : ¬inference.delta.AreUnrelated source target) :
    ∃ direction, inference.direction? source target = some direction := by
  simp only [direction?, if_neg hclass.symm]
  by_cases hup : inference.delta.after.isSubtype (inference.delta.afterName source) target = true
  · exact ⟨.up, by simp [hup]⟩
  · by_cases hdown :
        inference.delta.after.isSubtype target (inference.delta.afterName source) = true
    · exact ⟨.down, by simp [hup, hdown]⟩
    · exact absurd ⟨Bool.eq_false_of_not_eq_true hup, Bool.eq_false_of_not_eq_true hdown⟩ hrelated

/-- The rule for hierarchies proposes two operations of one name that the rule for moves would
accept, and its proposal is about their two deltas. -/
theorem hierarchyOperation?_of_move (inference : Inference) {before after : Operation}
    (hname : before.name = after.name) (hparameters : before.hasSameParameters after = true)
    (hratio : (inference.pairUp before after).alignment.ratio.lt
      inference.config.operationMappingThreshold = false)
    {direction : Direction}
    (hdirection : inference.direction? before.className after.className = some direction) :
    ∃ proposal, inference.hierarchyOperation? before after = some proposal ∧
      ∀ key, proposal.Consumes key ↔
        key = .ofRemovedOperation before ∨ key = .ofAddedOperation after := by
  have halike : inference.bodiesAlike (inference.pairUp before after) = true := by
    simp [bodiesAlike, hratio]
  simp only [hierarchyOperation?, hname, hparameters, hdirection, halike, beq_self_eq_true,
    Bool.and_self, if_true]
  refine ⟨_, rfl, fun key => ?_⟩
  cases direction with
  | up => simp [Proposal.Consumes, requiredKeys, claimedKeys]
  | down => simp [Proposal.Consumes, requiredKeys, claimedKeys, or_comm]

theorem isClaimed_eq_false_of_isPrefix {delta : ModelDelta} {config : Config}
    {first all : List Emission} (hstart : first <+: all) {key : DeltaKey}
    (h : isClaimed { delta, config, emitted := all } key = false) :
    isClaimed { delta, config, emitted := first } key = false := by
  rw [← Bool.not_eq_true, isClaimed_iff] at h ⊢
  rintro ⟨e, he, hconsumes⟩
  exact h ⟨e, hstart.subset he, hconsumes⟩

section Run

variable {config : Config} {delta : ModelDelta}

theorem run_teller {e : Emission} (he : e ∈ (run config delta).emitted) :
    e.proposal.refactoring.teller = e.rule := by
  obtain ⟨before, hproposed⟩ :=
    ((run_account config delta).proposed e he).resolve_left List.not_mem_nil
  exact Rule.proposals_teller hproposed

theorem run_moveAttribute_areUnrelated (hchange : change ∈ [.move, .moveAndRename])
    (htold : .ofAttribute change source target ∈ (run config delta).refactorings) :
    delta.AreUnrelated source.className target.className := by
  obtain ⟨e, he, htold⟩ := List.mem_map.mp htold
  obtain ⟨before, hproposed⟩ :=
    ((run_account config delta).proposed e he).resolve_left List.not_mem_nil
  have hrule : e.rule = .moveRenameAttribute := by
    rw [← run_teller he, htold]
    simp only [List.mem_cons, List.not_mem_nil, or_false] at hchange
    obtain rfl | rfl := hchange <;> rfl
  rw [hrule] at hproposed
  exact moveAttributeProposals_areUnrelated hproposed hchange htold

theorem run_moveOperation_areUnrelated (hnodup : config.ruleOrder.Nodup)
    (hprecedes : Rule.Precedes config.ruleOrder .pullUpPushDown .moveOperation)
    {source target : OperationRef}
    (htold : .ofOperation .move source target ∈ (run config delta).refactorings) :
    delta.AreUnrelated source.className target.className := by
  obtain ⟨e, he, htold⟩ := List.mem_map.mp htold
  have hrule : e.rule = .moveOperation := by
    rw [← run_teller he, htold]
    rfl
  obtain ⟨earlier, later, taken, horder, haccount, hproposed, -, -⟩ := run_earlier hnodup he
  rw [hrule] at horder hproposed
  rw [horder] at hnodup hprecedes
  obtain ⟨before, hbefore, after, hafter, hclass, hfree, hratio, hrefactoring⟩ :=
    mem_moveOperationProposals hproposed
  obtain ⟨hname, rfl, rfl⟩ : before.name = after.name ∧ OperationRef.of before = source ∧
      OperationRef.of after = target := by
    rw [htold] at hrefactoring
    by_cases hname : before.name = after.name
    · simpa [hname, eq_comm] using hrefactoring
    · simp [hname] at hrefactoring
  by_contra hrelated
  -- Some earlier time the rule for hierarchies was tried, and this pair was among its proposals.
  obtain ⟨sofar, hstart, hsettles⟩ := haccount.settles (hprecedes.mem_earlier hnodup)
  obtain ⟨direction, hdirection⟩ := direction?_isSome hclass hrelated
  obtain ⟨proposal, hproposal, hconsumes⟩ := hierarchyOperation?_of_move
    { delta, config, emitted := sofar } hname hfree.parameters hratio hdirection
  have hmem : proposal ∈ hierarchyProposals { delta, config, emitted := sofar } := by
    refine List.mem_append_right _ (List.mem_flatMap.mpr ⟨before, ?_, ?_⟩)
    · exact List.mem_filter.mpr ⟨hbefore, by
        simp [isClaimed_eq_false_of_isPrefix hstart hfree.removed]⟩
    · exact List.mem_filterMap.mpr ⟨after, hafter, hproposal⟩
  -- Taken or not, it leaves one of the two ends explained.
  have hexplained : ∃ key, proposal.Consumes key ∧ key ∈ consumed taken := by
    rcases hsettles proposal hmem with htaken | ⟨key, hkey, hexplained⟩
    · have hremoved := (hconsumes (.ofRemovedOperation before)).mpr (Or.inl rfl)
      exact ⟨_, hremoved, _, htaken, hremoved⟩
    · exact ⟨key, Or.inl hkey, hexplained⟩
  obtain ⟨key, hkey, hexplained⟩ := hexplained
  obtain rfl | rfl := (hconsumes key).mp hkey
  · exact Bool.eq_false_iff.mp hfree.removed (isClaimed_iff.mpr hexplained)
  · exact Bool.eq_false_iff.mp hfree.added (isClaimed_iff.mpr hexplained)

end Run

/-- In an order without repetitions, no attribute is told to have moved between two classes of
one hierarchy; nor is an operation, under its name, if the rule for hierarchies comes before the
rule for moved operations. -/
theorem run_moves_areUnrelated {config : Config} (hnodup : config.ruleOrder.Nodup)
    (delta : ModelDelta) :
    (∀ change ∈ [AttributeChange.move, .moveAndRename], ∀ source target,
        .ofAttribute change source target ∈ (run config delta).refactorings →
          delta.AreUnrelated source.className target.className) ∧
      (Rule.Precedes config.ruleOrder .pullUpPushDown .moveOperation → ∀ source target,
        .ofOperation .move source target ∈ (run config delta).refactorings →
          delta.AreUnrelated source.className target.className) :=
  ⟨fun _ hchange _ _ htold => run_moveAttribute_areUnrelated hchange htold,
    fun hprecedes _ _ htold => run_moveOperation_areUnrelated hnodup hprecedes htold⟩

end Inference

namespace MovesBesideHierarchy

open Samples (attributeOf classOf operationOf parameterOf)

def deltaOf (before after : ModelClass) : ClassDelta where
  before
  after
  matchedBy := .byName
  removedOperations := before.operations
  addedOperations := after.operations
  commonOperations := []
  removedAttributes := before.attributes
  addedAttributes := after.attributes
  commonAttributes := []

/-- The operation `f` goes from a class to its supertype, `g` to the class from one beside it, and
the attribute `x` the other way. -/
def delta : ModelDelta :=
  let before := [classOf "P" [] [] [],
    classOf "C" ["P"] [attributeOf "m.C" "x"]
      [operationOf "m.C" "f" [parameterOf "a"]],
    classOf "D" [] [] [operationOf "m.D" "g" []]]
  let after := [classOf "P" [] [] [operationOf "m.P" "f" [parameterOf "a"]],
    classOf "C" ["P"] [] [operationOf "m.C" "g" []],
    classOf "D" [] [attributeOf "m.D" "x"] []]
  { before := { classes := before }
    after := { classes := after }
    removedClasses := []
    addedClasses := []
    commonClasses := List.zipWith deltaOf before after }

theorem run_delta_refactorings :
    (Inference.run {} delta).refactorings =
      [.ofAttribute .move ⟨"m.C", "x", "_"⟩ ⟨"m.D", "x", "_"⟩,
        .ofOperation .pullUp ⟨"m.C", "f", "f(a)", "m.py", 1⟩ ⟨"m.P", "f", "f(a)", "m.py", 1⟩,
        .ofOperation .move ⟨"m.D", "g", "g()", "m.py", 1⟩ ⟨"m.C", "g", "g()", "m.py", 1⟩] := by
  decide +kernel

end MovesBesideHierarchy

/-- Of two operations that change their class one is told to be pulled up, and the classes of the
other are unrelated, as are those of the attribute. -/
theorem Inference.run_moves_areUnrelated_beside :
    MovesBesideHierarchy.delta.after.isSubtype "m.C" "m.P" = true ∧
      MovesBesideHierarchy.delta.AreUnrelated "m.C" "m.D" ∧
      MovesBesideHierarchy.delta.AreUnrelated "m.D" "m.C" := by
  obtain ⟨hattributes, hoperations⟩ :=
    @Inference.run_moves_areUnrelated {} (by decide) MovesBesideHierarchy.delta
  rw [MovesBesideHierarchy.run_delta_refactorings] at hattributes hoperations
  refine ⟨by decide +kernel, ?_, ?_⟩
  · exact hattributes .move (by decide) ⟨"m.C", "x", "_"⟩ ⟨"m.D", "x", "_"⟩ (by simp)
  · exact hoperations (by decide) ⟨"m.D", "g", "g()", "m.py", 1⟩ ⟨"m.C", "g", "g()", "m.py", 1⟩
      (by simp)

end CodeEvolution
