import CodeEvolution.Proofs.Refactoring.Accounting
/-!
# What the rules consume

A table says which rules explain deltas of a sort, and one lemma for each rule compares its
proposals with the table. Twelve rules require all that they consume. Extractions and inlinings
also claim an operation, one that is not explained when the rule is tried. A member that is pulled
up or pushed down requires one of its two ends and claims the other; whether that is explained is
looked at only for the removed end of an operation.
-/
namespace CodeEvolution

variable {rule : Rule}

def DeltaKey.explainers : DeltaKey → List Rule
  | .removedClass _ | .addedClass _ => []
  | .classPair _ _ => [.classRenameMove]
  | .removedOperation _ | .addedOperation _ =>
    [.renameOperation, .extractInlineOperation, .pullUpPushDown, .moveOperation]
  | .removedAttribute _ _ => [.moveRenameAttribute, .mergeSplit, .pullUpPushDown]
  | .addedAttribute _ _ => [.moveRenameAttribute, .extractAttribute, .mergeSplit, .pullUpPushDown]
  | .beforeVariable _ _ _ =>
    [.extractAttribute, .replaceVariableWithAttribute, .extractInlineVariable, .renameVariable,
      .mergeSplit, .parameterizeVariable, .addRemoveParameter]
  | .afterVariable _ _ _ =>
    [.extractInlineVariable, .renameVariable, .mergeSplit, .parameterizeVariable,
      .addRemoveParameter]
  | .classDecorator _ _ | .methodDecorator _ _ => [.decorators]
  | .extraction _ _ | .inlining _ _ => [.extractInlineOperation]

/-- A proposal of a rule that requires all it consumes. -/
def Proposal.IsPlain (rule : Rule) (proposal : Proposal) : Prop :=
  proposal.alsoClaimed = [] ∧ ∀ key ∈ proposal.required, rule ∈ key.explainers

/-- A member of a hierarchy went up or down, and the end that the proposal does not require is
claimed whether it is explained or not. -/
inductive Proposal.ClaimsUnasked (proposal : Proposal) : DeltaKey → Prop
  | pulledUpAttribute {before after : Attribute}
    (claimed : proposal.alsoClaimed = [.ofAddedAttribute after])
    (told : proposal.refactoring = .ofAttribute .pullUp (.of before) (.of after)) :
    ClaimsUnasked proposal (.ofAddedAttribute after)
  | pushedDownAttribute {before after : Attribute}
    (claimed : proposal.alsoClaimed = [.ofRemovedAttribute before])
    (told : proposal.refactoring = .ofAttribute .pushDown (.of before) (.of after)) :
    ClaimsUnasked proposal (.ofRemovedAttribute before)
  | pulledUpOperation {before after : Operation}
    (claimed : proposal.alsoClaimed = [.ofAddedOperation after])
    (told : proposal.refactoring = .ofOperation .pullUp (.of before) (.of after)) :
    ClaimsUnasked proposal (.ofAddedOperation after)

def Proposal.IsClaiming (inference : Inference) (rule : Rule) (proposal : Proposal) : Prop :=
  ∃ own claimed, proposal.required = [own] ∧ proposal.alsoClaimed = [claimed] ∧
    rule ∈ own.explainers ∧ rule ∈ claimed.explainers ∧
    (inference.isClaimed claimed = false ∨ rule = .pullUpPushDown ∧ proposal.ClaimsUnasked claimed)

theorem OperationPair.variableKeys_explainers
    (hrule : rule ∈ [.extractInlineVariable, .renameVariable, .mergeSplit, .parameterizeVariable,
      .addRemoveParameter])
    (pair : OperationPair) (before after : List Variable) :
    ∀ key ∈ pair.variableKeys before after, rule ∈ key.explainers := by
  intro key hkey
  rcases List.mem_append.mp hkey with hkey | hkey
  · obtain ⟨v, -, rfl⟩ := List.mem_map.mp hkey
    exact List.mem_cons_of_mem _ (List.mem_cons_of_mem _ hrule)
  · obtain ⟨w, -, rfl⟩ := List.mem_map.mp hkey
    exact hrule

namespace Inference

section Plain

variable {inference : Inference} {proposal : Proposal}

theorem classProposals_isPlain (h : proposal ∈ inference.classProposals) :
    proposal.IsPlain .classRenameMove := by
  obtain ⟨d, -, hd⟩ := List.mem_filterMap.mp h
  obtain ⟨change, -, rfl⟩ := Option.map_eq_some_iff.mp hd
  exact ⟨rfl, by simp [DeltaKey.explainers]⟩

theorem ofOperationPair_isPlain (hrule : rule = .renameOperation ∨ rule = .moveOperation)
    (change : OperationChange) (pair : OperationPair) :
    (ofOperationPair change pair).IsPlain rule := by
  refine ⟨rfl, ?_⟩
  simp only [ofOperationPair, List.mem_cons, List.not_mem_nil, or_false]
  rintro key (rfl | rfl) <;> rcases hrule with rfl | rfl <;>
    simp [DeltaKey.ofRemovedOperation, DeltaKey.ofAddedOperation, DeltaKey.explainers]

theorem renameOperationProposals_isPlain (h : proposal ∈ inference.renameOperationProposals) :
    proposal.IsPlain .renameOperation := by
  obtain ⟨pair, -, rfl⟩ := List.mem_map.mp h
  exact ofOperationPair_isPlain (Or.inl rfl) _ pair

theorem moveOperationProposals_isPlain (h : proposal ∈ inference.moveOperationProposals) :
    proposal.IsPlain .moveOperation := by
  obtain ⟨pair, -, rfl⟩ := List.mem_map.mp h
  exact ofOperationPair_isPlain (Or.inr rfl) _ pair

theorem moveAttributeProposals_isPlain (h : proposal ∈ inference.moveAttributeProposals) :
    proposal.IsPlain .moveRenameAttribute := by
  rcases List.mem_append.mp h with h | h
  all_goals
    obtain ⟨p, -, hp⟩ := List.mem_filterMap.mp h
    obtain ⟨change, -, rfl⟩ := Option.map_eq_some_iff.mp hp
    exact ⟨rfl, by
      simp [DeltaKey.ofRemovedAttribute, DeltaKey.ofAddedAttribute, DeltaKey.explainers]⟩

theorem extractAttributeProposals_isPlain (h : proposal ∈ inference.extractAttributeProposals) :
    proposal.IsPlain .extractAttribute := by
  obtain ⟨d, -, h⟩ := List.mem_flatMap.mp h
  obtain ⟨a, -, ha⟩ := List.mem_filterMap.mp h
  unfold extractedAttribute? at ha
  split at ha
  · simp at ha
  · obtain ⟨-, hproposal⟩ := Option.ite_none_left_eq_some.mp ha
    obtain rfl := Option.some.inj hproposal
    refine ⟨rfl, ?_⟩
    intro key hkey
    rcases List.mem_cons.mp hkey with rfl | hkey
    · simp [DeltaKey.ofAddedAttribute, DeltaKey.explainers]
    · obtain ⟨p, -, rfl⟩ := List.mem_map.mp hkey
      simp [DeltaKey.ofBeforeVariable, DeltaKey.explainers]

theorem replaceVariableProposals_isPlain (h : proposal ∈ inference.replaceVariableProposals) :
    proposal.IsPlain .replaceVariableWithAttribute := by
  obtain ⟨pair, -, h⟩ := List.mem_flatMap.mp h
  obtain ⟨v, -, hv⟩ := List.mem_filterMap.mp h
  obtain ⟨-, hv⟩ := Option.ite_none_right_eq_some.mp hv
  obtain ⟨a, -, rfl⟩ := Option.map_eq_some_iff.mp hv
  refine ⟨rfl, ?_⟩
  simp [OperationPair.variableKeys, DeltaKey.ofBeforeVariable, DeltaKey.explainers]

theorem extractInlineVariableProposals_isPlain
    (h : proposal ∈ inference.extractInlineVariableProposals) :
    proposal.IsPlain .extractInlineVariable := by
  obtain ⟨pair, -, h⟩ := List.mem_flatMap.mp h
  rcases List.mem_append.mp h with h | h
  · obtain ⟨v, -, hv⟩ := List.mem_filterMap.mp h
    obtain ⟨-, hv⟩ := Option.ite_none_right_eq_some.mp hv
    obtain ⟨expression, -, rfl⟩ := Option.map_eq_some_iff.mp hv
    exact ⟨rfl, pair.variableKeys_explainers (by simp) _ _⟩
  · obtain ⟨v, -, hv⟩ := List.mem_filterMap.mp h
    obtain ⟨-, hv⟩ := Option.ite_none_right_eq_some.mp hv
    obtain ⟨expression, -, rfl⟩ := Option.map_eq_some_iff.mp hv
    exact ⟨rfl, pair.variableKeys_explainers (by simp) _ _⟩

theorem renameVariableProposals_isPlain (h : proposal ∈ inference.renameVariableProposals) :
    proposal.IsPlain .renameVariable := by
  obtain ⟨pair, -, h⟩ := List.mem_flatMap.mp h
  obtain ⟨p, -, hp⟩ := List.mem_filterMap.mp h
  obtain ⟨sort, -, rfl⟩ := Option.map_eq_some_iff.mp hp
  exact ⟨rfl, pair.variableKeys_explainers (by simp) _ _⟩

theorem ofClassAttributes_isPlain {d : ClassDelta} (h : proposal ∈ inference.ofClassAttributes d) :
    proposal.IsPlain .mergeSplit := by
  have hremoved : ∀ a : Attribute, .mergeSplit ∈ (DeltaKey.ofRemovedAttribute a).explainers := by
    simp [DeltaKey.ofRemovedAttribute, DeltaKey.explainers]
  have hadded : ∀ a : Attribute, .mergeSplit ∈ (DeltaKey.ofAddedAttribute a).explainers := by
    simp [DeltaKey.ofAddedAttribute, DeltaKey.explainers]
  rcases List.mem_append.mp h with h | h
  · obtain ⟨a, -, ha⟩ := List.mem_filterMap.mp h
    obtain ⟨-, hproposal⟩ := Option.ite_none_right_eq_some.mp ha
    obtain rfl := Option.some.inj hproposal
    refine ⟨rfl, ?_⟩
    intro key hkey
    rcases List.mem_append.mp hkey with hkey | hkey
    · obtain ⟨b, -, rfl⟩ := List.mem_map.mp hkey
      exact hremoved b
    · obtain rfl := List.mem_singleton.mp hkey
      exact hadded a
  · obtain ⟨b, -, hb⟩ := List.mem_filterMap.mp h
    obtain ⟨-, hproposal⟩ := Option.ite_none_right_eq_some.mp hb
    obtain rfl := Option.some.inj hproposal
    refine ⟨rfl, ?_⟩
    intro key hkey
    rcases List.mem_cons.mp hkey with rfl | hkey
    · exact hremoved b
    · obtain ⟨a, -, rfl⟩ := List.mem_map.mp hkey
      exact hadded a

theorem ofPairVariables_isPlain {pair : OperationPair} {sort : VariableSort}
    (h : proposal ∈ ofPairVariables pair sort) : proposal.IsPlain .mergeSplit := by
  rcases List.mem_append.mp h with h | h
  · obtain ⟨w, -, hw⟩ := List.mem_filterMap.mp h
    obtain ⟨-, hproposal⟩ := Option.ite_none_right_eq_some.mp hw
    obtain rfl := Option.some.inj hproposal
    exact ⟨rfl, pair.variableKeys_explainers (by simp) _ _⟩
  · obtain ⟨v, -, hv⟩ := List.mem_filterMap.mp h
    obtain ⟨-, hproposal⟩ := Option.ite_none_right_eq_some.mp hv
    obtain rfl := Option.some.inj hproposal
    exact ⟨rfl, pair.variableKeys_explainers (by simp) _ _⟩

theorem mergeSplitProposals_isPlain (h : proposal ∈ inference.mergeSplitProposals) :
    proposal.IsPlain .mergeSplit := by
  rcases List.mem_append.mp h with h | h
  · obtain ⟨d, -, h⟩ := List.mem_flatMap.mp h
    exact ofClassAttributes_isPlain h
  · obtain ⟨pair, -, h⟩ := List.mem_flatMap.mp h
    rcases List.mem_append.mp h with h | h
    · exact ofPairVariables_isPlain h
    · exact ofPairVariables_isPlain h

theorem decoratorProposals_isPlain (h : proposal ∈ inference.decoratorProposals) :
    proposal.IsPlain .decorators := by
  rcases List.mem_append.mp h with h | h
  · obtain ⟨d, -, h⟩ := List.mem_flatMap.mp h
    obtain ⟨change, -, rfl⟩ := List.mem_map.mp h
    exact ⟨rfl, by simp [DeltaKey.explainers]⟩
  · obtain ⟨pair, -, h⟩ := List.mem_flatMap.mp h
    obtain ⟨change, -, rfl⟩ := List.mem_map.mp h
    exact ⟨rfl, by simp [DeltaKey.explainers]⟩

theorem parameterizeProposals_isPlain (h : proposal ∈ inference.parameterizeProposals) :
    proposal.IsPlain .parameterizeVariable := by
  obtain ⟨pair, -, h⟩ := List.mem_flatMap.mp h
  obtain ⟨v, -, hv⟩ := List.mem_filterMap.mp h
  obtain ⟨-, hv⟩ := Option.ite_none_right_eq_some.mp hv
  obtain ⟨w, -, rfl⟩ := Option.map_eq_some_iff.mp hv
  exact ⟨rfl, pair.variableKeys_explainers (by simp) _ _⟩

theorem addRemoveParameterProposals_isPlain
    (h : proposal ∈ inference.addRemoveParameterProposals) :
    proposal.IsPlain .addRemoveParameter := by
  obtain ⟨pair, -, h⟩ := List.mem_flatMap.mp h
  rcases List.mem_append.mp h with h | h
  · obtain ⟨v, -, rfl⟩ := List.mem_map.mp h
    exact ⟨rfl, pair.variableKeys_explainers (by simp) _ _⟩
  · obtain ⟨w, -, rfl⟩ := List.mem_map.mp h
    exact ⟨rfl, pair.variableKeys_explainers (by simp) _ _⟩

end Plain

section Claiming

variable {inference : Inference} {proposal : Proposal}

theorem extractInlineOperationProposals_isClaiming
    (h : proposal ∈ inference.extractInlineOperationProposals) :
    proposal.IsClaiming inference .extractInlineOperation := by
  obtain ⟨pair, -, h⟩ := List.mem_flatMap.mp h
  rcases List.mem_append.mp h with h | h
  · obtain ⟨added, -, hadded⟩ := List.mem_filterMap.mp h
    unfold extraction? at hadded
    split at hadded
    · simp at hadded
    · rename_i hfree
      rw [Bool.or_eq_true, not_or, Bool.not_eq_true] at hfree
      split at hadded
      · simp at hadded
      · obtain ⟨-, hproposal⟩ := Option.ite_none_right_eq_some.mp hadded
        obtain rfl := Option.some.inj hproposal
        refine ⟨_, _, rfl, rfl, ?_, ?_, Or.inl hfree.1⟩
        · simp [DeltaKey.explainers]
        · simp [DeltaKey.ofAddedOperation, DeltaKey.explainers]
  · obtain ⟨removed, -, hremoved⟩ := List.mem_filterMap.mp h
    unfold inlining? at hremoved
    split at hremoved
    · simp at hremoved
    · rename_i hfree
      rw [Bool.or_eq_true, not_or, Bool.not_eq_true] at hfree
      split at hremoved
      · simp at hremoved
      · obtain ⟨-, hproposal⟩ := Option.ite_none_right_eq_some.mp hremoved
        obtain rfl := Option.some.inj hproposal
        refine ⟨_, _, rfl, rfl, ?_, ?_, Or.inl hfree.1⟩
        · simp [DeltaKey.explainers]
        · simp [DeltaKey.ofRemovedOperation, DeltaKey.explainers]

theorem hierarchyAttribute?_isClaiming {before after : Attribute}
    (h : inference.hierarchyAttribute? before after = some proposal) :
    proposal.IsClaiming inference .pullUpPushDown := by
  obtain ⟨-, h⟩ := Option.ite_none_right_eq_some.mp h
  obtain ⟨direction, -, rfl⟩ := Option.map_eq_some_iff.mp h
  cases direction with
  | up =>
    refine ⟨_, _, rfl, rfl, ?_, ?_, Or.inr ⟨rfl, .pulledUpAttribute rfl rfl⟩⟩ <;>
      simp [DeltaKey.ofRemovedAttribute, DeltaKey.ofAddedAttribute, DeltaKey.explainers]
  | down =>
    refine ⟨_, _, rfl, rfl, ?_, ?_, Or.inr ⟨rfl, .pushedDownAttribute rfl rfl⟩⟩ <;>
      simp [DeltaKey.ofRemovedAttribute, DeltaKey.ofAddedAttribute, DeltaKey.explainers]

theorem hierarchyOperation?_isClaiming {before after : Operation}
    (hfree : inference.isClaimed (.ofRemovedOperation before) = false)
    (h : inference.hierarchyOperation? before after = some proposal) :
    proposal.IsClaiming inference .pullUpPushDown := by
  obtain ⟨-, h⟩ := Option.ite_none_right_eq_some.mp h
  split at h
  · simp at h
  · rename_i direction _
    obtain ⟨-, h⟩ := Option.ite_none_right_eq_some.mp h
    obtain rfl := Option.some.inj h
    cases direction with
    | up =>
      refine ⟨_, _, rfl, rfl, ?_, ?_, Or.inr ⟨rfl, .pulledUpOperation rfl rfl⟩⟩ <;>
        simp [DeltaKey.ofRemovedOperation, DeltaKey.ofAddedOperation, DeltaKey.explainers]
    | down =>
      refine ⟨_, _, rfl, rfl, ?_, ?_, Or.inl hfree⟩ <;>
        simp [DeltaKey.ofRemovedOperation, DeltaKey.ofAddedOperation, DeltaKey.explainers]

theorem hierarchyProposals_isClaiming (h : proposal ∈ inference.hierarchyProposals) :
    proposal.IsClaiming inference .pullUpPushDown := by
  rcases List.mem_append.mp h with h | h
  · obtain ⟨before, -, h⟩ := List.mem_flatMap.mp h
    obtain ⟨after, -, h⟩ := List.mem_filterMap.mp h
    exact hierarchyAttribute?_isClaiming h
  · obtain ⟨before, hbefore, h⟩ := List.mem_flatMap.mp h
    obtain ⟨after, -, h⟩ := List.mem_filterMap.mp h
    have hfree := (List.mem_filter.mp hbefore).2
    rw [Bool.not_eq_true'] at hfree
    exact hierarchyOperation?_isClaiming hfree h

end Claiming

end Inference

namespace Rule

variable {rule : Rule} {inference : Inference} {proposal : Proposal}

theorem isPlain_of_ne (h : proposal ∈ rule.proposals inference)
    (hextract : rule ≠ .extractInlineOperation) (hpull : rule ≠ .pullUpPushDown) :
    proposal.IsPlain rule := by
  cases rule with
  | classRenameMove => exact Inference.classProposals_isPlain h
  | renameOperation => exact Inference.renameOperationProposals_isPlain h
  | extractInlineOperation => exact absurd rfl hextract
  | moveRenameAttribute => exact Inference.moveAttributeProposals_isPlain h
  | extractAttribute => exact Inference.extractAttributeProposals_isPlain h
  | replaceVariableWithAttribute => exact Inference.replaceVariableProposals_isPlain h
  | extractInlineVariable => exact Inference.extractInlineVariableProposals_isPlain h
  | renameVariable => exact Inference.renameVariableProposals_isPlain h
  | mergeSplit => exact Inference.mergeSplitProposals_isPlain h
  | pullUpPushDown => exact absurd rfl hpull
  | moveOperation => exact Inference.moveOperationProposals_isPlain h
  | decorators => exact Inference.decoratorProposals_isPlain h
  | parameterizeVariable => exact Inference.parameterizeProposals_isPlain h
  | addRemoveParameter => exact Inference.addRemoveParameterProposals_isPlain h

theorem isPlain_or_isClaiming (h : proposal ∈ rule.proposals inference) :
    proposal.IsPlain rule ∨ proposal.IsClaiming inference rule := by
  by_cases hextract : rule = .extractInlineOperation
  · subst hextract
    exact Or.inr (Inference.extractInlineOperationProposals_isClaiming h)
  · by_cases hpull : rule = .pullUpPushDown
    · subst hpull
      exact Or.inr (Inference.hierarchyProposals_isClaiming h)
    · exact Or.inl (isPlain_of_ne h hextract hpull)

theorem mem_explainers (h : proposal ∈ rule.proposals inference) {key : DeltaKey}
    (hkey : proposal.Consumes key) : rule ∈ key.explainers := by
  rcases isPlain_or_isClaiming h with ⟨hnone, hrequired⟩ | ⟨own, claimed, hown, hclaimed, ho, hc, -⟩
  · rcases hkey with hkey | hkey
    · exact hrequired key hkey
    · simp [hnone] at hkey
  · rcases hkey with hkey | hkey
    · obtain rfl : key = own := by simpa [hown] using hkey
      exact ho
    · obtain rfl : key = claimed := by simpa [hclaimed] using hkey
      exact hc

end Rule

end CodeEvolution
