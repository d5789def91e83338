import CodeEvolution.Refactoring.Run
/-!
# Which rule tells what

Every sort of refactoring is told by one rule only, so the rule of an emission can be read off
what it tells.
-/
namespace CodeEvolution

def Refactoring.teller : Refactoring → Rule
  | .ofClass _ _ _ => .classRenameMove
  | .ofOperation .rename _ _ => .renameOperation
  | .ofOperation .pullUp _ _ | .ofOperation .pushDown _ _ => .pullUpPushDown
  | .ofOperation .move _ _ | .ofOperation .moveAndRename _ _ => .moveOperation
  | .extractOperation _ _ _ | .inlineOperation _ _ _ => .extractInlineOperation
  | .ofAttribute .move _ _ | .ofAttribute .rename _ _ | .ofAttribute .moveAndRename _ _ =>
    .moveRenameAttribute
  | .ofAttribute .pullUp _ _ | .ofAttribute .pushDown _ _ => .pullUpPushDown
  | .extractAttribute _ _ => .extractAttribute
  | .replaceVariableWithAttribute _ _ => .replaceVariableWithAttribute
  | .extractVariable _ _ | .inlineVariable _ _ => .extractInlineVariable
  | .renameVariable _ _ _ => .renameVariable
  | .mergeAttribute _ _ | .splitAttribute _ _ | .mergeVariable _ _ _ | .splitVariable _ _ _ =>
    .mergeSplit
  | .ofClassDecorator _ _ | .ofMethodDecorator _ _ => .decorators
  | .parameterizeVariable _ _ => .parameterizeVariable
  | .addParameter _ _ _ | .removeParameter _ _ _ => .addRemoveParameter

namespace Inference

variable {inference : Inference} {proposal : Proposal}

theorem attributeChange?_cases {before after : Attribute} {change : AttributeChange}
    (h : inference.attributeChange? before after = some change) :
    (change = .move ∧ before.name = after.name) ∨
      (change = .rename ∧ inference.delta.afterName before.className = after.className) ∨
      (change = .moveAndRename ∧ inference.delta.afterName before.className ≠ after.className) := by
  simp only [attributeChange?] at h
  split at h
  · rename_i hname
    obtain ⟨-, h⟩ := Option.ite_none_right_eq_some.mp h
    exact Or.inl ⟨(Option.some.inj h).symm, hname⟩
  · split at h
    · rename_i hclass
      obtain ⟨-, h⟩ := Option.ite_none_right_eq_some.mp h
      exact Or.inr (Or.inl ⟨(Option.some.inj h).symm, hclass⟩)
    · rename_i hclass
      obtain ⟨-, h⟩ := Option.ite_none_right_eq_some.mp h
      exact Or.inr (Or.inr ⟨(Option.some.inj h).symm, hclass⟩)

theorem mem_moveAttributeProposals (h : proposal ∈ inference.moveAttributeProposals) :
    ∃ before after change, inference.mayBeOne before after = true ∧
      inference.attributeChange? before after = some change ∧
      proposal.refactoring = .ofAttribute change (.of before) (.of after) := by
  rcases List.mem_append.mp h with h | h
  all_goals
    obtain ⟨⟨before, after⟩, hpair, h⟩ := List.mem_filterMap.mp h
    obtain ⟨change, hchange, rfl⟩ := Option.map_eq_some_iff.mp h
    obtain ⟨b, -, hb⟩ := List.mem_flatMap.mp (List.mem_filter.mp hpair).1
    obtain ⟨a, ha, hpair⟩ := List.mem_map.mp hb
    obtain ⟨rfl, rfl⟩ := Prod.mk.inj hpair
    exact ⟨b, a, change, (List.mem_filter.mp ha).2, hchange, rfl⟩

theorem moveAttributeProposals_teller (h : proposal ∈ inference.moveAttributeProposals) :
    proposal.refactoring.teller = .moveRenameAttribute := by
  obtain ⟨before, after, change, -, hchange, htold⟩ := mem_moveAttributeProposals h
  rw [htold]
  obtain ⟨rfl, -⟩ | ⟨rfl, -⟩ | ⟨rfl, -⟩ := attributeChange?_cases hchange <;> rfl

theorem extractInlineOperationProposals_teller
    (h : proposal ∈ inference.extractInlineOperationProposals) :
    proposal.refactoring.teller = .extractInlineOperation := by
  obtain ⟨pair, -, h⟩ := List.mem_flatMap.mp h
  rcases List.mem_append.mp h with h | h
  · obtain ⟨added, -, h⟩ := List.mem_filterMap.mp h
    obtain ⟨-, h⟩ := Option.ite_none_left_eq_some.mp h
    split at h
    · simp at h
    · obtain ⟨-, h⟩ := Option.ite_none_right_eq_some.mp h
      exact Option.some.inj h ▸ rfl
  · obtain ⟨removed, -, h⟩ := List.mem_filterMap.mp h
    obtain ⟨-, h⟩ := Option.ite_none_left_eq_some.mp h
    split at h
    · simp at h
    · obtain ⟨-, h⟩ := Option.ite_none_right_eq_some.mp h
      exact Option.some.inj h ▸ rfl

theorem extractAttributeProposals_teller (h : proposal ∈ inference.extractAttributeProposals) :
    proposal.refactoring.teller = .extractAttribute := by
  obtain ⟨d, -, h⟩ := List.mem_flatMap.mp h
  obtain ⟨a, -, h⟩ := List.mem_filterMap.mp h
  unfold extractedAttribute? at h
  split at h
  · simp at h
  · obtain ⟨-, h⟩ := Option.ite_none_left_eq_some.mp h
    exact Option.some.inj h ▸ rfl

theorem extractInlineVariableProposals_teller
    (h : proposal ∈ inference.extractInlineVariableProposals) :
    proposal.refactoring.teller = .extractInlineVariable := by
  obtain ⟨pair, -, h⟩ := List.mem_flatMap.mp h
  rcases List.mem_append.mp h with h | h
  all_goals
    obtain ⟨v, -, h⟩ := List.mem_filterMap.mp h
    obtain ⟨-, h⟩ := Option.ite_none_right_eq_some.mp h
    obtain ⟨expression, -, rfl⟩ := Option.map_eq_some_iff.mp h
    rfl

theorem mergeSplitProposals_teller (h : proposal ∈ inference.mergeSplitProposals) :
    proposal.refactoring.teller = .mergeSplit := by
  have hattributes : ∀ d, proposal ∈ inference.ofClassAttributes d →
      proposal.refactoring.teller = .mergeSplit := by
    intro d h
    rcases List.mem_append.mp h with h | h
    all_goals
      obtain ⟨a, -, h⟩ := List.mem_filterMap.mp h
      obtain ⟨-, h⟩ := Option.ite_none_right_eq_some.mp h
      exact Option.some.inj h ▸ rfl
  have hvariables : ∀ pair sort, proposal ∈ ofPairVariables pair sort →
      proposal.refactoring.teller = .mergeSplit := by
    intro pair sort h
    rcases List.mem_append.mp h with h | h
    all_goals
      obtain ⟨v, -, h⟩ := List.mem_filterMap.mp h
      obtain ⟨-, h⟩ := Option.ite_none_right_eq_some.mp h
      exact Option.some.inj h ▸ rfl
  rcases List.mem_append.mp h with h | h
  · obtain ⟨d, -, h⟩ := List.mem_flatMap.mp h
    exact hattributes d h
  · obtain ⟨pair, -, h⟩ := List.mem_flatMap.mp h
    rcases List.mem_append.mp h with h | h
    · exact hvariables pair _ h
    · exact hvariables pair _ h

theorem hierarchyProposals_teller (h : proposal ∈ inference.hierarchyProposals) :
    proposal.refactoring.teller = .pullUpPushDown := by
  rcases List.mem_append.mp h with h | h
  · obtain ⟨before, -, h⟩ := List.mem_flatMap.mp h
    obtain ⟨after, -, h⟩ := List.mem_filterMap.mp h
    obtain ⟨-, h⟩ := Option.ite_none_right_eq_some.mp h
    obtain ⟨direction, -, rfl⟩ := Option.map_eq_some_iff.mp h
    cases direction <;> rfl
  · obtain ⟨before, -, h⟩ := List.mem_flatMap.mp h
    obtain ⟨after, -, h⟩ := List.mem_filterMap.mp h
    obtain ⟨-, h⟩ := Option.ite_none_right_eq_some.mp h
    split at h
    · simp at h
    · rename_i direction _
      obtain ⟨-, h⟩ := Option.ite_none_right_eq_some.mp h
      obtain rfl := Option.some.inj h
      cases direction <;> rfl

theorem moveOperationProposals_teller (h : proposal ∈ inference.moveOperationProposals) :
    proposal.refactoring.teller = .moveOperation := by
  obtain ⟨pair, -, rfl⟩ := List.mem_map.mp h
  by_cases hname : pair.before.name = pair.after.name <;> simp [ofOperationPair, hname] <;> rfl

theorem decoratorProposals_teller (h : proposal ∈ inference.decoratorProposals) :
    proposal.refactoring.teller = .decorators := by
  rcases List.mem_append.mp h with h | h
  all_goals
    obtain ⟨source, -, h⟩ := List.mem_flatMap.mp h
    obtain ⟨change, -, rfl⟩ := List.mem_map.mp h
    rfl

theorem addRemoveParameterProposals_teller
    (h : proposal ∈ inference.addRemoveParameterProposals) :
    proposal.refactoring.teller = .addRemoveParameter := by
  obtain ⟨pair, -, h⟩ := List.mem_flatMap.mp h
  rcases List.mem_append.mp h with h | h
  all_goals
    obtain ⟨v, -, rfl⟩ := List.mem_map.mp h
    rfl

end Inference

theorem Rule.proposals_teller {rule : Rule} {inference : Inference} {proposal : Proposal}
    (h : proposal ∈ rule.proposals inference) : proposal.refactoring.teller = rule := by
  cases rule with
  | classRenameMove =>
    obtain ⟨d, -, h⟩ := List.mem_filterMap.mp h
    obtain ⟨change, -, rfl⟩ := Option.map_eq_some_iff.mp h
    rfl
  | renameOperation =>
    obtain ⟨pair, -, rfl⟩ := List.mem_map.mp h
    rfl
  | extractInlineOperation => exact Inference.extractInlineOperationProposals_teller h
  | moveRenameAttribute => exact Inference.moveAttributeProposals_teller h
  | extractAttribute => exact Inference.extractAttributeProposals_teller h
  | replaceVariableWithAttribute =>
    obtain ⟨pair, -, h⟩ := List.mem_flatMap.mp h
    obtain ⟨v, -, h⟩ := List.mem_filterMap.mp h
    obtain ⟨-, h⟩ := Option.ite_none_right_eq_some.mp h
    obtain ⟨a, -, rfl⟩ := Option.map_eq_some_iff.mp h
    rfl
  | extractInlineVariable => exact Inference.extractInlineVariableProposals_teller h
  | renameVariable =>
    obtain ⟨pair, -, h⟩ := List.mem_flatMap.mp h
    obtain ⟨p, -, h⟩ := List.mem_filterMap.mp h
    obtain ⟨sort, -, rfl⟩ := Option.map_eq_some_iff.mp h
    rfl
  | mergeSplit => exact Inference.mergeSplitProposals_teller h
  | pullUpPushDown => exact Inference.hierarchyProposals_teller h
  | moveOperation => exact Inference.moveOperationProposals_teller h
  | decorators => exact Inference.decoratorProposals_teller h
  | parameterizeVariable =>
    obtain ⟨pair, -, h⟩ := List.mem_flatMap.mp h
    obtain ⟨v, -, h⟩ := List.mem_filterMap.mp h
    obtain ⟨-, h⟩ := Option.ite_none_right_eq_some.mp h
    obtain ⟨w, -, rfl⟩ := Option.map_eq_some_iff.mp h
    rfl
  | addRemoveParameter => exact Inference.addRemoveParameterProposals_teller h

end CodeEvolution
