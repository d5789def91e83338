import CodeEvolution.Proofs.Refactoring.FirstMatch
/-!
# Parameters that come and go

Renames, merges, splits, parameterizations, additions and removals compete for the parameters of
a pair of operations, and a proposal that requires several of them is passed over as soon as one
is explained. The parameters it leaves behind are not lost: the last of these rules proposes each
parameter by itself, so when it has been tried every parameter is explained. None is told twice,
because variables are only ever explained by a proposal that requires them, and no two taken
proposals require the same delta.
-/
namespace CodeEvolution

def DeltaKey.IsVariable : DeltaKey → Prop
  | .beforeVariable _ _ _ | .afterVariable _ _ _ => True
  | _ => False

namespace Inference

/-- A delta is explained, and of what was taken exactly one proposal requires it. -/
structure TellsOnce (inference : Inference) (key : DeltaKey) : Prop where
  claimed : inference.isClaimed key = true
  required : inference.emitted.countP (fun e => e.proposal.required.contains key) = 1

theorem countP_eq_one_of_pairwise {α : Type} {p : α → Bool} {items : List α}
    (hapart : items.Pairwise fun a b => p a = true → p b = false)
    (hsome : ∃ a ∈ items, p a = true) : items.countP p = 1 := by
  induction items with
  | nil => simp at hsome
  | cons first rest ih =>
    obtain ⟨hfirst, hrest⟩ := List.pairwise_cons.mp hapart
    by_cases h : p first = true
    · have hnone : rest.countP p = 0 := by
        rw [List.countP_eq_zero]
        intro b hb
        simp [hfirst b hb h]
      simp [h, hnone]
    · obtain ⟨a, ha, hpa⟩ := hsome
      rcases List.mem_cons.mp ha with rfl | ha
      · exact absurd hpa h
      · simpa [h] using ih hrest ⟨a, ha, hpa⟩

section Run

variable {config : Config} {delta : ModelDelta} {key : DeltaKey}

/-- Only extractions, inlinings, pull-ups and push-downs claim what they do not require, and they
claim operations and attributes. -/
theorem run_required_of_isVariable (hkey : key.IsVariable) {e : Emission}
    (he : e ∈ (run config delta).emitted) (hconsumes : e.proposal.Consumes key) :
    key ∈ e.proposal.required := by
  obtain ⟨before, hproposed⟩ :=
    ((run_account config delta).proposed e he).resolve_left List.not_mem_nil
  have hother : ∀ rule, rule ∈ key.explainers →
      rule ≠ .extractInlineOperation ∧ rule ≠ .pullUpPushDown := by
    cases key with
    | beforeVariable | afterVariable =>
      simp only [DeltaKey.explainers]
      decide
    | _ => exact hkey.elim
  obtain ⟨hextract, hpull⟩ := hother e.rule (run_mem_explainers he hconsumes)
  have hplain := Rule.isPlain_of_ne hproposed hextract hpull
  exact hconsumes.resolve_right (by simp [hplain.1])

theorem run_tellsOnce (hkey : key.IsVariable)
    (hconsumed : key ∈ consumed (run config delta).emitted) :
    (run config delta).TellsOnce key := by
  refine ⟨isClaimed_iff.mpr hconsumed, countP_eq_one_of_pairwise ?_ ?_⟩
  · refine (run_pairwise_spares config delta).imp ?_
    intro e f hspares he
    rw [← Bool.not_eq_true]
    intro hf
    exact hspares key (List.contains_iff_mem.mp hf) (Or.inl (List.contains_iff_mem.mp he))
  · obtain ⟨e, he, hconsumes⟩ := hconsumed
    have hrequired := run_required_of_isVariable hkey he hconsumes
    exact ⟨e, he, List.contains_iff_mem.mpr hrequired⟩

theorem run_consumed_of_alone {rule : Rule} (hrule : rule ∈ config.ruleOrder)
    (halone : ∀ emitted, ∃ proposal ∈ rule.proposals { delta, config, emitted },
      proposal.required = [key]) :
    key ∈ consumed (run config delta).emitted := by
  obtain ⟨before, -, hsettles⟩ := (run_account config delta).settles hrule
  obtain ⟨proposal, hproposal, hrequired⟩ := halone before
  rcases hsettles proposal hproposal with htaken | ⟨other, hother, hclaimed⟩
  · exact ⟨_, htaken, Or.inl (by simp [hrequired])⟩
  · obtain rfl : other = key := by simpa [hrequired] using hother
    exact mem_claimed.mp hclaimed

end Run

section Pair

variable {inference : Inference} {pair : OperationPair} {v : Variable}
  (hpair : pair ∈ inference.delta.operationPairs)

include hpair

theorem ofPairParameters_subset :
    ofPairParameters pair ⊆ inference.addRemoveParameterProposals := by
  intro proposal hproposal
  exact List.mem_flatMap.mpr ⟨pair, List.mem_append_left _ hpair, hproposal⟩

theorem removeParameter_mem_proposals (hv : v ∈ pair.removedVariables)
    (hparameter : v.isParameter = true) :
    ∃ proposal ∈ inference.addRemoveParameterProposals,
      proposal.required = [.ofBeforeVariable pair.before v] := by
  have hremoved : v ∈ pair.removedVariables.filter Variable.isParameter :=
    List.mem_filter.mpr ⟨hv, hparameter⟩
  refine ⟨_, ofPairParameters_subset hpair
    (List.mem_append_left _ (List.mem_map_of_mem hremoved)), ?_⟩
  simp [OperationPair.variableKeys]

theorem addParameter_mem_proposals (hv : v ∈ pair.addedVariables)
    (hparameter : v.isParameter = true) :
    ∃ proposal ∈ inference.addRemoveParameterProposals,
      proposal.required = [.ofAfterVariable pair.after v] := by
  have hadded : v ∈ pair.addedVariables.filter Variable.isParameter :=
    List.mem_filter.mpr ⟨hv, hparameter⟩
  refine ⟨_, ofPairParameters_subset hpair
    (List.mem_append_right _ (List.mem_map_of_mem hadded)), ?_⟩
  simp [OperationPair.variableKeys]

end Pair

/-- In every order with the rule for added and removed parameters, each parameter that a pair of
operations lost or gained is explained, and exactly one taken proposal requires it. -/
theorem run_parameters_tellsOnce (config : Config) (delta : ModelDelta)
    (horder : .addRemoveParameter ∈ config.ruleOrder) {pair : OperationPair}
    (hpair : pair ∈ delta.operationPairs) :
    (∀ v ∈ pair.removedVariables, v.isParameter = true →
        (run config delta).TellsOnce (.ofBeforeVariable pair.before v)) ∧
      ∀ w ∈ pair.addedVariables, w.isParameter = true →
        (run config delta).TellsOnce (.ofAfterVariable pair.after w) := by
  constructor
  · intro v hv hparameter
    refine run_tellsOnce trivial (run_consumed_of_alone horder ?_)
    exact fun emitted => removeParameter_mem_proposals hpair hv hparameter
  · intro w hw hparameter
    refine run_tellsOnce trivial (run_consumed_of_alone horder ?_)
    exact fun emitted => addParameter_mem_proposals hpair hw hparameter

end Inference

namespace ExchangedParameter

open Samples (classOf operationOf parameterOf)

/-- A class with an operation of one parameter. -/
def modelOf (name : String) : Model :=
  let parameter := { parameterOf name with span := ⟨1, 10, 1, 11, 19, 20⟩ }
  let operation := { operationOf "m.K" "f" [parameter] with span := ⟨1, 4, 1, 21, 13, 30⟩ }
  { classes := [classOf "K" [] [] [operation]] }

def delta : ModelDelta :=
  .ofModels {} (modelOf "a") (modelOf "b")

theorem delta_parameters :
    (delta.operationPairs.any fun pair =>
      (pair.removedVariables.any fun v => v.isParameter && decide (DeltaKey.ofBeforeVariable
        pair.before v = .beforeVariable ⟨"m.K", "f", 13⟩ "a" 19)) &&
      pair.addedVariables.any fun w => w.isParameter && decide (DeltaKey.ofAfterVariable
        pair.after w = .afterVariable ⟨"m.K", "f", 13⟩ "b" 19)) = true := by
  decide +kernel

end ExchangedParameter

/-- Both the lost and the gained parameter are told, each by one proposal. -/
theorem Inference.run_parameters_tellsOnce_exchanged :
    (Inference.run {} ExchangedParameter.delta).TellsOnce
        (.beforeVariable ⟨"m.K", "f", 13⟩ "a" 19) ∧
      (Inference.run {} ExchangedParameter.delta).TellsOnce
        (.afterVariable ⟨"m.K", "f", 13⟩ "b" 19) := by
  have hparameters := ExchangedParameter.delta_parameters
  simp only [List.any_eq_true, Bool.and_eq_true, decide_eq_true_eq] at hparameters
  obtain ⟨pair, hpair, ⟨v, hv, hold, hvkey⟩, w, hw, hnew, hwkey⟩ := hparameters
  obtain ⟨hremoved, hadded⟩ := Inference.run_parameters_tellsOnce {} ExchangedParameter.delta
    (by decide) hpair
  rw [← hvkey, ← hwkey]
  exact ⟨hremoved v hv hold, hadded w hw hnew⟩

end CodeEvolution
