import CodeEvolution.Proofs.Refactoring.Consumption
import CodeEvolution.Proofs.Samples
/-!
# First match wins, and where it does not

In an order without repetitions a rule proposes when all that earlier rules take is taken. What it
requires is then free, and so is what an extraction claims. Only a pull-up, or an attribute pushed
down, claims the other end without a look at it, and may so explain again what a rename, an
extraction, a move or a merge has explained before.
-/
namespace CodeEvolution

variable {earlier later rules : List Rule} {rule : Rule}

def Rule.Precedes (order : List Rule) (first second : Rule) : Prop :=
  order.idxOf first < order.idxOf second

instance (order : List Rule) (first second : Rule) :
    Decidable (Rule.Precedes order first second) :=
  inferInstanceAs (Decidable (_ < _))

theorem Rule.Precedes.mem_earlier {first second : Rule}
    (hnodup : (earlier ++ second :: later).Nodup)
    (h : Rule.Precedes (earlier ++ second :: later) first second) : first ∈ earlier := by
  have hsecond : second ∉ earlier := fun hmem =>
    (List.nodup_append.mp hnodup).2.2 second hmem second List.mem_cons_self rfl
  by_contra hfirst
  rw [Rule.Precedes, List.idxOf_append, List.idxOf_append, if_neg hfirst, if_neg hsecond,
    List.idxOf_cons_self] at h
  omega

namespace Proposal.ClaimsUnasked

variable {proposal : Proposal} {key : DeltaKey} (h : proposal.ClaimsUnasked key)

include h

theorem consumes : proposal.Consumes key := by
  right
  cases h with
  | pulledUpAttribute claimed _ => simp [claimed]
  | pushedDownAttribute claimed _ => simp [claimed]
  | pulledUpOperation claimed _ => simp [claimed]

theorem explained_before (hrule : rule ∈ key.explainers)
    (hbefore : Rule.Precedes Rule.defaultOrder rule .pullUpPushDown) :
    rule ∈ [.renameOperation, .extractInlineOperation, .moveRenameAttribute, .extractAttribute,
      .mergeSplit] := by
  revert rule
  cases h with
  | pulledUpAttribute _ _ =>
    simp only [DeltaKey.ofAddedAttribute, DeltaKey.explainers]
    decide
  | pushedDownAttribute _ _ =>
    simp only [DeltaKey.ofRemovedAttribute, DeltaKey.explainers]
    decide
  | pulledUpOperation _ _ =>
    simp only [DeltaKey.ofAddedOperation, DeltaKey.explainers]
    decide

end Proposal.ClaimsUnasked

namespace Inference

namespace Account

variable {delta : ModelDelta} {config : Config} {explained final : Set DeltaKey}
  {emitted result : List Emission}

theorem rule_mem (h : Account delta config explained emitted rules result final) :
    ∃ more, result = emitted ++ more ∧ ∀ e ∈ more, e.rule ∈ rules := by
  induction h with
  | done explained emitted => exact ⟨[], by simp⟩
  | @rule explained between final emitted result rule rest taken _ _ ih =>
    obtain ⟨more, hresult, hmore⟩ := ih
    refine ⟨taken.map (Emission.mk rule) ++ more, by simp [hresult], ?_⟩
    intro e he
    rcases List.mem_append.mp he with he | he
    · obtain ⟨proposal, -, rfl⟩ := List.mem_map.mp he
      exact List.mem_cons_self
    · exact List.mem_cons_of_mem _ (hmore e he)

theorem proposed (h : Account delta config explained emitted rules result final) :
    ∀ e ∈ result, e ∈ emitted ∨
      ∃ before, e.proposal ∈ e.rule.proposals { delta, config, emitted := before } := by
  induction h with
  | done explained emitted => exact fun e he => Or.inl he
  | @rule explained between final emitted result rule rest taken pass _ ih =>
    intro e he
    rcases ih e he with he | he
    · rcases List.mem_append.mp he with he | he
      · exact Or.inl he
      · obtain ⟨proposal, hproposal, rfl⟩ := List.mem_map.mp he
        exact Or.inr ⟨emitted, pass.sublist.subset hproposal⟩
    · exact Or.inr he

theorem at_rule
    (h : Account delta config explained emitted (earlier ++ rule :: later) result final) :
    ∃ before taken after between,
      result = emitted ++ before ++ taken.map (Emission.mk rule) ++ after ∧
      (∀ e ∈ before, e.rule ∈ earlier) ∧ (∀ e ∈ after, e.rule ∈ later) ∧
      Account delta config explained emitted earlier (emitted ++ before)
        (explained ∪ consumed before) ∧
      Pass (explained ∪ consumed before)
        (rule.proposals { delta, config, emitted := emitted ++ before }) taken between := by
  induction earlier generalizing explained emitted with
  | nil =>
    cases h with
    | @rule _ between _ _ _ _ _ taken pass hlater =>
      obtain ⟨after, hresult, hafter⟩ := hlater.rule_mem
      refine ⟨[], taken, after, between, by simp [hresult], by simp, hafter, ?_, ?_⟩
      · simpa [consumed_nil] using Account.done explained emitted
      · simpa [consumed_nil] using pass
  | cons first earlier ih =>
    cases h with
    | @rule _ middle _ _ _ _ _ started pass hlater =>
      obtain ⟨before, taken, after, between, hresult, hbefore, hafter, haccount, hpass⟩ := ih hlater
      obtain rfl := pass.final_eq first
      rw [Set.union_assoc, ← consumed_append] at haccount hpass
      refine ⟨started.map (Emission.mk first) ++ before, taken, after, between,
        by simp [hresult], ?_, hafter, ?_, ?_⟩
      · intro e he
        rcases List.mem_append.mp he with he | he
        · obtain ⟨proposal, -, rfl⟩ := List.mem_map.mp he
          exact List.mem_cons_self
        · exact List.mem_cons_of_mem _ (hbefore e he)
      · exact .rule pass (by simpa using haccount)
      · simpa using hpass

end Account

section Order

variable {config : Config} {delta : ModelDelta} {e f : Emission}

theorem run_rule_mem (he : e ∈ (run config delta).emitted) : e.rule ∈ config.ruleOrder := by
  obtain ⟨more, hresult, hmore⟩ := (run_account config delta).rule_mem
  exact hmore e (by simpa [hresult] using he)

theorem run_mem_explainers (he : e ∈ (run config delta).emitted) {key : DeltaKey}
    (hkey : e.proposal.Consumes key) : e.rule ∈ key.explainers := by
  rcases (run_account config delta).proposed e he with hnone | ⟨before, hproposed⟩
  · simp at hnone
  · exact Rule.mem_explainers hproposed hkey

/-- The account of the rules before that of an emission: all they took is there when the rule
proposes, and what the emission requires is not explained by it. -/
theorem run_earlier (hnodup : config.ruleOrder.Nodup) (hf : f ∈ (run config delta).emitted) :
    ∃ earlier later before, config.ruleOrder = earlier ++ f.rule :: later ∧
      Account delta config ∅ [] earlier before (consumed before) ∧
      f.proposal ∈ f.rule.proposals { delta, config, emitted := before } ∧
      (∀ key ∈ f.proposal.required, key ∉ consumed before) ∧
      ∀ e ∈ (run config delta).emitted, e.rule ∈ earlier → e ∈ before := by
  obtain ⟨earlier, later, horder⟩ := List.append_of_mem (run_rule_mem hf)
  have haccount := run_account config delta
  rw [horder] at hnodup haccount
  obtain ⟨before, taken, after, between, hresult, hbefore, hafter, hearlier, hpass⟩ :=
    haccount.at_rule
  obtain ⟨-, hlater, hapart⟩ := List.nodup_append.mp hnodup
  rw [Set.empty_union, List.nil_append] at hearlier hpass
  -- The rule of an emission tells where in the account it stands.
  have hplace : ∀ g ∈ (run config delta).emitted,
      g ∈ before ∨ (g.rule = f.rule ∧ g.proposal ∈ taken) ∨ g.rule ∈ later := by
    intro g hg
    rw [hresult, List.nil_append, List.mem_append, List.mem_append] at hg
    rcases hg with (hg | hg) | hg
    · exact Or.inl hg
    · obtain ⟨proposal, hproposal, rfl⟩ := List.mem_map.mp hg
      exact Or.inr (Or.inl ⟨rfl, hproposal⟩)
    · exact Or.inr (Or.inr (hafter g hg))
  have hftaken : f.proposal ∈ taken := by
    rcases hplace f hf with h | ⟨-, h⟩ | h
    · exact absurd rfl (hapart _ (hbefore f h) _ List.mem_cons_self)
    · exact h
    · exact absurd h (List.nodup_cons.mp hlater).1
  refine ⟨earlier, later, before, horder, hearlier, hpass.sublist.subset hftaken,
    hpass.free f.proposal hftaken, ?_⟩
  intro e he hrule
  rcases hplace e he with h | ⟨h, -⟩ | h
  · exact h
  · exact absurd h (hapart _ hrule _ List.mem_cons_self)
  · exact absurd rfl (hapart _ hrule _ (List.mem_cons_of_mem _ h))

theorem run_precedes (hnodup : config.ruleOrder.Nodup) (he : e ∈ (run config delta).emitted)
    (hf : f ∈ (run config delta).emitted) (hrule : Rule.Precedes config.ruleOrder e.rule f.rule) :
    ∃ before, e ∈ before ∧ f.proposal ∈ f.rule.proposals { delta, config, emitted := before } ∧
      ∀ key ∈ f.proposal.required, key ∉ consumed before := by
  obtain ⟨earlier, later, before, horder, -, hproposed, hfree, hthere⟩ := run_earlier hnodup hf
  rw [horder] at hnodup hrule
  exact ⟨before, hthere e he (hrule.mem_earlier hnodup), hproposed, hfree⟩

end Order

/-- In the default order, a delta that an earlier rule has explained is explained again exactly if
a pull-up or an attribute pushed down claims it as its other end. Only members that were renamed,
extracted, inlined, moved, merged or split can be explained again in this way. -/
theorem run_consumes_again_iff {config : Config} (horder : config.ruleOrder = Rule.defaultOrder)
    (delta : ModelDelta) {e f : Emission} (he : e ∈ (run config delta).emitted)
    (hf : f ∈ (run config delta).emitted)
    (hrule : Rule.Precedes Rule.defaultOrder e.rule f.rule) {key : DeltaKey}
    (hkey : e.proposal.Consumes key) :
    (f.proposal.Consumes key ↔ f.rule = .pullUpPushDown ∧ f.proposal.ClaimsUnasked key) ∧
      (f.proposal.Consumes key → e.rule ∈ [.renameOperation, .extractInlineOperation,
        .moveRenameAttribute, .extractAttribute, .mergeSplit]) := by
  have hnodup : config.ruleOrder.Nodup := by
    rw [horder]
    decide
  have hiff : f.proposal.Consumes key ↔
      f.rule = .pullUpPushDown ∧ f.proposal.ClaimsUnasked key := by
    refine ⟨fun hagain => ?_, fun h => h.2.consumes⟩
    obtain ⟨before, hbefore, hproposed, hfree⟩ := run_precedes hnodup he hf (horder ▸ hrule)
    have hconsumed : key ∈ consumed before := ⟨e, hbefore, hkey⟩
    have hclaims : key ∈ f.proposal.alsoClaimed :=
      hagain.resolve_left fun hrequired => hfree key hrequired hconsumed
    rcases Rule.isPlain_or_isClaiming hproposed with ⟨hnone, -⟩ | ⟨own, claimed, -, hone, -, -, h⟩
    · simp [hnone] at hclaims
    · obtain rfl : key = claimed := by simpa [hone] using hclaims
      refine h.resolve_left fun hunclaimed => ?_
      rw [← Bool.not_eq_true, isClaimed_iff] at hunclaimed
      exact hunclaimed hconsumed
  refine ⟨hiff, fun hagain => ?_⟩
  obtain ⟨hpull, hunasked⟩ := hiff.mp hagain
  exact hunasked.explained_before (run_mem_explainers he hkey) (hpull ▸ hrule)

end Inference

namespace RenamedAndPushedDown

open Samples (attributeOf classOf)

/-- A class with an attribute. -/
def before : Model :=
  { classes := [classOf "P" [] [attributeOf "m.P" "x"] []] }

/-- The attribute has another name in the class, and a new subclass has one of the old name. -/
def after : Model :=
  { classes := [classOf "P" [] [attributeOf "m.P" "y"] [],
      classOf "C" ["P"] [attributeOf "m.C" "x"] []] }

def outcome : Inference :=
  .run {} (.ofModels {} before after)

theorem outcome_emitted :
    outcome.emitted.map (fun e => (e.rule, e.proposal.required, e.proposal.alsoClaimed)) =
      [(.moveRenameAttribute, [.removedAttribute "m.P" "x", .addedAttribute "m.P" "y"], []),
        (.pullUpPushDown, [.addedAttribute "m.C" "x"], [.removedAttribute "m.P" "x"])] := by
  decide +kernel

end RenamedAndPushedDown

/-- The removed attribute is explained as renamed, and then again as pushed down. -/
theorem Inference.run_consumes_again_iff_renamed_and_pushed_down :
    ∃ e ∈ RenamedAndPushedDown.outcome.emitted, ∃ f ∈ RenamedAndPushedDown.outcome.emitted,
      Rule.Precedes Rule.defaultOrder e.rule f.rule ∧
        e.proposal.Consumes (.removedAttribute "m.P" "x") ∧
        f.proposal.Consumes (.removedAttribute "m.P" "x") ∧
        f.proposal.ClaimsUnasked (.removedAttribute "m.P" "x") := by
  obtain ⟨e, rest, hemitted, he, hrest⟩ :=
    List.map_eq_cons_iff.mp RenamedAndPushedDown.outcome_emitted
  obtain ⟨f, last, rfl, hf, -⟩ := List.map_eq_cons_iff.mp hrest
  simp only [Prod.mk.injEq] at he hf
  obtain ⟨herule, herequired, -⟩ := he
  obtain ⟨hfrule, -, hfclaimed⟩ := hf
  have hemem : e ∈ RenamedAndPushedDown.outcome.emitted := by simp [hemitted]
  have hfmem : f ∈ RenamedAndPushedDown.outcome.emitted := by simp [hemitted]
  have hrule : Rule.Precedes Rule.defaultOrder e.rule f.rule := by
    rw [herule, hfrule]
    decide
  have hekey : e.proposal.Consumes (.removedAttribute "m.P" "x") := Or.inl (by simp [herequired])
  have hfkey : f.proposal.Consumes (.removedAttribute "m.P" "x") := Or.inr (by simp [hfclaimed])
  obtain ⟨hiff, -⟩ := Inference.run_consumes_again_iff rfl _ hemem hfmem hrule hekey
  exact ⟨e, hemem, f, hfmem, hrule, hekey, hfkey, (hiff.mp hfkey).2⟩

end CodeEvolution
