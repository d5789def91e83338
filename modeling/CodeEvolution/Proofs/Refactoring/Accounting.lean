import CodeEvolution.Refactoring.Run
import Mathlib.Data.Set.Basic
import Mathlib.Logic.Basic
/-!
# The account of a run

The rules are gone through with a set of explained deltas. A proposal is taken if none of the
deltas it requires is in the set, and then all it consumes enters the set. `Pass` says this of
the proposals of one rule, `Account` of a list of rules, each of which proposes on the grounds of
what was taken before it. A run is such an account. That its deltas are the union of what the
taken proposals consume, and that no two of them require one delta, follows by induction on it.
-/
namespace CodeEvolution

variable {key : DeltaKey} (rule : Rule) (config : Config) (inference : Inference)
  (delta : ModelDelta) (proposal : Proposal)

def Proposal.Consumes (proposal : Proposal) (key : DeltaKey) : Prop :=
  key ∈ proposal.required ∨ key ∈ proposal.alsoClaimed

/-- What was taken first leaves alone what was required afterwards. -/
def Emission.Spares (e f : Emission) : Prop :=
  ∀ key ∈ f.proposal.required, ¬e.proposal.Consumes key

namespace Inference

def consumed (emitted : List Emission) : Set DeltaKey :=
  {key | ∃ e ∈ emitted, e.proposal.Consumes key}

theorem consumed_nil : consumed [] = ∅ := by
  ext key
  simp [consumed]

theorem consumed_append (emitted more : List Emission) :
    consumed (emitted ++ more) = consumed emitted ∪ consumed more := by
  ext key
  simp [consumed, or_and_right, exists_or]

theorem consumed_singleton : consumed [⟨rule, proposal⟩] = {key | proposal.Consumes key} := by
  ext key
  simp [consumed]

theorem mem_claimed {inference : Inference} :
    key ∈ inference.claimed ↔ key ∈ consumed inference.emitted := by
  simp [claimed, consumed, Proposal.Consumes]

theorem isClaimed_iff {inference : Inference} :
    inference.isClaimed key = true ↔ key ∈ consumed inference.emitted := by
  rw [isClaimed, List.contains_iff_mem, mem_claimed]

/-- The proposals of one rule are gone through: what is explained before, the proposals, those
that are taken, and what is explained afterwards. -/
inductive Pass : Set DeltaKey → List Proposal → List Proposal → Set DeltaKey → Prop
  | done (explained : Set DeltaKey) : Pass explained [] [] explained
  | take {explained final : Set DeltaKey} {proposal : Proposal} {rest taken : List Proposal}
    (free : ∀ key ∈ proposal.required, key ∉ explained)
    (later : Pass (explained ∪ {key | proposal.Consumes key}) rest taken final) :
    Pass explained (proposal :: rest) (proposal :: taken) final
  | skip {explained final : Set DeltaKey} {proposal : Proposal} {rest taken : List Proposal}
    (clash : ∃ key ∈ proposal.required, key ∈ explained)
    (later : Pass explained rest taken final) :
    Pass explained (proposal :: rest) taken final

/-- Rules are gone through: what is explained and taken before them, the rules, and what is taken
and explained after them. -/
inductive Account (delta : ModelDelta) (config : Config) :
    Set DeltaKey → List Emission → List Rule → List Emission → Set DeltaKey → Prop
  | done (explained : Set DeltaKey) (emitted : List Emission) :
    Account delta config explained emitted [] emitted explained
  | rule {explained between final : Set DeltaKey} {emitted result : List Emission} {rule : Rule}
    {rest : List Rule} {taken : List Proposal}
    (pass : Pass explained (rule.proposals { delta, config, emitted }) taken between)
    (later : Account delta config between (emitted ++ taken.map (Emission.mk rule)) rest
      result final) :
    Account delta config explained emitted (rule :: rest) result final

section Steps

theorem offer_cases :
    (offer rule inference proposal = inference ∧
        ∃ key ∈ proposal.required, key ∈ consumed inference.emitted) ∨
      (offer rule inference proposal =
          { inference with emitted := inference.emitted ++ [⟨rule, proposal⟩] } ∧
        ∀ key ∈ proposal.required, key ∉ consumed inference.emitted) := by
  unfold offer
  split
  · rename_i h
    left
    obtain ⟨key, hkey, hclaimed⟩ := List.any_eq_true.mp h
    exact ⟨rfl, key, hkey, isClaimed_iff.mp hclaimed⟩
  · rename_i h
    right
    refine ⟨rfl, fun key hkey hconsumed => h ?_⟩
    exact List.any_eq_true.mpr ⟨key, hkey, isClaimed_iff.mpr hconsumed⟩

theorem foldl_offer_pass (proposals : List Proposal) :
    ∃ taken, proposals.foldl (offer rule) inference =
        { inference with emitted := inference.emitted ++ taken.map (Emission.mk rule) } ∧
      Pass (consumed inference.emitted) proposals taken
        (consumed (inference.emitted ++ taken.map (Emission.mk rule))) := by
  induction proposals generalizing inference with
  | nil =>
    refine ⟨[], by simp, ?_⟩
    rw [List.map_nil, List.append_nil]
    exact .done _
  | cons proposal rest ih =>
    rw [List.foldl_cons]
    obtain ⟨heq, hclash⟩ | ⟨heq, hfree⟩ := offer_cases rule inference proposal
    · obtain ⟨taken, hfold, hpass⟩ := ih inference
      rw [heq]
      exact ⟨taken, hfold, .skip hclash hpass⟩
    · obtain ⟨taken, hfold, hpass⟩ := ih (offer rule inference proposal)
      rw [heq] at hfold hpass
      rw [heq]
      refine ⟨proposal :: taken, by simpa using hfold, .take hfree ?_⟩
      rw [← consumed_singleton rule, ← consumed_append]
      simpa using hpass

theorem foldl_apply_account (rules : List Rule) (inference : Inference) :
    (rules.foldl apply inference).delta = inference.delta ∧
      Account inference.delta inference.config (consumed inference.emitted) inference.emitted
        rules (rules.foldl apply inference).emitted
        (consumed (rules.foldl apply inference).emitted) := by
  induction rules generalizing inference with
  | nil => exact ⟨rfl, .done _ _⟩
  | cons rule rest ih =>
    obtain ⟨taken, hfold, hpass⟩ := foldl_offer_pass rule inference (rule.proposals inference)
    have happly : inference.apply rule =
        { inference with emitted := inference.emitted ++ taken.map (Emission.mk rule) } := hfold
    obtain ⟨hdelta, hlater⟩ := ih (inference.apply rule)
    rw [happly] at hdelta hlater
    rw [List.foldl_cons, happly]
    exact ⟨hdelta, .rule hpass hlater⟩

theorem run_delta : (run config delta).delta = delta :=
  (foldl_apply_account config.ruleOrder { delta, config }).1

theorem run_account :
    Account delta config ∅ [] config.ruleOrder (run config delta).emitted
      {key | key ∈ (run config delta).claimed} := by
  have haccount := (foldl_apply_account config.ruleOrder { delta, config }).2
  have hclaimed : {key | key ∈ (run config delta).claimed} =
      consumed (run config delta).emitted := by
    ext key
    exact mem_claimed
  rw [hclaimed, ← consumed_nil]
  exact haccount

end Steps

namespace Pass

variable {explained final : Set DeltaKey} {proposals taken : List Proposal}
  (h : Pass explained proposals taken final)

include h

theorem sublist : taken.Sublist proposals := by
  induction h with
  | done explained => exact .slnil
  | take _ _ ih => exact ih.cons_cons _
  | skip _ _ ih => exact ih.cons _

theorem final_eq : final = explained ∪ consumed (taken.map (Emission.mk rule)) := by
  induction h with
  | done explained => simp [consumed_nil]
  | take _ _ ih =>
    rw [ih, List.map_cons, ← List.singleton_append, consumed_append, consumed_singleton,
      Set.union_assoc]
  | skip _ _ ih => exact ih

theorem explained_subset : explained ⊆ final := by
  rw [h.final_eq default]
  exact Set.subset_union_left

theorem free : ∀ proposal ∈ taken, ∀ key ∈ proposal.required, key ∉ explained := by
  induction h with
  | done explained => simp
  | take hfree _ ih =>
    intro proposal hproposal key hkey
    rcases List.mem_cons.mp hproposal with rfl | hproposal
    · exact hfree key hkey
    · exact fun hexplained => ih proposal hproposal key hkey (Or.inl hexplained)
  | skip _ _ ih => exact ih

theorem pairwise_spares : (taken.map (Emission.mk rule)).Pairwise Emission.Spares := by
  induction h with
  | done explained => exact .nil
  | @take explained final proposal rest taken _ hlater ih =>
    refine List.pairwise_cons.mpr ⟨?_, ih⟩
    intro f hf key hkey hconsumes
    obtain ⟨later, hmem, rfl⟩ := List.mem_map.mp hf
    exact hlater.free later hmem key hkey (Or.inr hconsumes)
  | skip _ _ ih => exact ih

theorem taken_or_blocked :
    ∀ proposal ∈ proposals, proposal ∈ taken ∨ ∃ key ∈ proposal.required, key ∈ final := by
  induction h with
  | done explained => simp
  | take _ _ ih =>
    intro proposal hproposal
    rcases List.mem_cons.mp hproposal with rfl | hproposal
    · exact Or.inl List.mem_cons_self
    · exact (ih proposal hproposal).imp_left (List.mem_cons_of_mem _)
  | skip hclash hlater ih =>
    intro proposal hproposal
    rcases List.mem_cons.mp hproposal with rfl | hproposal
    · obtain ⟨key, hkey, hexplained⟩ := hclash
      exact Or.inr ⟨key, hkey, hlater.explained_subset hexplained⟩
    · exact ih proposal hproposal

end Pass

namespace Account

variable {delta : ModelDelta} {config : Config} {explained final : Set DeltaKey}
  {emitted result : List Emission} {rules : List Rule}

theorem spares (h : Account delta config explained emitted rules result final) :
    ∃ more, result = emitted ++ more ∧
      final = explained ∪ consumed more ∧
      (∀ e ∈ more, ∀ key ∈ e.proposal.required, key ∉ explained) ∧
      more.Pairwise Emission.Spares := by
  induction h with
  | done explained emitted => exact ⟨[], by simp [consumed_nil]⟩
  | @rule explained between final emitted result rule rest taken pass _ ih =>
    obtain ⟨more, hresult, hfinal, hfree, hpairwise⟩ := ih
    have hbetween := pass.final_eq rule
    refine ⟨taken.map (Emission.mk rule) ++ more, by simp [hresult], ?_, ?_, ?_⟩
    · rw [hfinal, hbetween, consumed_append, Set.union_assoc]
    · intro e he key hkey
      rcases List.mem_append.mp he with he | he
      · obtain ⟨proposal, hproposal, rfl⟩ := List.mem_map.mp he
        exact pass.free proposal hproposal key hkey
      · exact fun hexplained => hfree e he key hkey (pass.explained_subset hexplained)
    · refine List.pairwise_append.mpr ⟨pass.pairwise_spares rule, hpairwise, ?_⟩
      intro e he f hf key hkey hconsumes
      apply hfree f hf key hkey
      rw [hbetween]
      exact Or.inr ⟨e, he, hconsumes⟩

/-- Whatever a rule proposes is taken, or something it requires is explained in the end. -/
theorem settles {rule : Rule} (h : Account delta config explained emitted rules result final)
    (hrule : rule ∈ rules) :
    ∃ before, before <+: result ∧
      ∀ proposal ∈ rule.proposals { delta, config, emitted := before },
        ⟨rule, proposal⟩ ∈ result ∨ ∃ key ∈ proposal.required, key ∈ final := by
  induction h with
  | done explained emitted => simp at hrule
  | @rule explained between final emitted result first rest taken pass later ih =>
    rcases List.mem_cons.mp hrule with rfl | hrule
    · obtain ⟨more, hresult, hfinal, -, -⟩ := later.spares
      refine ⟨emitted, ⟨taken.map (Emission.mk rule) ++ more, by simp [hresult]⟩, ?_⟩
      intro proposal hproposal
      rcases pass.taken_or_blocked proposal hproposal with htaken | ⟨key, hkey, hbetween⟩
      · exact Or.inl (by simp [hresult, htaken])
      · exact Or.inr ⟨key, hkey, by simp [hfinal, hbetween]⟩
    · exact ih hrule

end Account

theorem run_pairwise_spares : (run config delta).emitted.Pairwise Emission.Spares := by
  obtain ⟨more, hresult, -, -, hpairwise⟩ := (run_account config delta).spares
  rw [hresult, List.nil_append]
  exact hpairwise

theorem isClaimed_eq_any (key : DeltaKey) :
    inference.isClaimed key = inference.emitted.any fun e =>
      e.proposal.required.contains key || e.proposal.alsoClaimed.contains key := by
  rw [Bool.eq_iff_iff, isClaimed_iff]
  simp [consumed, Proposal.Consumes]

theorem mem_unexplained {config : Config} {delta : ModelDelta} :
    key ∈ (run config delta).unexplained ↔
      key ∈ openKeys delta ∧ key ∉ consumed (run config delta).emitted := by
  rw [unexplained, run_delta, List.mem_filter, Bool.not_eq_true', ← Bool.not_eq_true, isClaimed_iff]

/-- A run keeps an account of the deltas. What it explains is what the taken proposals consume,
each of which tells one refactoring. What a proposal requires was not explained by those taken
before it, so no two require one delta. The removed and added classes, operations and attributes
that none consumes are left unexplained, in this order. -/
theorem run_accounts (config : Config) (delta : ModelDelta) :
    let outcome := run config delta
    Account delta config ∅ [] config.ruleOrder outcome.emitted {key | key ∈ outcome.claimed} ∧
      (∀ key, key ∈ outcome.claimed ↔ ∃ e ∈ outcome.emitted, e.proposal.Consumes key) ∧
      outcome.refactorings = outcome.emitted.map (fun e => e.proposal.refactoring) ∧
      outcome.emitted.Pairwise Emission.Spares ∧
      (outcome.emitted.Pairwise fun e f => ∀ key ∈ e.proposal.required, key ∉ f.proposal.required) ∧
      outcome.unexplained =
        (delta.removedClasses.map (fun c => DeltaKey.removedClass c.qualifiedName) ++
          delta.addedClasses.map (fun c => DeltaKey.addedClass c.qualifiedName) ++
          delta.removedOperations.map DeltaKey.ofRemovedOperation ++
          delta.addedOperations.map DeltaKey.ofAddedOperation ++
          delta.removedAttributes.map DeltaKey.ofRemovedAttribute ++
          delta.addedAttributes.map DeltaKey.ofAddedAttribute).filter (fun key =>
            !outcome.emitted.any fun e =>
              e.proposal.required.contains key || e.proposal.alsoClaimed.contains key) ∧
      ∀ key ∈ openKeys delta,
        Xor (∃ e ∈ outcome.emitted, e.proposal.Consumes key) (key ∈ outcome.unexplained) := by
  have hspares := run_pairwise_spares config delta
  refine ⟨run_account config delta, fun key => mem_claimed, rfl, hspares, ?_, ?_, ?_⟩
  · refine hspares.imp ?_
    intro e f h key he hf
    exact h key hf (Or.inl he)
  · rw [unexplained, run_delta]
    apply List.filter_congr
    intro key _
    rw [isClaimed_eq_any]
  · intro key hkey
    rw [mem_unexplained]
    by_cases h : ∃ e ∈ (run config delta).emitted, e.proposal.Consumes key
    · exact Or.inl ⟨h, fun hopen => hopen.2 h⟩
    · exact Or.inr ⟨⟨hkey, h⟩, h⟩

end Inference

end CodeEvolution
