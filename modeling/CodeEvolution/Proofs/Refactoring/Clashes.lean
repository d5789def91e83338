import CodeEvolution.Proofs.Refactoring.Unchanged
/-!
# What is told of an unchanged model

Two decorators of one declaration clash if they have one name and different arguments. The look-up
by name then takes the second of them for a modification of the first. Nothing else is ever told
of an unchanged model, and something is told exactly if decorators are looked at and two clash.
-/
namespace CodeEvolution

variable (config : Config) {decorators : List Decorator} {model : Model} {proposal : Proposal}
  {rule : Rule} {inference : Inference} {delta : ModelDelta}

def Decorator.Clash (d e : Decorator) : Prop :=
  d.name = e.name ∧ d.arguments ≠ e.arguments

def Decorator.AreConsistent (decorators : List Decorator) : Prop :=
  ∀ d ∈ decorators, ∀ e ∈ decorators, ¬d.Clash e

namespace DecoratorChange

theorem mem_between_self {change : String × DecoratorChange}
    (h : change ∈ between decorators decorators) :
    ∃ d ∈ decorators, ∃ e ∈ decorators,
      d.Clash e ∧ change = (d.name, .modified (.of d) (.of e)) := by
  rcases List.mem_append.mp h with h | h
  · obtain ⟨d, hd, hchange⟩ := List.mem_filterMap.mp h
    unfold ofBefore? at hchange
    split at hchange
    · rename_i hnone
      exact absurd (beq_self_eq_true d.name) (List.find?_eq_none.mp hnone d hd)
    · rename_i e he
      split at hchange
      · simp at hchange
      · rename_i hne
        have hname : e.name = d.name := by simpa using List.find?_some he
        exact ⟨d, hd, e, List.mem_of_find?_eq_some he, ⟨hname.symm, Ne.symm hne⟩,
          (Option.some.inj hchange).symm⟩
  · obtain ⟨e, he, hchange⟩ := List.mem_filterMap.mp h
    have hany : (decorators.any fun d => d.name == e.name) = true :=
      List.any_eq_true.mpr ⟨e, he, beq_self_eq_true e.name⟩
    simp [ofAfter?, hany] at hchange

theorem between_self_eq_nil_iff :
    between decorators decorators = [] ↔ Decorator.AreConsistent decorators := by
  constructor
  · intro hnone
    -- Every decorator has the arguments of the first one of its name.
    have hfirst : ∀ d ∈ decorators, ∀ f,
        decorators.find? (fun e => e.name == d.name) = some f → f.arguments = d.arguments := by
      intro d hd f hf
      have hunchanged := List.filterMap_eq_nil_iff.mp (List.append_eq_nil_iff.mp hnone).1 d hd
      by_contra hne
      simp [ofBefore?, hf, hne] at hunchanged
    intro d hd e he hclash
    have hsome : (decorators.find? fun f => f.name == d.name).isSome = true :=
      List.find?_isSome.mpr ⟨d, hd, beq_self_eq_true d.name⟩
    obtain ⟨f, hf⟩ := Option.isSome_iff_exists.mp hsome
    have hfd := hfirst d hd f hf
    rw [hclash.1] at hf
    exact hclash.2 (hfd.symm.trans (hfirst e he f hf))
  · intro hconsistent
    rw [List.eq_nil_iff_forall_not_mem]
    intro change hchange
    obtain ⟨d, hd, e, he, hclash, -⟩ := mem_between_self hchange
    exact hconsistent d hd e he hclash

end DecoratorChange

def Model.HasConsistentDecorators (model : Model) : Prop :=
  ∀ c ∈ model.classes, Decorator.AreConsistent c.decorators ∧
    ∀ o ∈ c.operations, Decorator.AreConsistent o.decorators

/-- A refactoring tells of a clash: it takes one decorator of a class or of an operation for a
modification of another. -/
inductive Model.TellsClash (model : Model) : Refactoring → Prop
  | ofClass {c : ModelClass} {d e : Decorator} :
    c ∈ model.classes → d ∈ c.decorators → e ∈ c.decorators → d.Clash e →
    TellsClash model (.ofClassDecorator (.modified (.of d) (.of e)) (.of c))
  | ofMethod {c : ModelClass} {o : Operation} {d e : Decorator} :
    c ∈ model.classes → o ∈ c.operations → d ∈ o.decorators → e ∈ o.decorators → d.Clash e →
    TellsClash model (.ofMethodDecorator (.modified (.of d) (.of e)) (.of o))

def ModelDelta.decoratorProposals (delta : ModelDelta) : List Proposal :=
  delta.commonClasses.flatMap Inference.ofClassDecorators ++
    delta.operationPairs.flatMap Inference.ofMethodDecorators

namespace ModelDelta

theorem mem_operationPairs_self {config : Config} {pair : OperationPair} :
    pair ∈ (ofModels config model model).operationPairs ↔
      ∃ c ∈ model.classes, ∃ o ∈ c.operations,
        pair = .ofOperations config c.language.receivers o o := by
  simp only [operationPairs, List.mem_flatMap, mem_commonClasses_self]
  constructor
  · rintro ⟨d, ⟨c, hc, rfl⟩, hpair⟩
    exact ⟨c, hc, ClassDelta.mem_commonOperations_self.mp hpair⟩
  · rintro ⟨c, hc, hpair⟩
    exact ⟨_, ⟨c, hc, rfl⟩, ClassDelta.mem_commonOperations_self.mpr hpair⟩

theorem decoratorProposals_self_tellsClash {config : Config}
    (h : proposal ∈ (ofModels config model model).decoratorProposals) :
    model.TellsClash proposal.refactoring := by
  rcases List.mem_append.mp h with h | h
  · obtain ⟨delta, hdelta, h⟩ := List.mem_flatMap.mp h
    obtain ⟨c, hc, rfl⟩ := mem_commonClasses_self.mp hdelta
    obtain ⟨change, hchange, rfl⟩ := List.mem_map.mp h
    obtain ⟨d, hd, e, he, hclash, rfl⟩ := DecoratorChange.mem_between_self hchange
    exact .ofClass hc hd he hclash
  · obtain ⟨pair, hpair, h⟩ := List.mem_flatMap.mp h
    obtain ⟨c, hc, o, ho, rfl⟩ := mem_operationPairs_self.mp hpair
    obtain ⟨change, hchange, rfl⟩ := List.mem_map.mp h
    obtain ⟨d, hd, e, he, hclash, rfl⟩ := DecoratorChange.mem_between_self hchange
    exact .ofMethod hc ho hd he hclash

theorem decoratorProposals_self_eq_nil_iff (model : Model) :
    (ofModels config model model).decoratorProposals = [] ↔ model.HasConsistentDecorators := by
  simp only [decoratorProposals, List.append_eq_nil_iff, List.flatMap_eq_nil_iff,
    Inference.ofClassDecorators, Inference.ofMethodDecorators, List.map_eq_nil_iff]
  constructor
  · rintro ⟨hclasses, hpairs⟩ c hc
    have hclass := hclasses _ (mem_commonClasses_self.mpr ⟨c, hc, rfl⟩)
    refine ⟨DecoratorChange.between_self_eq_nil_iff.mp hclass, ?_⟩
    intro o ho
    have hpair := hpairs _ (mem_operationPairs_self.mpr ⟨c, hc, o, ho, rfl⟩)
    exact DecoratorChange.between_self_eq_nil_iff.mp hpair
  · intro hconsistent
    constructor
    · intro d hd
      obtain ⟨c, hc, rfl⟩ := mem_commonClasses_self.mp hd
      exact DecoratorChange.between_self_eq_nil_iff.mpr (hconsistent c hc).1
    · intro pair hpair
      obtain ⟨c, hc, o, ho, rfl⟩ := mem_operationPairs_self.mp hpair
      exact DecoratorChange.between_self_eq_nil_iff.mpr ((hconsistent c hc).2 o ho)

end ModelDelta

namespace Inference

theorem offer_delta (rule : Rule) (inference : Inference) (proposal : Proposal) :
    (offer rule inference proposal).delta = inference.delta := by
  unfold offer
  split <;> rfl

theorem mem_offer {e : Emission} (h : e ∈ (offer rule inference proposal).emitted) :
    e ∈ inference.emitted ∨ e = ⟨rule, proposal⟩ := by
  unfold offer at h
  split at h
  · exact Or.inl h
  · simpa using h

theorem offer_emitted_ne_nil (rule : Rule) (inference : Inference) (proposal : Proposal) :
    (offer rule inference proposal).emitted ≠ [] := by
  unfold offer
  split
  · rename_i h
    intro hnone
    simp [isClaimed, claimed, hnone] at h
  · simp

theorem foldl_offer_emitted_eq_nil_iff (rule : Rule) (inference : Inference)
    (proposals : List Proposal) :
    (proposals.foldl (offer rule) inference).emitted = [] ↔
      inference.emitted = [] ∧ proposals = [] := by
  induction proposals generalizing inference with
  | nil => simp
  | cons proposal rest ih =>
    rw [List.foldl_cons, ih]
    simp [offer_emitted_ne_nil]

/-- Only changes of decorators have been taken, and nothing else was changed. -/
structure OnlyDecorators (delta : ModelDelta) (inference : Inference) : Prop where
  delta_eq : inference.delta = delta
  emitted : ∀ e ∈ inference.emitted, e.proposal ∈ delta.decoratorProposals

section Run

variable {delta : ModelDelta} (hdelta : delta.IsUnchanged)

theorem foldl_offer_onlyDecorators (h : inference.OnlyDecorators delta) {proposals : List Proposal}
    (hproposals : proposals ⊆ delta.decoratorProposals) :
    (proposals.foldl (offer rule) inference).OnlyDecorators delta := by
  induction proposals generalizing inference with
  | nil => exact h
  | cons proposal rest ih =>
    apply ih _ (List.subset_of_cons_subset hproposals)
    refine ⟨(offer_delta rule inference proposal).trans h.delta_eq, ?_⟩
    intro e he
    rcases mem_offer he with he | rfl
    · exact h.emitted e he
    · exact hproposals List.mem_cons_self

variable {inference : Inference} (h : inference.OnlyDecorators delta)

include hdelta h

theorem OnlyDecorators.isQuiet : inference.IsQuiet where
  delta := h.delta_eq ▸ hdelta
  matched e he := ofDecorators_matched (h.emitted e he)

theorem OnlyDecorators.proposals_eq (rule : Rule) :
    rule.proposals inference = if rule = .decorators then delta.decoratorProposals else [] := by
  split
  · rename_i hrule
    subst hrule
    rw [ModelDelta.decoratorProposals, ← h.delta_eq, ← (h.isQuiet hdelta).operationPairs_eq]
    rfl
  · rename_i hrule
    exact (h.isQuiet hdelta).isSettled.proposals_eq_nil hrule

theorem apply_onlyDecorators (rule : Rule) : (inference.apply rule).OnlyDecorators delta := by
  apply foldl_offer_onlyDecorators h
  rw [h.proposals_eq hdelta]
  split
  · exact fun _ hp => hp
  · simp

theorem apply_emitted_eq_nil_iff (rule : Rule) :
    (inference.apply rule).emitted = [] ↔
      inference.emitted = [] ∧ (rule = .decorators → delta.decoratorProposals = []) := by
  rw [apply, foldl_offer_emitted_eq_nil_iff, h.proposals_eq hdelta]
  split
  · rename_i hrule
    simp [hrule]
  · rename_i hrule
    simp [hrule]

theorem foldl_apply_onlyDecorators (rules : List Rule) :
    (rules.foldl apply inference).OnlyDecorators delta := by
  induction rules generalizing inference with
  | nil => exact h
  | cons rule rest ih => exact ih (apply_onlyDecorators hdelta h rule)

theorem foldl_apply_emitted_eq_nil_iff (rules : List Rule) :
    (rules.foldl apply inference).emitted = [] ↔
      inference.emitted = [] ∧ (.decorators ∈ rules → delta.decoratorProposals = []) := by
  induction rules generalizing inference with
  | nil => simp
  | cons rule rest ih =>
    rw [List.foldl_cons, ih (apply_onlyDecorators hdelta h rule),
      apply_emitted_eq_nil_iff hdelta h rule, List.mem_cons, or_imp, and_assoc]
    simp only [eq_comm]

end Run

theorem onlyDecorators_start (delta : ModelDelta) (config : Config) :
    OnlyDecorators delta { delta, config } :=
  ⟨rfl, by simp⟩

theorem run_unchanged_unexplained (hdelta : delta.IsUnchanged) :
    (run config delta).unexplained = [] := by
  have honly := foldl_apply_onlyDecorators hdelta (onlyDecorators_start _ config) config.ruleOrder
  rw [unexplained, run, honly.delta_eq, hdelta.openKeys]
  rfl

theorem run_unchanged_eq_nil_iff (hdelta : delta.IsUnchanged) :
    (run config delta).refactorings = [] ↔
      (.decorators ∈ config.ruleOrder → delta.decoratorProposals = []) := by
  rw [refactorings, List.map_eq_nil_iff, run,
    foldl_apply_emitted_eq_nil_iff hdelta (onlyDecorators_start _ config)]
  simp

section SameModel

variable (config : Config) {model : Model} (h : model.HasMethodBodies)

include h

theorem run_self_unexplained : (run config (.ofModels config model model)).unexplained = [] :=
  run_unchanged_unexplained config (ModelDelta.ofModels_self_isUnchanged config h)

theorem run_self_tellsClash :
    ∀ r ∈ (run config (.ofModels config model model)).refactorings, model.TellsClash r := by
  have honly := foldl_apply_onlyDecorators (ModelDelta.ofModels_self_isUnchanged config h)
    (onlyDecorators_start _ config) config.ruleOrder
  intro r hr
  obtain ⟨e, he, rfl⟩ := List.mem_map.mp hr
  exact ModelDelta.decoratorProposals_self_tellsClash (honly.emitted e he)

theorem run_self_eq_nil_iff :
    (run config (.ofModels config model model)).refactorings = [] ↔
      (.decorators ∈ config.ruleOrder → model.HasConsistentDecorators) := by
  rw [run_unchanged_eq_nil_iff config (ModelDelta.ofModels_self_isUnchanged config h),
    ModelDelta.decoratorProposals_self_eq_nil_iff]

end SameModel

end Inference

end CodeEvolution
