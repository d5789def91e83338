import CodeEvolution.Proofs.Delta.Renaming
import CodeEvolution.Proofs.Refactoring.HierarchyMoves
import CodeEvolution.Proofs.Refactoring.Reordering
/-!
# A renamed operation is told as such

Where one operation was removed and one added, under another name and with the same parameters and
body, the rule for renamed operations proposes just this pair: their bodies are aligned with ratio
one, and no threshold is above that. Once the proposal is taken both operations are explained, and
of the rules that follow only the one for decorators has anything to propose.
-/
namespace CodeEvolution

variable {more : List Emission} {config : Config}

theorem Config.operationMappingThreshold_le_one (h : config.validate = .ok ()) :
    config.operationMappingThreshold.le .one = true := by
  by_contra hle
  have hcheck : ∃ failure, checkShare "operationMappingThreshold"
      config.operationMappingThreshold = .error failure := by
    simp [checkShare, hle]
  obtain ⟨failure, hcheck⟩ := hcheck
  rw [validate, hcheck] at h
  cases hfirst : checkShare "classSimilarityThreshold" config.classSimilarityThreshold with
  | ok _ =>
    rw [hfirst] at h
    simp [bind, Except.bind] at h
  | error _ =>
    rw [hfirst] at h
    simp [bind, Except.bind] at h

namespace ModelDelta.IsExchange

variable {delta : ModelDelta} {o p : Operation} (h : delta.IsExchange o p)

include h

theorem class_cases {d : ClassDelta} (hd : d ∈ delta.commonClasses) :
    d.IsExchange o p ∨ d.IsUnchanged := by
  obtain ⟨first, others, hperm, hfirst, hothers⟩ := h.commonClasses
  rcases List.mem_cons.mp (hperm.mem_iff.mp hd) with rfl | hd
  · exact Or.inl hfirst
  · exact Or.inr (hothers d hd)

theorem matchedBy : ∀ d ∈ delta.commonClasses, d.matchedBy = .byName := by
  intro d hd
  rcases h.class_cases hd with hd | hd
  · exact hd.matchedBy
  · exact hd.matchedBy

theorem flatMap_eq_singleton {β : Type} {members : ClassDelta → List β} {x : β}
    (hone : ∀ d : ClassDelta, d.IsExchange o p → members d = [x])
    (hnone : ∀ d : ClassDelta, d.IsUnchanged → members d = []) :
    delta.commonClasses.flatMap members = [x] := by
  obtain ⟨d, others, hperm, hd, hothers⟩ := h.commonClasses
  have hothers : others.flatMap members = [] :=
    List.flatMap_eq_nil_iff.mpr fun d hd => hnone d (hothers d hd)
  have hflat := hperm.flatMap_right members
  rw [List.flatMap_cons, hone d hd, hothers, List.append_nil] at hflat
  exact List.perm_singleton.mp hflat

theorem removedOperations : delta.removedOperations = [o] := by
  rw [ModelDelta.removedOperations, h.removedClasses]
  exact h.flatMap_eq_singleton (fun _ hd => hd.removedOperations) fun _ hd => hd.removedOperations

theorem addedOperations : delta.addedOperations = [p] := by
  rw [ModelDelta.addedOperations, h.addedClasses]
  exact h.flatMap_eq_singleton (fun _ hd => hd.addedOperations) fun _ hd => hd.addedOperations

theorem removedAttributes : delta.removedAttributes = [] := by
  rw [ModelDelta.removedAttributes, h.removedClasses, List.flatMap_nil, List.nil_append,
    List.flatMap_eq_nil_iff]
  intro d hd
  exact (h.class_cases hd).elim (·.removedAttributes) (·.removedAttributes)

theorem addedAttributes : delta.addedAttributes = [] := by
  rw [ModelDelta.addedAttributes, h.addedClasses, List.flatMap_nil, List.nil_append,
    List.flatMap_eq_nil_iff]
  intro d hd
  exact (h.class_cases hd).elim (·.addedAttributes) (·.addedAttributes)

theorem operationPairs : ∀ pair ∈ delta.operationPairs, pair.KeepsVariables := by
  intro pair hpair
  obtain ⟨d, hd, hpair⟩ := List.mem_flatMap.mp hpair
  rcases h.class_cases hd with hd | hd
  · exact (hd.commonOperations pair hpair).keepsVariables
  · exact (hd.commonOperations pair hpair).keepsVariables

theorem openKeys : Inference.openKeys delta = [.ofRemovedOperation o, .ofAddedOperation p] := by
  simp [Inference.openKeys, h.removedClasses, h.addedClasses, h.removedOperations,
    h.addedOperations, h.removedAttributes, h.addedAttributes]

end ModelDelta.IsExchange

namespace Inference

section Settled

variable {delta : ModelDelta} {config : Config} {emitted : List Emission}

theorem IsSettled.append (h : IsSettled { delta, config, emitted })
    (hmore : ∀ e ∈ more, e.proposal.matched = none) :
    IsSettled { delta, config, emitted := emitted ++ more } := by
  have hclaimed : ∀ key, isClaimed { delta, config, emitted } key = true →
      isClaimed { delta, config, emitted := emitted ++ more } key = true := by
    intro key
    rw [isClaimed_iff, isClaimed_iff, consumed_append]
    exact Or.inl
  have hpairs : Inference.operationPairs { delta, config, emitted := emitted ++ more } =
      Inference.operationPairs { delta, config, emitted } := by
    simp only [Inference.operationPairs, List.filterMap_append,
      List.filterMap_eq_nil_iff.mpr hmore, List.append_nil]
  exact
    { matchedBy := h.matchedBy
      removedOperations := fun o ho => hclaimed _ (h.removedOperations o ho)
      addedOperations := fun o ho => hclaimed _ (h.addedOperations o ho)
      removedAttributes := h.removedAttributes
      addedAttributes := h.addedAttributes
      operationPairs := by
        rw [hpairs]
        exact h.operationPairs }

/-- Once nothing but changes of decorators is left to explain, nothing else is taken. -/
theorem Account.of_isSettled {explained final : Set DeltaKey} {result : List Emission}
    {rules : List Rule} (h : Account delta config explained emitted rules result final)
    (hsettled : IsSettled { delta, config, emitted }) :
    ∃ more, result = emitted ++ more ∧ ∀ e ∈ more, e.rule = .decorators := by
  induction h with
  | done explained emitted => exact ⟨[], by simp⟩
  | @rule explained between final emitted result rule rest taken pass later ih =>
    by_cases hrule : rule = .decorators
    · subst hrule
      have hmatched : ∀ e ∈ taken.map (Emission.mk .decorators), e.proposal.matched = none := by
        intro e he
        obtain ⟨proposal, hproposal, rfl⟩ := List.mem_map.mp he
        exact ofDecorators_matched (pass.sublist.subset hproposal)
      obtain ⟨more, hresult, hmore⟩ := ih (hsettled.append hmatched)
      refine ⟨taken.map (Emission.mk .decorators) ++ more, by simp [hresult], ?_⟩
      intro e he
      rcases List.mem_append.mp he with he | he
      · obtain ⟨proposal, -, rfl⟩ := List.mem_map.mp he
        rfl
      · exact hmore e he
    · have hnone := pass.sublist
      rw [hsettled.proposals_eq_nil hrule, List.sublist_nil] at hnone
      rw [hnone, List.map_nil, List.append_nil] at ih
      exact ih hsettled

end Settled

section Exchange

variable {delta : ModelDelta} {o p : Operation} (h : delta.IsExchange o p) (config : Config)

def renamed (delta : ModelDelta) (config : Config) (o p : Operation) : Inference :=
  let pair := pairUp { delta, config } o p
  { delta, config, emitted := [⟨.renameOperation, ofOperationPair .rename pair⟩] }

include h

theorem renameOperationProposals_exchange (hname : p.name ≠ o.name)
    (hparameters : o.hasSameParameters p = true)
    (hratio : config.operationMappingThreshold.le
      (pairUp { delta, config } o p).alignment.ratio = true) :
    renameOperationProposals { delta, config } =
      [ofOperationPair .rename (pairUp { delta, config } o p)] := by
  have hone : ∀ d : ClassDelta, d.IsExchange o p →
      alignedPairs { delta, config } (renamePairs d) = [pairUp { delta, config } o p] := by
    intro d hd
    simp [alignedPairs, renamePairs, hd.removedOperations, hd.addedOperations, hname,
      hparameters, isClaimed, claimed]
  have hnone : ∀ d : ClassDelta, d.IsUnchanged →
      alignedPairs { delta, config } (renamePairs d) = [] := by
    intro d hd
    simp [alignedPairs, renamePairs, hd.removedOperations]
  rw [renameOperationProposals, h.flatMap_eq_singleton hone hnone]
  simp [hratio]

theorem renamed_isSettled (hpair : (pairUp { delta, config } o p).KeepsVariables) :
    (renamed delta config o p).IsSettled where
  matchedBy := h.matchedBy
  removedOperations b hb := by
    obtain rfl := List.mem_singleton.mp (h.removedOperations ▸ hb)
    simp [renamed, isClaimed, claimed, ofOperationPair, pairUp, OperationPair.ofOperations]
  addedOperations a ha := by
    obtain rfl := List.mem_singleton.mp (h.addedOperations ▸ ha)
    simp [renamed, isClaimed, claimed, ofOperationPair, pairUp, OperationPair.ofOperations]
  removedAttributes := h.removedAttributes
  addedAttributes := h.addedAttributes
  operationPairs pair hmem := by
    rcases List.mem_append.mp hmem with hmem | hmem
    · exact h.operationPairs pair hmem
    · obtain rfl : pair = pairUp { delta, config } o p := by
        simpa [renamed, ofOperationPair] using hmem
      exact hpair

theorem run_exchange {later : List Rule}
    (horder : config.ruleOrder = .classRenameMove :: .renameOperation :: later)
    (hproposals : renameOperationProposals { delta, config } =
      [ofOperationPair .rename (pairUp { delta, config } o p)])
    (hpair : (pairUp { delta, config } o p).KeepsVariables) :
    ∃ more, (run config delta).emitted = (renamed delta config o p).emitted ++ more ∧
      ∀ e ∈ more, e.rule = .decorators := by
  have hclasses : apply { delta, config } .classRenameMove = { delta, config } := by
    have hnone : Rule.classRenameMove.proposals { delta, config } = [] :=
      classProposals_eq_nil h.matchedBy
    rw [apply, hnone]
    rfl
  have hrename : apply { delta, config } .renameOperation = renamed delta config o p := by
    have hone : Rule.renameOperation.proposals { delta, config } = _ := hproposals
    simp [apply, hone, offer, renamed, isClaimed, claimed]
  have hrun : run config delta = later.foldl apply (renamed delta config o p) := by
    rw [run, horder, List.foldl_cons, hclasses, List.foldl_cons, hrename]
  rw [hrun]
  exact (foldl_apply_account _ _).2.of_isSettled (renamed_isSettled h config hpair)

theorem run_exchange_unexplained
    (hemitted : (run config delta).emitted = (renamed delta config o p).emitted ++ more) :
    (run config delta).unexplained = [] := by
  rw [List.eq_nil_iff_forall_not_mem]
  intro key hkey
  obtain ⟨hopen, hfree⟩ := mem_unexplained.mp hkey
  rw [h.openKeys] at hopen
  rw [hemitted] at hfree
  exact hfree ⟨_, List.mem_append_left _ List.mem_cons_self, Or.inl hopen⟩

end Exchange

theorem filter_refactorings_of_emitted {delta : ModelDelta} {first : List Emission}
    (hemitted : (run config delta).emitted = first ++ more)
    (hmore : ∀ e ∈ more, e.rule = .decorators) :
    (run config delta).refactorings.filter (fun r => r.teller != .decorators) =
      (first.map fun e => e.proposal.refactoring).filter fun r => r.teller != .decorators := by
  have hdecorators : ∀ e ∈ more, e.proposal.refactoring.teller = .decorators := by
    intro e he
    rw [run_teller (hemitted ▸ List.mem_append_right _ he), hmore e he]
  have hnone : (more.map fun e => e.proposal.refactoring).filter
      (fun r => r.teller != .decorators) = [] := by
    rw [List.filter_eq_nil_iff]
    intro r hr
    obtain ⟨e, he, rfl⟩ := List.mem_map.mp hr
    simp [hdecorators e he]
  rw [refactorings, hemitted, List.map_append, List.filter_append, hnone, List.append_nil]

theorem pairUp_renamed (delta : ModelDelta) (config : Config) {o : Operation}
    (hbody : o.body.IsOfMethod) (name : String) :
    (pairUp { delta, config } o (o.renamed name)).alignment.ratio = .one ∧
      (pairUp { delta, config } o (o.renamed name)).KeepsVariables := by
  have hself := OperationPair.ofOperations_isReflexive config
    (Language.receiversOfPath o.sourceFile) o
  have hunchanged := OperationPair.ofOperations_isUnchanged config
    (Language.receiversOfPath o.sourceFile) hbody
  exact ⟨Comparison.align_ratio_eq_one hself hbody, hunchanged.removed,
    hunchanged.added, hunchanged.renamed⟩

/-- If an operation that is the only one of its signature in its class gets a name that no
operation of the class bears, and nothing else is changed, then a run of the rules in their default
order with valid thresholds tells that it was renamed and, changes of decorators apart, nothing
else, and leaves nothing unexplained. -/
theorem run_renameOperation_told {config : Config} (hvalid : config.validate = .ok ())
    (horder : config.ruleOrder = Rule.defaultOrder) {model : Model}
    (hbodies : model.HasMethodBodies) {position operation : Nat} {c : ModelClass} {o : Operation}
    (hc : model.classes[position]? = some c) (ho : c.operations[operation]? = some o)
    (hunique : (c.operations.map Operation.signatureKey).count o.signatureKey = 1)
    {name : String} (hfresh : ∀ p ∈ c.operations, p.name ≠ name) :
    let outcome := run config
      (.ofModels config model (model.renameOperation position operation name))
    outcome.refactorings.filter (fun r => r.teller != .decorators) =
        [.ofOperation .rename (.of o) (.of (o.renamed name))] ∧
      outcome.unexplained = [] := by
  have hdelta := ModelDelta.ofModels_renamed_isExchange config hbodies hc ho hunique hfresh
  generalize ModelDelta.ofModels config model
    (model.renameOperation position operation name) = delta at hdelta
  have hmem := List.mem_of_getElem? ho
  have hbody := hbodies c (List.mem_of_getElem? hc) o hmem
  obtain ⟨hratio, hpair⟩ := pairUp_renamed delta config hbody name
  have hproposals := renameOperationProposals_exchange hdelta config (hfresh o hmem).symm
    (o.hasSameParameters_renamed name) (hratio ▸ Config.operationMappingThreshold_le_one hvalid)
  obtain ⟨more, hemitted, hmore⟩ := run_exchange hdelta config horder hproposals hpair
  refine ⟨?_, run_exchange_unexplained hdelta config hemitted⟩
  rw [filter_refactorings_of_emitted hemitted hmore]
  rfl

end Inference

namespace OneOfManyRenamed

open Samples (unplaced)
open ReversedDeclarations

/-- Two classes of one name; the first has two operations of one signature and a third one. -/
def file : CompilationUnit where
  path := "Shapes.java"
  language := .java
  root := unplaced .compilationUnit
    [type "Point" [field "x", method "left" "x", method "left" "y", method "top" "y"],
      type "Point" [method "left" "x"]]

def model : Model :=
  .ofUnit file

def changed : Model :=
  model.renameOperation 0 2 "bottom"

end OneOfManyRenamed

theorem Inference.run_renameOperation_told_among_many :
    let outcome := run {} (.ofModels {} OneOfManyRenamed.model OneOfManyRenamed.changed)
    ReversedDeclarations.outline OneOfManyRenamed.model =
        [("Point", ["left", "left", "top"], ["x"]), ("Point", ["left"], [])] ∧
      ReversedDeclarations.outline OneOfManyRenamed.changed =
        [("Point", ["left", "left", "bottom"], ["x"]), ("Point", ["left"], [])] ∧
      outcome.refactorings.filter (fun r => r.teller != .decorators) =
        [.ofOperation .rename ⟨"Point", "top", "top() : int", "Shapes.java", 1⟩
          ⟨"Point", "bottom", "bottom() : int", "Shapes.java", 1⟩] ∧
      outcome.unexplained = [] := by
  have hplace : ∃ c, OneOfManyRenamed.model.classes[0]? = some c := by
    rw [← Option.isSome_iff_exists]
    decide +kernel
  obtain ⟨c, hc⟩ := hplace
  have hclass : ∀ c ∈ OneOfManyRenamed.model.classes[0]?, c.operations[2]?.isSome = true ∧
      (∀ p ∈ c.operations, p.name ≠ "bottom") ∧ ∀ o ∈ c.operations[2]?,
        (c.operations.map Operation.signatureKey).count o.signatureKey = 1 ∧
        OperationRef.of o = ⟨"Point", "top", "top() : int", "Shapes.java", 1⟩ ∧
        OperationRef.of (o.renamed "bottom") =
          ⟨"Point", "bottom", "bottom() : int", "Shapes.java", 1⟩ := by
    decide +kernel
  obtain ⟨hsome, hfresh, hoperation⟩ := hclass c hc
  obtain ⟨o, ho⟩ := Option.isSome_iff_exists.mp hsome
  obtain ⟨hunique, hold, hnew⟩ := hoperation o ho
  rw [← hold, ← hnew]
  refine ⟨by decide +kernel, by decide +kernel, ?_⟩
  exact run_renameOperation_told (by decide +kernel) rfl (Model.ofUnit_hasMethodBodies _) hc ho
    hunique hfresh

end CodeEvolution
