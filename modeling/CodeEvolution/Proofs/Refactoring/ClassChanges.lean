import CodeEvolution.Proofs.Delta.Exactness
import CodeEvolution.Proofs.Refactoring.FirstMatch
import CodeEvolution.Proofs.Refactoring.Tellers
/-!
# Every pair of similar classes is told once

Classes are paired by similarity only where no class of the other side is left with the qualified
name, so the two differ in their name or in their package and the rule for classes has something
to say of them. It proposes on the grounds of the difference alone, and each proposal requires just
the pair of qualified names. So the first time it is tried it takes the first proposal for every
pair of names, and whenever it is tried again all are explained.
-/
namespace CodeEvolution

namespace ModelDelta

theorem qualifiedName_ne_of_similar {config : Config} {before after : Model} {d : ClassDelta}
    (hd : d ∈ (ofModels config before after).commonClasses)
    (hsimilar : d.isRenamedOrMoved = true) : d.before.qualifiedName ≠ d.after.qualifiedName := by
  obtain ⟨pair, hpair, rfl⟩ := List.mem_map.mp ((commonClasses_perm config before after).subset hd)
  rcases List.mem_append.mp hpair with hnamed | hpair
  · obtain ⟨p, -, rfl⟩ := List.mem_map.mp hnamed
    simp [ClassDelta.ofClasses, ClassDelta.isRenamedOrMoved] at hsimilar
  · obtain ⟨position, -, hfound⟩ := List.mem_filterMap.mp hpair
    unfold similarClasses? at hfound
    split at hfound
    · rename_i b a hb ha
      obtain rfl := Option.some.inj hfound
      have hapart := Partition.of_apart
        (fun b a : ModelClass => b.qualifiedName == a.qualifiedName) before.classes after.classes
        b (List.mem_of_getElem? hb) a (List.mem_of_getElem? ha)
      simpa [ClassDelta.ofClasses] using hapart
    · simp at hfound

end ModelDelta

theorem ClassChange.between?_isSome {before after : ModelClass}
    (h : ¬(before.name = after.name ∧ before.package = after.package)) :
    (ClassChange.between? before after).isSome = true := by
  unfold ClassChange.between?
  split <;> simp_all

def Refactoring.pairedClasses? : Refactoring → Option (String × String)
  | .ofClass _ before after => some (before.name, after.name)
  | _ => none

def ClassDelta.names (d : ClassDelta) : String × String :=
  (d.before.qualifiedName, d.after.qualifiedName)

def ModelDelta.similarClasses (delta : ModelDelta) : List ClassDelta :=
  delta.commonClasses.filter ClassDelta.isRenamedOrMoved

namespace Inference

section Pass

variable {α : Type} [BEq α] [LawfulBEq α] (key : α → DeltaKey) (label : Proposal → α)
  {explained final : Set DeltaKey} {proposals taken : List Proposal}

open Classical in
/-- Of proposals that each require one delta and claim nothing else, the first for every delta that
is not explained yet is taken. -/
theorem Pass.labels_eq (hkey : Function.Injective key)
    (h : Pass explained proposals taken final)
    (hproposals : ∀ p ∈ proposals, p.required = [key (label p)] ∧ p.alsoClaimed = []) :
    taken.map label =
      (firstOccurrences (proposals.map label)).filter fun name => key name ∉ explained := by
  induction h with
  | done explained => rfl
  | @take explained final proposal rest taken free later ih =>
    obtain ⟨hrequired, hclaimed⟩ := hproposals proposal List.mem_cons_self
    have hfree : key (label proposal) ∉ explained := free _ (by simp [hrequired])
    rw [List.map_cons, List.map_cons, firstOccurrences,
      List.filter_cons_of_pos (by simpa using hfree), List.filter_filter,
      ih fun p hp => hproposals p (List.mem_cons_of_mem _ hp)]
    congr 1
    apply List.filter_congr
    intro name _
    by_cases hname : name = label proposal
    · simp [hname, Proposal.Consumes, hrequired]
    · simp [hname, Proposal.Consumes, hrequired, hclaimed, hkey.eq_iff]
  | @skip explained final proposal rest taken clash later ih =>
    obtain ⟨hrequired, -⟩ := hproposals proposal List.mem_cons_self
    have hexplained : key (label proposal) ∈ explained := by simpa [hrequired] using clash
    rw [List.map_cons, firstOccurrences, List.filter_cons_of_neg (by simpa using hexplained),
      List.filter_filter, ih fun p hp => hproposals p (List.mem_cons_of_mem _ hp)]
    apply List.filter_congr
    intro name _
    by_cases hname : name = label proposal
    · simp [hname, hexplained]
    · simp [hname]

end Pass

section Classes

variable {inference : Inference} {proposal : Proposal}

theorem mem_classProposals (h : proposal ∈ inference.classProposals) :
    ∃ d ∈ inference.delta.similarClasses, ∃ change,
      ClassChange.between? d.before d.after = some change ∧
      proposal.required = [.classPair d.names.1 d.names.2] ∧ proposal.alsoClaimed = [] ∧
      proposal.refactoring = .ofClass change (.of d.before) (.of d.after) := by
  obtain ⟨d, hd, hproposal⟩ := List.mem_filterMap.mp h
  obtain ⟨change, hchange, rfl⟩ := Option.map_eq_some_iff.mp hproposal
  exact ⟨d, hd, change, hchange, rfl, rfl, rfl⟩

def classNames (proposal : Proposal) : String × String :=
  proposal.refactoring.pairedClasses?.getD ("", "")

theorem classProposals_required (h : proposal ∈ inference.classProposals) :
    proposal.required = [.classPair (classNames proposal).1 (classNames proposal).2] ∧
      proposal.alsoClaimed = [] ∧
      proposal.refactoring.pairedClasses? = some (classNames proposal) := by
  obtain ⟨d, -, change, -, hrequired, hclaimed, htold⟩ := mem_classProposals h
  simp [classNames, htold, Refactoring.pairedClasses?, hrequired, hclaimed, ClassRef.of,
    ClassDelta.names]

theorem classProposals_names
    (hdiffer : ∀ d ∈ inference.delta.similarClasses, (ofClassPair? d).isSome = true) :
    inference.classProposals.map classNames =
      inference.delta.similarClasses.map ClassDelta.names := by
  have hnames : ∀ d ∈ inference.delta.similarClasses,
      (ofClassPair? d).map classNames = some d.names := by
    intro d hd
    obtain ⟨proposal, hproposal⟩ := Option.isSome_iff_exists.mp (hdiffer d hd)
    obtain ⟨change, -, rfl⟩ := Option.map_eq_some_iff.mp hproposal
    rw [hproposal]
    rfl
  rw [classProposals, List.map_filterMap]
  refine (List.filterMap_congr hnames).trans ?_
  rw [List.filterMap_eq_map']

theorem pairedClasses?_eq_none {rule : Rule} (h : proposal ∈ rule.proposals inference)
    (hrule : rule ≠ .classRenameMove) : proposal.refactoring.pairedClasses? = none := by
  have hteller := Rule.proposals_teller h
  cases htold : proposal.refactoring with
  | ofClass => exact absurd (by rw [← hteller, htold]; rfl) hrule
  | _ => rfl

end Classes

section Run

variable {config : Config} {delta : ModelDelta} {e : Emission}

theorem run_proposed (he : e ∈ (run config delta).emitted) :
    ∃ old, e.proposal ∈ e.rule.proposals { delta, config, emitted := old } := by
  simpa using (run_account config delta).proposed e he

/-- The run around the first time that the rule for classes is tried. After that it takes nothing,
as what it proposes does not depend on what was taken before. -/
theorem run_around_classes (delta : ModelDelta) (hrule : .classRenameMove ∈ config.ruleOrder) :
    ∃ before taken after between,
      (run config delta).emitted = before ++ taken.map (Emission.mk .classRenameMove) ++ after ∧
      (∀ e ∈ before ++ after, e.rule ≠ .classRenameMove) ∧
      Pass (consumed before) (classProposals { delta, config }) taken between := by
  obtain ⟨earlier, later, horder, hfirst⟩ := List.eq_append_cons_of_mem hrule
  have haccount := run_account config delta
  rw [horder] at haccount
  obtain ⟨before, taken, after, between, hresult, hbefore, -, -, hpass⟩ := haccount.at_rule
  rw [Set.empty_union, List.nil_append] at hpass
  rw [List.nil_append] at hresult
  refine ⟨before, taken, after, between, hresult, ?_, hpass⟩
  intro e he hagain
  rcases List.mem_append.mp he with he | he
  · exact hfirst (hagain ▸ hbefore e he)
  have hmem : e ∈ (run config delta).emitted := by
    rw [hresult]
    exact List.mem_append_right _ he
  obtain ⟨old, hproposed⟩ := run_proposed hmem
  rw [hagain] at hproposed
  have hspares := run_pairwise_spares config delta
  rw [hresult] at hspares
  have hfree : ∀ f ∈ before ++ taken.map (Emission.mk .classRenameMove), f.Spares e :=
    fun f hf => (List.pairwise_append.mp hspares).2.2 f hf e he
  rcases hpass.taken_or_blocked e.proposal hproposed with htaken | ⟨key, hkey, hexplained⟩
  · have hkey : DeltaKey.classPair (classNames e.proposal).1 (classNames e.proposal).2 ∈
        e.proposal.required := by simp [(classProposals_required hproposed).1]
    exact hfree ⟨.classRenameMove, e.proposal⟩
      (List.mem_append_right _ (List.mem_map_of_mem htaken)) _ hkey (Or.inl hkey)
  · rw [hpass.final_eq .classRenameMove, ← consumed_append] at hexplained
    obtain ⟨f, hf, hconsumes⟩ := hexplained
    exact hfree f hf key hkey hconsumes

theorem run_pairedClasses (hrule : .classRenameMove ∈ config.ruleOrder)
    (hdiffer : ∀ d ∈ delta.similarClasses, (ofClassPair? d).isSome = true) :
    (run config delta).refactorings.filterMap Refactoring.pairedClasses? =
      firstOccurrences (delta.similarClasses.map ClassDelta.names) := by
  classical
  obtain ⟨before, taken, after, between, hresult, hother, hpass⟩ := run_around_classes delta hrule
  have hmem : ∀ e ∈ before ++ after, e ∈ (run config delta).emitted := by
    intro e he
    rw [hresult]
    simp only [List.mem_append] at he ⊢
    tauto
  have hsilent : ∀ e ∈ before ++ after, e.proposal.refactoring.pairedClasses? = none := by
    intro e he
    obtain ⟨old, hproposed⟩ := run_proposed (hmem e he)
    exact pairedClasses?_eq_none hproposed (hother e he)
  have hunexplained : ∀ names : String × String,
      DeltaKey.classPair names.1 names.2 ∉ consumed before := by
    rintro names ⟨e, he, hconsumes⟩
    have hrule := run_mem_explainers (hmem e (List.mem_append_left _ he)) hconsumes
    exact hother e (List.mem_append_left _ he) (by simpa [DeltaKey.explainers] using hrule)
  have htaken : taken.map classNames =
      firstOccurrences (delta.similarClasses.map ClassDelta.names) := by
    rw [hpass.labels_eq (fun names : String × String => .classPair names.1 names.2) classNames
      (fun _ _ h => Prod.ext (by injection h) (by injection h))
      (fun p hp => ⟨(classProposals_required hp).1, (classProposals_required hp).2.1⟩),
      classProposals_names hdiffer, List.filter_eq_self.mpr]
    exact fun names _ => decide_eq_true (hunexplained names)
  have htold : taken.filterMap (fun p => p.refactoring.pairedClasses?) = taken.map classNames := by
    rw [← List.filterMap_eq_map']
    exact List.filterMap_congr fun p hp => (classProposals_required (hpass.sublist.subset hp)).2.2
  have hbefore : before.filterMap (fun e => e.proposal.refactoring.pairedClasses?) = [] :=
    List.filterMap_eq_nil_iff.mpr fun e he => hsilent e (List.mem_append_left _ he)
  have hafter : after.filterMap (fun e => e.proposal.refactoring.pairedClasses?) = [] :=
    List.filterMap_eq_nil_iff.mpr fun e he => hsilent e (List.mem_append_right _ he)
  rw [refactorings, List.filterMap_map, hresult, List.filterMap_append, List.filterMap_append,
    List.filterMap_map]
  simp only [Function.comp_def]
  rw [hbefore, hafter, List.nil_append, List.append_nil, htold, htaken]

theorem run_ofClass {change : ClassChange} {b a : ClassRef}
    (h : .ofClass change b a ∈ (run config delta).refactorings) :
    ∃ d ∈ delta.similarClasses, ClassChange.between? d.before d.after = some change ∧
      b = .of d.before ∧ a = .of d.after := by
  obtain ⟨e, he, htold⟩ := List.mem_map.mp h
  obtain ⟨old, hproposed⟩ := run_proposed he
  have hrule : e.rule = .classRenameMove := by
    rw [← Rule.proposals_teller hproposed, htold]
    rfl
  rw [hrule] at hproposed
  obtain ⟨d, hd, change, hchange, -, -, hproposal⟩ := mem_classProposals hproposed
  rw [hproposal] at htold
  injection htold with hchanges hb ha
  subst hchanges hb ha
  exact ⟨d, hd, hchange, rfl, rfl⟩

end Run

/-- Two classes that were paired by similarity differ in their name or in their package, so the
rule for classes has a proposal for each such pair. If the rule is in the order, the class
refactorings of a run are one for every pair of qualified names among these pairs, in the order in
which the names come first, and each tells how the two classes of such a pair differ. -/
theorem run_tells_similar_classes (config : Config) (before after : Model) :
    let delta := ModelDelta.ofModels config before after
    let told := (run config delta).refactorings
    (∀ d ∈ delta.similarClasses,
      ¬(d.before.name = d.after.name ∧ d.before.package = d.after.package) ∧
        (ofClassPair? d).isSome = true) ∧
    (.classRenameMove ∈ config.ruleOrder →
      told.filterMap Refactoring.pairedClasses? =
          firstOccurrences (delta.similarClasses.map ClassDelta.names) ∧
        ∀ change b a, .ofClass change b a ∈ told →
          ∃ d ∈ delta.similarClasses, ClassChange.between? d.before d.after = some change ∧
            b = .of d.before ∧ a = .of d.after) := by
  intro delta told
  have hdiffer : ∀ d ∈ delta.similarClasses,
      ¬(d.before.name = d.after.name ∧ d.before.package = d.after.package) := by
    rintro d hd ⟨hname, hpackage⟩
    obtain ⟨hcommon, hsimilar⟩ := List.mem_filter.mp hd
    apply ModelDelta.qualifiedName_ne_of_similar hcommon hsimilar
    rw [ModelClass.qualifiedName, ModelClass.qualifiedName, hname, hpackage]
  have hproposed : ∀ d ∈ delta.similarClasses, (ofClassPair? d).isSome = true := by
    intro d hd
    rw [ofClassPair?, Option.isSome_map]
    exact ClassChange.between?_isSome (hdiffer d hd)
  refine ⟨fun d hd => ⟨hdiffer d hd, hproposed d hd⟩, fun hrule => ⟨?_, ?_⟩⟩
  · exact run_pairedClasses hrule hproposed
  · exact fun change b a h => run_ofClass h

end Inference

namespace MovedClass

def pointIn (package : String) : Model where
  classes := [
    { name := "Point"
      package
      sourceFile := "point.py"
      language := .python
      visibility := .publicAccess
      traits := {}
      supertypes := []
      attributes := [
        { name := "x"
          className := Text.qualified package "Point"
          type := .untyped
          visibility := .publicAccess
          isStatic := false
          isFinal := false
          declaration :=
            { name := "x"
              role := .memberAttribute
              scope := ⟨"point.py", 0, 20⟩
              span := ⟨1, 4, 1, 9, 17, 22⟩ } }]
      operations := []
      decorators := []
      comments := []
      span := ⟨0, 0, 1, 9, 0, 22⟩ }]

end MovedClass

/-- A class that went to another package is told once. -/
theorem Inference.run_tells_similar_classes_moved :
    Rule.classRenameMove ∈ ({} : Config).ruleOrder ∧
      (Inference.run {} (ModelDelta.ofModels {} (MovedClass.pointIn "old")
        (MovedClass.pointIn "new"))).refactorings.filterMap Refactoring.pairedClasses? =
        [("old.Point", "new.Point")] := by
  have hrule : Rule.classRenameMove ∈ ({} : Config).ruleOrder := by decide
  refine ⟨hrule, ?_⟩
  rw [((Inference.run_tells_similar_classes {} (MovedClass.pointIn "old")
    (MovedClass.pointIn "new")).2 hrule).1]
  decide +kernel

end CodeEvolution
