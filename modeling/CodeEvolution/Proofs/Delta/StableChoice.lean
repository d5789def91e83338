import CodeEvolution.Proofs.Delta.Similarity
import CodeEvolution.Proofs.Samples
/-!
# No two similar classes are passed over

Pairs of similar classes are chosen from the most similar down. A pair that is passed over shares
a class with one that was chosen before it, so no two classes would both rather be paired with each
other. A lower threshold puts further pairs behind those that reach a higher one, and a choice is
never taken back, so the pairs chosen under the higher threshold come first under the lower one.
-/
namespace CodeEvolution

variable {pair : SimilarPair}

namespace OneToOne

variable {β : Type} {left right : β → Nat}

theorem takeAll_prefix (taken links : List β) : taken <+: takeAll left right taken links := by
  induction links generalizing taken with
  | nil => exact List.prefix_rfl
  | cons link rest ih =>
    refine List.IsPrefix.trans ?_ (ih (takeFree left right taken link))
    obtain ⟨he, -⟩ | ⟨he, -⟩ := takeFree_cases left right taken link
    · exact he.symm ▸ List.prefix_rfl
    · exact he.symm ▸ List.prefix_append taken [link]

theorem takeAll_prefix_of_prefix {taken first all : List β} (h : first <+: all) :
    takeAll left right taken first <+: takeAll left right taken all := by
  obtain ⟨rest, rfl⟩ := h
  rw [takeAll, takeAll, List.foldl_append]
  exact takeAll_prefix _ rest

end OneToOne

/-- What holds of a member holds of all before it: those of which it holds come first. -/
theorem filter_prefix_of_pairwise {α : Type} {p : α → Bool} {items : List α}
    (h : items.Pairwise fun a b => p b = true → p a = true) : items.filter p <+: items := by
  induction items with
  | nil => exact List.prefix_rfl
  | cons first rest ih =>
    obtain ⟨hfirst, hrest⟩ := List.pairwise_cons.mp h
    by_cases hp : p first = true
    · rw [List.filter_cons_of_pos hp]
      exact List.prefix_cons_inj first |>.mpr (ih hrest)
    · have hnone : rest.filter p = [] :=
        List.filter_eq_nil_iff.mpr fun b hb hpb => hp (hfirst b hb hpb)
      rw [List.filter_cons_of_neg hp, hnone]
      exact List.nil_prefix

namespace SimilarPair

open OneToOne

variable {threshold lower : Binary64} {befores afters : List ModelClass}

theorem Preferred.asymm {x y : SimilarPair} (hxy : x.Preferred y) (hyx : y.Preferred x) :
    False := by
  have hfirst := hxy.2 hyx.1
  have hsecond := hyx.2 hxy.1
  simp only [Earlier] at hfirst hsecond
  omega

theorem mem_ranked :
    pair ∈ ranked threshold befores afters ↔ pair ∈ candidates threshold befores afters :=
  List.mem_mergeSort

theorem nodup_ranked (threshold : Binary64) (befores afters : List ModelClass) :
    (ranked threshold befores afters).Nodup :=
  (ranked_pairwise threshold befores afters).imp fun h => by
    rintro rfl
    exact h.asymm h

/-- The pairs that reach the higher threshold are the same, and in the same order, among those
that reach the lower one. -/
theorem ranked_eq_filter (h : lower.le threshold = true) (befores afters : List ModelClass) :
    ranked threshold befores afters =
      (ranked lower befores afters).filter fun pair => threshold.le pair.score := by
  have hlower := (nodup_ranked lower befores afters).filter fun pair => threshold.le pair.score
  have hsame : List.Perm (ranked threshold befores afters)
      ((ranked lower befores afters).filter fun pair => threshold.le pair.score) := by
    rw [List.perm_ext_iff_of_nodup (nodup_ranked threshold befores afters) hlower]
    intro pair
    rw [List.mem_filter, mem_ranked, mem_ranked, mem_candidates, mem_candidates]
    constructor
    · rintro ⟨b, a, hb, ha, hscore, hkind, hpositive, hreached⟩
      exact ⟨⟨b, a, hb, ha, hscore, hkind, hpositive, Binary64.le_trans h hreached⟩, hreached⟩
    · rintro ⟨⟨b, a, hb, ha, hscore, hkind, hpositive, -⟩, hreached⟩
      exact ⟨b, a, hb, ha, hscore, hkind, hpositive, hreached⟩
  refine hsame.eq_of_pairwise ?_ (ranked_pairwise threshold befores afters)
    ((ranked_pairwise lower befores afters).filter _)
  exact fun x y _ _ hxy hyx => (hxy.asymm hyx).elim

theorem choose_prefix (h : lower.le threshold = true) (befores afters : List ModelClass) :
    choose threshold befores afters <+: choose lower befores afters := by
  have hranked : ranked threshold befores afters <+: ranked lower befores afters := by
    rw [ranked_eq_filter h]
    apply filter_prefix_of_pairwise
    refine (ranked_pairwise lower befores afters).imp ?_
    exact fun hpreferred hreached => Binary64.le_trans hreached hpreferred.1
  rw [choose_eq, choose_eq]
  exact takeAll_prefix_of_prefix hranked

/-- Two classes of one sort, by their positions, with the similarity that they have: it is
positive and reaches the threshold. -/
def IsEligible (threshold : Binary64) (befores afters : List ModelClass) (pair : SimilarPair) :
    Prop :=
  ∃ b a, befores[pair.before]? = some b ∧ afters[pair.after]? = some a ∧
    pair.score = jaccard b.memberKeys a.memberKeys ∧ b.traits.isModule = a.traits.isModule ∧
    Binary64.zero.lt pair.score = true ∧ threshold.le pair.score = true

/-- No class is in two pairs, every pair is eligible, and an eligible pair that is not there
shares a class with one that is there and preferred to it. -/
structure IsStable (threshold : Binary64) (befores afters : List ModelClass)
    (chosen : List SimilarPair) : Prop where
  befores_nodup : (chosen.map SimilarPair.before).Nodup
  afters_nodup : (chosen.map SimilarPair.after).Nodup
  eligible : ∀ pair ∈ chosen, pair.IsEligible threshold befores afters
  unblocked : ∀ pair, pair.IsEligible threshold befores afters → pair ∉ chosen →
    ∃ other ∈ chosen, (other.before = pair.before ∨ other.after = pair.after) ∧ other.Preferred pair

theorem eligible_of_mem_choose (h : pair ∈ choose threshold befores afters) :
    pair.IsEligible threshold befores afters := by
  rw [choose_eq] at h
  have hranked := (mem_takeAll h).resolve_left List.not_mem_nil
  exact mem_candidates.mp (mem_ranked.mp hranked)

theorem exists_preferred (h : pair.IsEligible threshold befores afters)
    (hnot : pair ∉ choose threshold befores afters) :
    ∃ other ∈ choose threshold befores afters,
      (other.before = pair.before ∨ other.after = pair.after) ∧ other.Preferred pair := by
  obtain ⟨earlier, later, hsplit⟩ := List.append_of_mem (mem_ranked.mpr (mem_candidates.mpr h))
  have hpairwise := ranked_pairwise threshold befores afters
  rw [choose_eq, hsplit] at hnot ⊢
  rw [hsplit] at hpairwise
  obtain ⟨other, hearlier, hother, hshared⟩ := exists_taken_of_not_mem hnot
  refine ⟨other, hother, hshared, ?_⟩
  exact (List.pairwise_append.mp hpairwise).2.2 other hearlier pair List.mem_cons_self

/-- The chosen pairs of similar classes are stable, whatever classes are compared and whatever the
threshold is, and a lower threshold only appends pairs to them. -/
theorem choose_isStable (threshold : Binary64) (befores afters : List ModelClass) :
    IsStable threshold befores afters (choose threshold befores afters) ∧
      ∀ lower : Binary64, lower.le threshold = true →
        choose threshold befores afters <+: choose lower befores afters := by
  obtain ⟨hbefores, hafters⟩ := choose_injective threshold befores afters
  refine ⟨⟨hbefores, hafters, ?_, ?_⟩, ?_⟩
  · exact fun pair hpair => eligible_of_mem_choose hpair
  · exact fun pair heligible hnot => exists_preferred heligible hnot
  · exact fun lower hlower => choose_prefix hlower befores afters

end SimilarPair

namespace SharedMembers

def classWith (name : String) (members : List String) : ModelClass :=
  Samples.classOf name [] (members.map (Samples.attributeOf ("m." ++ name))) []

def befores : List ModelClass :=
  [classWith "A" ["a", "b"], classWith "B" ["b", "c", "d"]]

def afters : List ModelClass :=
  [classWith "C" ["b"], classWith "D" ["a", "b", "c"]]

end SharedMembers

/-- `A` and `D` are the most similar. What they leave over, `B` and `C`, is not similar enough for
the higher threshold. -/
theorem SimilarPair.choose_isStable_two_thresholds :
    Binary64.zero.le .half = true ∧
      SimilarPair.choose .half SharedMembers.befores SharedMembers.afters <+:
        SimilarPair.choose .zero SharedMembers.befores SharedMembers.afters :=
  ⟨by decide, (SimilarPair.choose_isStable .half SharedMembers.befores
    SharedMembers.afters).2 .zero (by decide)⟩

end CodeEvolution
