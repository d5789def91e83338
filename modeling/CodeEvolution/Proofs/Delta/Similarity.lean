import CodeEvolution.Proofs.Number.Order
import CodeEvolution.Proofs.OneToOne
/-!
# Similar classes in both directions

The possible pairs of similar classes are listed by position and sorted by falling similarity,
equally similar ones in the order of the list. Exchanging the two sides lists them in another
order, but two pairs that share a class keep theirs: of equal similarity, the one whose other class
stands first comes first. So the same pairs are chosen, with their sides exchanged.
-/
namespace CodeEvolution

variable {pair : SimilarPair}

theorem pairwise_mergeSort_stable {α : Type} {le : α → α → Bool} {P : α → Prop}
    (htrans : ∀ a b c, le a b = true → le b c = true → le a c = true)
    (htotal : ∀ a b, P a → P b → (le a b || le b a) = true) {R : α → α → Prop} {items : List α}
    (hP : ∀ a ∈ items, P a) (hR : items.Pairwise R) :
    (items.mergeSort le).Pairwise fun a b => le a b = true ∧ (le b a = true → R a b) := by
  -- The order need only be total on the items, so they are sorted as members of a subtype.
  have hsorted : ∀ entries : List (Subtype P),
      (entries.Pairwise fun a b : Subtype P => R a b) →
      (entries.mergeSort fun a b => le a b).Pairwise fun a b : Subtype P =>
        le a b = true ∧ (le b a = true → R a b) := by
    intro entries hentries
    have htrans' : ∀ a b c : Subtype P, le a b = true → le b c = true → le a c = true :=
      fun a b c => htrans a b c
    have htotal' : ∀ a b : Subtype P, (le a b || le b a) = true := fun a b => htotal a b a.2 b.2
    induction entries with
    | nil => simp
    | cons first rest ih =>
      obtain ⟨hfirst, hrest⟩ := List.pairwise_cons.mp hentries
      obtain ⟨before, after, hcons, hsplit, hbefore⟩ :=
        List.mergeSort_cons htrans' htotal' first rest
      have hle := List.pairwise_mergeSort htrans' htotal' (first :: rest)
      have hlater := ih hrest
      rw [hsplit, List.pairwise_append] at hlater
      rw [hcons, List.pairwise_append, List.pairwise_cons] at hle ⊢
      refine ⟨hlater.1, ⟨?_, hlater.2.1⟩, ?_⟩
      · intro b hb
        have hmem : b ∈ rest := by
          have h : b ∈ rest.mergeSort fun a b => le a b := by simp [hsplit, hb]
          exact List.mem_mergeSort.mp h
        exact ⟨hle.2.1.1 b hb, fun _ => hfirst b hmem⟩
      · intro b hb a ha
        rcases List.mem_cons.mp ha with rfl | ha
        · have hnot := hbefore b hb
          exact ⟨hle.2.2 b hb a List.mem_cons_self, fun h => by simp [h] at hnot⟩
        · exact hlater.2.2 b hb a ha
  have hval := List.attachWith_map_subtype_val hP
  have hmap : (items.mergeSort le) =
      ((items.attachWith P hP).mergeSort fun a b => le a b).map Subtype.val := by
    rw [List.map_mergeSort (s := le) (fun _ _ _ _ => rfl), hval]
  rw [hmap, List.pairwise_map]
  apply hsorted
  rw [← hval, List.pairwise_map] at hR
  exact hR

theorem nodup_firstOccurrences (items : List String) : (firstOccurrences items).Nodup := by
  induction items with
  | nil => exact List.nodup_nil
  | cons first rest ih =>
    refine List.nodup_cons.mpr ⟨?_, ih.filter _⟩
    simp

section Jaccard

variable {a b : List String}

theorem length_shared_comm (ha : a.Nodup) (hb : b.Nodup) :
    (a.filter b.contains).length = (b.filter a.contains).length := by
  apply List.Perm.length_eq
  rw [List.perm_ext_iff_of_nodup (ha.filter _) (hb.filter _)]
  intro key
  simp [and_comm]

theorem length_eq_shared_add (a b : List String) :
    a.length = (a.filter b.contains).length + (a.filter fun key => !b.contains key).length := by
  rw [← List.length_append]
  exact (List.filter_append_perm b.contains a).length_eq.symm

theorem jaccard_comm (ha : a.Nodup) (hb : b.Nodup) : jaccard a b = jaccard b a := by
  have hshared := length_shared_comm ha hb
  have hall : a.length + (b.filter fun key => !a.contains key).length =
      b.length + (a.filter fun key => !b.contains key).length := by
    have hsplita := length_eq_shared_add a b
    have hsplitb := length_eq_shared_add b a
    omega
  simp only [jaccard, hshared, hall]

theorem jaccard_ne_notANumber (a b : List String) : jaccard a b ≠ .notANumber := by
  unfold jaccard
  dsimp only
  split
  · simp [Binary64.zero]
  · exact Binary64.quotient_ne_notANumber _ _

end Jaccard

namespace SimilarPair

open OneToOne

def swap (pair : SimilarPair) : SimilarPair :=
  ⟨pair.after, pair.before, pair.score⟩

theorem swap_injective : Function.Injective swap := fun _ _ h =>
  congrArg swap h

def Earlier (x y : SimilarPair) : Prop :=
  x.before < y.before ∨ x.before = y.before ∧ x.after < y.after

/-- One pair is preferred to another: it is at least as similar, and if equally similar, it comes
first. -/
def Preferred (x y : SimilarPair) : Prop :=
  y.score.le x.score = true ∧ (x.score.le y.score = true → x.Earlier y)

theorem Preferred.agree {x y : SimilarPair} (hshared : x.before = y.before ∨ x.after = y.after)
    (h : x.Preferred y) : ¬y.swap.Preferred x.swap := by
  rintro ⟨hle, hlater⟩
  have hfirst := h.2 hle
  have hsecond := hlater h.1
  simp only [Earlier, swap] at hfirst hsecond
  omega

variable {threshold : Binary64} {befores afters : List ModelClass}

theorem mem_candidates :
    pair ∈ candidates threshold befores afters ↔
      ∃ b a, befores[pair.before]? = some b ∧ afters[pair.after]? = some a ∧
        pair.score = jaccard b.memberKeys a.memberKeys ∧ b.traits.isModule = a.traits.isModule ∧
        Binary64.zero.lt pair.score = true ∧ threshold.le pair.score = true := by
  simp only [candidates, List.mem_flatMap, List.mem_filterMap, List.mem_zipIdx_iff_getElem?,
    Option.ite_none_right_eq_some, Option.some.injEq]
  constructor
  · rintro ⟨b, hb, a, ha, ⟨hkind, hpositive, hthreshold⟩, rfl⟩
    exact ⟨b.1, a.1, hb, ha, rfl, hkind, hpositive, hthreshold⟩
  · rintro ⟨b, a, hb, ha, hscore, hkind, hpositive, hthreshold⟩
    refine ⟨(b, pair.before), hb, (a, pair.after), ha, ⟨hkind, ?_, ?_⟩, ?_⟩
    · exact hscore ▸ hpositive
    · exact hscore ▸ hthreshold
    · cases pair
      simp_all

theorem swap_mem_candidates :
    pair.swap ∈ candidates threshold afters befores ↔
      pair ∈ candidates threshold befores afters := by
  have hcomm : ∀ b a : ModelClass,
      jaccard b.memberKeys a.memberKeys = jaccard a.memberKeys b.memberKeys := fun b a =>
    jaccard_comm (nodup_firstOccurrences _) (nodup_firstOccurrences _)
  rw [mem_candidates, mem_candidates]
  simp only [swap]
  constructor
  · rintro ⟨a, b, ha, hb, hscore, hkind, hmuch⟩
    exact ⟨b, a, hb, ha, hscore.trans (hcomm a b), hkind.symm, hmuch⟩
  · rintro ⟨b, a, hb, ha, hscore, hkind, hmuch⟩
    exact ⟨a, b, ha, hb, hscore.trans (hcomm b a), hkind.symm, hmuch⟩

theorem zipIdx_pairwise {α : Type} (items : List α) :
    items.zipIdx.Pairwise fun x y => x.2 < y.2 := by
  have h := List.pairwise_lt_range' (s := 0) (n := items.length) 1
  rw [← List.zipIdx_map_snd 0 items, List.pairwise_map] at h
  exact h

theorem candidates_pairwise (threshold : Binary64) (befores afters : List ModelClass) :
    (candidates threshold befores afters).Pairwise Earlier := by
  refine List.pairwise_flatMap.mpr ⟨?_, ?_⟩
  · intro b _
    refine (zipIdx_pairwise afters).filterMap _ ?_
    intro a a' hlt x hx y hy
    obtain ⟨-, hx⟩ := Option.ite_none_right_eq_some.mp hx
    obtain ⟨-, hy⟩ := Option.ite_none_right_eq_some.mp hy
    obtain rfl := Option.some.inj hx
    obtain rfl := Option.some.inj hy
    exact Or.inr ⟨rfl, hlt⟩
  · refine (zipIdx_pairwise befores).imp ?_
    intro b b' hlt x hx y hy
    obtain ⟨a, -, hx⟩ := List.mem_filterMap.mp hx
    obtain ⟨a', -, hy⟩ := List.mem_filterMap.mp hy
    obtain ⟨-, hx⟩ := Option.ite_none_right_eq_some.mp hx
    obtain ⟨-, hy⟩ := Option.ite_none_right_eq_some.mp hy
    obtain rfl := Option.some.inj hx
    obtain rfl := Option.some.inj hy
    exact Or.inl hlt

def ranked (threshold : Binary64) (befores afters : List ModelClass) : List SimilarPair :=
  (candidates threshold befores afters).mergeSort fun x y => y.score.le x.score

theorem choose_eq (threshold : Binary64) (befores afters : List ModelClass) :
    choose threshold befores afters =
      takeAll SimilarPair.before SimilarPair.after [] (ranked threshold befores afters) := rfl

theorem choose_injective (threshold : Binary64) (befores afters : List ModelClass) :
    Injective SimilarPair.before SimilarPair.after (choose threshold befores afters) := by
  rw [choose_eq]
  exact takeAll_injective (injective_nil _ _) _

theorem nodup_choose (threshold : Binary64) (befores afters : List ModelClass) :
    (choose threshold befores afters).Nodup :=
  (choose_injective threshold befores afters).1.of_map _

theorem choose_bounds (h : pair ∈ choose threshold befores afters) :
    pair.before < befores.length ∧ pair.after < afters.length := by
  rw [choose_eq] at h
  have hcandidate := (mem_takeAll h).resolve_left List.not_mem_nil
  obtain ⟨b, a, hb, ha, -⟩ := mem_candidates.mp (List.mem_mergeSort.mp hcandidate)
  exact ⟨(List.getElem?_eq_some_iff.mp hb).1, (List.getElem?_eq_some_iff.mp ha).1⟩

theorem ranked_pairwise (threshold : Binary64) (befores afters : List ModelClass) :
    (ranked threshold befores afters).Pairwise Preferred := by
  have htrans : ∀ x y z : SimilarPair, y.score.le x.score = true → z.score.le y.score = true →
      z.score.le x.score = true := fun x y z hxy hyz => Binary64.le_trans hyz hxy
  have htotal : ∀ x y : SimilarPair, x.score ≠ .notANumber → y.score ≠ .notANumber →
      (y.score.le x.score || x.score.le y.score) = true := fun x y hx hy =>
    Binary64.le_total hy hx
  have hnumbers : ∀ pair ∈ candidates threshold befores afters, pair.score ≠ .notANumber := by
    intro pair hpair
    obtain ⟨b, a, -, -, hscore, -⟩ := mem_candidates.mp hpair
    rw [hscore]
    exact jaccard_ne_notANumber _ _
  exact pairwise_mergeSort_stable htrans htotal hnumbers
    (candidates_pairwise threshold befores afters)

theorem takeAll_swap (taken pairs : List SimilarPair) :
    (takeAll SimilarPair.before SimilarPair.after taken pairs).map swap =
      takeAll SimilarPair.before SimilarPair.after (taken.map swap) (pairs.map swap) :=
  (takeAll_map_turn (fun _ => rfl) (fun _ => rfl) taken pairs).symm

theorem mem_choose_swap (threshold : Binary64) (befores afters : List ModelClass)
    (pair : SimilarPair) :
    pair.swap ∈ choose threshold afters befores ↔ pair ∈ choose threshold befores afters := by
  have hback : (choose threshold afters befores).map swap =
      takeAll SimilarPair.before SimilarPair.after []
        ((ranked threshold afters befores).map swap) := takeAll_swap [] _
  have hsame : ∀ link, link ∈ (ranked threshold afters befores).map swap ↔
      link ∈ ranked threshold befores afters := by
    intro link
    rw [show link = link.swap.swap from rfl, List.mem_map_of_injective swap_injective, ranked,
      ranked, List.mem_mergeSort, List.mem_mergeSort, swap_mem_candidates]
    rfl
  have hpairwise : ((ranked threshold afters befores).map swap).Pairwise
      fun x y => x.swap.Preferred y.swap := by
    rw [List.pairwise_map]
    exact ranked_pairwise threshold afters befores
  have hiff := mem_takeAll_congr hsame (ranked_pairwise threshold befores afters) hpairwise
    (fun x y _ hshared h => h.agree hshared) pair
  rw [← hback, show pair = pair.swap.swap from rfl,
    List.mem_map_of_injective swap_injective] at hiff
  exact hiff

theorem choose_swap (threshold : Binary64) (befores afters : List ModelClass) :
    List.Perm (choose threshold afters befores) ((choose threshold befores afters).map swap) := by
  rw [List.perm_ext_iff_of_nodup (nodup_choose threshold afters befores)
    ((nodup_choose threshold befores afters).map swap_injective)]
  intro pair
  rw [show pair = pair.swap.swap from rfl, List.mem_map_of_injective swap_injective]
  exact mem_choose_swap threshold befores afters pair.swap

end SimilarPair

end CodeEvolution
