import CodeEvolution.Alignment.Basic
import CodeEvolution.Delta.Similarity
import Mathlib.Data.List.Induction
import Mathlib.Data.List.Nodup
/-!
# Greedy one-to-one choice

Links between statements and pairs of similar classes are chosen in the same way: the
possibilities are gone through in order, and one is taken unless one of its two ends is taken.
What one step keeps is shown once here for any kind of link with two numbered ends, and what a
whole choice keeps follows by induction on the possibilities.
-/
namespace CodeEvolution.OneToOne

variable {β : Type} (left right : β → Nat) {taken links : List β} {link : β}

def takeFree (taken : List β) (link : β) : List β :=
  if taken.any fun other => left other == left link || right other == right link then taken
  else taken ++ [link]

def takeAll (taken links : List β) : List β :=
  links.foldl (takeFree left right) taken

def Injective (taken : List β) : Prop :=
  (taken.map left).Nodup ∧ (taken.map right).Nodup

theorem takeFree_cases (taken : List β) (link : β) :
    (takeFree left right taken link = taken ∧
        ∃ other ∈ taken, left other = left link ∨ right other = right link) ∨
      (takeFree left right taken link = taken ++ [link] ∧
        ∀ other ∈ taken, left other ≠ left link ∧ right other ≠ right link) := by
  unfold takeFree
  split
  · rename_i h
    left
    simpa using h
  · rename_i h
    right
    simpa using h

theorem nodup_map_concat {label : β → Nat} (h : (taken.map label).Nodup)
    (hfree : ∀ other ∈ taken, label other ≠ label link) : ((taken ++ [link]).map label).Nodup := by
  rw [List.map_append, List.nodup_append]
  refine ⟨h, by simp, ?_⟩
  intro n hn m hm
  obtain ⟨other, hother, rfl⟩ := List.mem_map.mp hn
  simp only [List.map_cons, List.map_nil, List.mem_singleton] at hm
  exact hm ▸ hfree other hother

theorem injective_nil : Injective left right [] :=
  ⟨List.nodup_nil, List.nodup_nil⟩

variable {left right}

theorem takeFree_injective (h : Injective left right taken) (link : β) :
    Injective left right (takeFree left right taken link) := by
  obtain ⟨he, -⟩ | ⟨he, hfree⟩ := takeFree_cases left right taken link
  · rwa [he]
  · rw [he]
    exact ⟨nodup_map_concat h.1 fun other hother => (hfree other hother).1,
      nodup_map_concat h.2 fun other hother => (hfree other hother).2⟩

theorem mem_takeFree {other : β} (h : other ∈ takeFree left right taken link) :
    other ∈ taken ∨ other = link := by
  obtain ⟨he, -⟩ | ⟨he, -⟩ := takeFree_cases left right taken link
  · exact Or.inl (he ▸ h)
  · simpa [he] using h

theorem takeAll_injective (h : Injective left right taken) (links : List β) :
    Injective left right (takeAll left right taken links) := by
  induction links generalizing taken with
  | nil => exact h
  | cons link rest ih => exact ih (takeFree_injective h link)

theorem mem_takeAll (h : link ∈ takeAll left right taken links) : link ∈ taken ∨ link ∈ links := by
  induction links generalizing taken with
  | nil => exact Or.inl h
  | cons first rest ih =>
    rcases ih h with hlink | hlink
    · rcases mem_takeFree hlink with hlink | rfl
      · exact Or.inl hlink
      · exact Or.inr List.mem_cons_self
    · exact Or.inr (List.mem_cons_of_mem _ hlink)

theorem takeAll_concat (taken links : List β) (link : β) :
    takeAll left right taken (links ++ [link]) =
      takeFree left right (takeAll left right taken links) link := by
  rw [takeAll, List.foldl_append]
  rfl

/-- Where every other link comes after a preferred one that shares an end with it, just the
preferred links are taken. -/
theorem mem_takeAll_iff_of_preferred {Preferred : β → Prop}
    (htaken : ∀ link ∈ taken, Preferred link)
    (hapart : ∀ x y, Preferred x → Preferred y → left x = left y ∨ right x = right y → x = y)
    (hfirst : ∀ earlier link later, links = earlier ++ link :: later → ¬Preferred link →
      ∃ other ∈ earlier, Preferred other ∧ (left other = left link ∨ right other = right link))
    (link : β) :
    link ∈ takeAll left right taken links ↔ link ∈ taken ∨ (link ∈ links ∧ Preferred link) := by
  -- The induction is on the links from the end, so that those before the last keep `hfirst`.
  induction links using List.reverseRecOn generalizing link with
  | nil => simp [takeAll]
  | append_singleton links last ih =>
    have hbefore := ih (by
      intro earlier other later hlinks
      exact hfirst earlier other (later ++ [last]) (by simp [hlinks]))
    rw [takeAll_concat]
    obtain ⟨he, other, hother, hshared⟩ | ⟨he, hfree⟩ :=
      takeFree_cases left right (takeAll left right taken links) last
    · rw [he, hbefore, List.mem_append, List.mem_singleton]
      constructor
      · rintro (h | ⟨h, hlink⟩)
        · exact Or.inl h
        · exact Or.inr ⟨Or.inl h, hlink⟩
      · rintro (h | ⟨h | rfl, hlink⟩)
        · exact Or.inl h
        · exact Or.inr ⟨h, hlink⟩
        · have hpreferred := ((hbefore other).mp hother).elim (htaken other) And.right
          exact (hbefore _).mp (hapart other _ hpreferred hlink hshared ▸ hother)
    · have hlast : Preferred last := by
        by_contra hnot
        obtain ⟨other, hother, hpreferred, hshared⟩ := hfirst links last [] rfl hnot
        have h := hfree other ((hbefore other).mpr (Or.inr ⟨hother, hpreferred⟩))
        exact hshared.elim h.1 h.2
      rw [he, List.mem_append, List.mem_append, hbefore, List.mem_singleton]
      constructor
      · rintro ((h | ⟨h, hlink⟩) | rfl)
        · exact Or.inl h
        · exact Or.inr ⟨Or.inl h, hlink⟩
        · exact Or.inr ⟨Or.inr rfl, hlast⟩
      · rintro (h | ⟨h | h, hlink⟩)
        · exact Or.inl (Or.inl h)
        · exact Or.inl (Or.inr ⟨h, hlink⟩)
        · exact Or.inr h

theorem mem_takeAll_of_mem (h : link ∈ taken) (links : List β) :
    link ∈ takeAll left right taken links := by
  induction links generalizing taken with
  | nil => exact h
  | cons first rest ih =>
    apply ih
    obtain ⟨he, -⟩ | ⟨he, -⟩ := takeFree_cases left right taken first
    · rwa [he]
    · rw [he]
      exact List.mem_append_left _ h

theorem exists_taken_of_not_mem {earlier later : List β}
    (hnot : link ∉ takeAll left right [] (earlier ++ link :: later)) :
    ∃ other ∈ earlier, other ∈ takeAll left right [] (earlier ++ link :: later) ∧
      (left other = left link ∨ right other = right link) := by
  have hsplit : takeAll left right [] (earlier ++ link :: later) =
      takeAll left right (takeFree left right (takeAll left right [] earlier) link) later := by
    rw [takeAll, List.foldl_append]
    rfl
  rw [hsplit] at hnot ⊢
  obtain ⟨he, other, hother, hshared⟩ | ⟨he, -⟩ :=
    takeFree_cases left right (takeAll left right [] earlier) link
  · rw [he]
    have hearlier : other ∈ earlier := (mem_takeAll hother).resolve_left List.not_mem_nil
    exact ⟨other, hearlier, mem_takeAll_of_mem hother later, hshared⟩
  · rw [he] at hnot
    exact absurd (mem_takeAll_of_mem (List.mem_append_right _ List.mem_cons_self) later) hnot

theorem exists_taken_of_mem (h : link ∈ links) :
    ∃ other ∈ takeAll left right taken links, left other = left link ∨
      right other = right link := by
  induction links generalizing taken with
  | nil => cases h
  | cons first rest ih =>
    rcases List.mem_cons.mp h with rfl | h
    · obtain ⟨he, other, hother, hshared⟩ | ⟨he, -⟩ := takeFree_cases left right taken link
      · exact ⟨other, mem_takeAll_of_mem (he.symm ▸ hother) rest, hshared⟩
      · exact ⟨link, mem_takeAll_of_mem (he.symm ▸ List.mem_concat_self) rest, Or.inl rfl⟩
    · exact ih h

theorem takeAll_of_apart (hapart : ∀ x ∈ taken, ∀ y ∈ links, left x ≠ left y ∧ right x ≠ right y) :
    takeAll left right taken links = taken ++ takeAll left right [] links := by
  have hgeneral : ∀ chosen, takeAll left right (taken ++ chosen) links =
      taken ++ takeAll left right chosen links := by
    induction links with
    | nil => exact fun _ => rfl
    | cons link rest ih =>
      intro chosen
      have hlink := fun x hx => hapart x hx link List.mem_cons_self
      have hstep : takeFree left right (taken ++ chosen) link =
          taken ++ takeFree left right chosen link := by
        have hnone : (taken.any fun other =>
            left other == left link || right other == right link) = false := by
          simpa using hlink
        simp only [takeFree, List.any_append, hnone, Bool.false_or]
        split
        · rfl
        · rw [List.append_assoc]
      change takeAll left right (takeFree left right (taken ++ chosen) link) rest = _
      rw [hstep]
      exact ih (fun x hx y hy => hapart x hx y (List.mem_cons_of_mem _ hy)) _
  simpa using hgeneral []

theorem takeAll_map_turn {turn : β → β} (hleft : ∀ x, left (turn x) = right x)
    (hright : ∀ x, right (turn x) = left x) (taken links : List β) :
    takeAll left right (taken.map turn) (links.map turn) =
      (takeAll left right taken links).map turn := by
  induction links generalizing taken with
  | nil => rfl
  | cons link rest ih =>
    have hstep : takeFree left right (taken.map turn) (turn link) =
        (takeFree left right taken link).map turn := by
      simp only [takeFree, List.any_map, Function.comp_def, hleft, hright, Bool.or_comm]
      split
      · rfl
      · rw [List.map_append, List.map_singleton]
    change takeAll left right (takeFree left right (taken.map turn) (turn link)) (rest.map turn) = _
    rw [hstep]
    exact ih _

/-- The choice does not depend on the order of links that share no end: two lists of the same
links, in which those that share an end come in the same order, give the same choice. -/
theorem mem_takeAll_congr {xs ys : List β} (hsame : ∀ link, link ∈ ys ↔ link ∈ xs)
    {R S : β → β → Prop} (hxs : xs.Pairwise R) (hys : ys.Pairwise S)
    (hagree : ∀ x y, x ≠ y → left x = left y ∨ right x = right y → R x y → ¬S y x) (link : β) :
    link ∈ takeAll left right [] ys ↔ link ∈ takeAll left right [] xs := by
  have hinjective := takeAll_injective (injective_nil left right) xs
  have hapart : ∀ x y, x ∈ takeAll left right [] xs → y ∈ takeAll left right [] xs →
      left x = left y ∨ right x = right y → x = y := by
    rintro x y hx hy (h | h)
    · exact List.inj_on_of_nodup_map hinjective.1 hx hy h
    · exact List.inj_on_of_nodup_map hinjective.2 hx hy h
  rw [mem_takeAll_iff_of_preferred (by simp) hapart]
  · constructor
    · rintro (h | ⟨-, h⟩)
      · simp at h
      · exact h
    · intro h
      exact Or.inr ⟨(hsame link).mpr ((mem_takeAll h).resolve_left List.not_mem_nil), h⟩
  · -- What is not chosen from `xs` is blocked there, and the link that blocks it comes first in
    -- `ys` as well, since the two share an end.
    intro earlier blocked later hsplit hnot
    obtain ⟨first, rest, hxs'⟩ := List.append_of_mem ((hsame blocked).mp (by simp [hsplit]))
    rw [hxs'] at hnot
    obtain ⟨other, hfirst, hother, hshared⟩ := exists_taken_of_not_mem hnot
    have hbefore : R other blocked :=
      (List.pairwise_append.mp (hxs' ▸ hxs)).2.2 other hfirst blocked List.mem_cons_self
    have hys' : other ∈ earlier ++ blocked :: later := by
      rw [← hsplit, hsame, hxs']
      exact List.mem_append_left _ hfirst
    refine ⟨other, ?_, hxs' ▸ hother, hshared⟩
    rcases List.mem_append.mp hys' with h | h
    · exact h
    · exfalso
      rcases List.mem_cons.mp h with rfl | h
      · exact hnot hother
      · have hne : other ≠ blocked := fun heq => hnot (heq ▸ hother)
        refine hagree other blocked hne hshared hbefore ?_
        exact (List.pairwise_cons.mp (List.pairwise_append.mp (hsplit ▸ hys)).2.1).1 other h

end CodeEvolution.OneToOne

namespace CodeEvolution

open OneToOne

theorem Comparison.foldl_take (links : List Link) (candidates : List Candidate) :
    candidates.foldl Comparison.take links =
      takeAll Link.before Link.after links (candidates.map Candidate.link) := by
  rw [takeAll, List.foldl_map]
  rfl

end CodeEvolution
