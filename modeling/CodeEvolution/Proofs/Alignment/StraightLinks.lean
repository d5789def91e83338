import CodeEvolution.Proofs.Alignment.Replacement
import CodeEvolution.Proofs.Alignment.Twins
import CodeEvolution.Proofs.Body.Ancestors
import CodeEvolution.Proofs.Body.Declarations
/-!
# Bodies linked fragment by fragment

Where the texts of two corresponding bodies can be told apart, every phase links fragments with
their twins and nothing else. A phase is greedy, so it is enough that before any other link is tried
the straight link of one of its ends is. This holds of equal texts and of texts that replacements
explain by the costs, and in the phase for places at most one statement is still free.
-/
namespace CodeEvolution

variable {f b a : Fragment} {fragments : List Fragment} {replacements : List Replacement}
  {link : Link} {c : Comparison} {found : LinkKind × List Replacement}

namespace Comparison

open OneToOne

structure AreStraight (links : List Link) : Prop where
  straight : ∀ link ∈ links, link.IsStraight
  once : (links.map Link.before).Nodup

theorem areStraight_nil : AreStraight [] :=
  ⟨by simp, List.nodup_nil⟩

/-- Of two statements that a criterion would link, one has a twin that it would rather have. -/
def PrefersTwins (c : Comparison) (criterion : List Link → Criterion) (links : List Link)
    (fragments : List Fragment) : Prop :=
  ∀ b ∈ fragments, ∀ a ∈ fragments, b.id ≠ a.id →
    beforeLinked links b = false → beforeLinked links a = false → b.kind = a.kind →
    ∀ found, criterion links b (c.twin a) = some found →
      ∃ x, (x = b ∨ x = a) ∧ ∃ own, criterion links x (c.twin x) = some own ∧
        costLe (c.cost links found.2.length b (c.twin a))
          (c.cost links own.2.length x (c.twin x)) = false

def IsOwn (c : Comparison) (criterion : List Link → Criterion) (links : List Link)
    (fragments : List Fragment) (link : Link) : Prop :=
  ∃ f ∈ fragments, beforeLinked links f = false ∧
    ∃ found, criterion links f (c.twin f) = some found ∧ link = ⟨f.id, f.id, found.1, found.2⟩

section Phase

variable {c : Comparison} {criterion : List Link → Criterion} {links : List Link}
  {fragments : List Fragment} (h : c.IsTwinned) (hfragments : fragments ⊆ c.before.fragments)
  (hlinks : AreStraight links)

include h hfragments hlinks

theorem own_mem_tried (hf : f ∈ fragments) (hfree : beforeLinked links f = false)
    (hfound : criterion links f (c.twin f) = some found) :
    ⟨⟨f.id, f.id, found.1, found.2⟩, c.cost links found.2.length f (c.twin f)⟩ ∈
      c.tried criterion links ⟨fragments, fragments.map c.twin⟩ := by
  have htwin := h.twin_isTwin (hfragments hf)
  rw [mem_tried, mem_candidates]
  refine ⟨f, hf, c.twin f, List.mem_map_of_mem hf, found, hfree, ?_, htwin.kind.symm, hfound, ?_⟩
  · rw [afterLinked_twin h hlinks.straight (hfragments hf), hfree]
  · rw [htwin.id]

theorem own_eq_of_shared {x y : Link}
    (hx : x ∈ links ∨ c.IsOwn criterion links fragments x)
    (hy : y ∈ links ∨ c.IsOwn criterion links fragments y)
    (hshared : x.before = y.before ∨ x.after = y.after) : x = y := by
  have hstraight : ∀ link, link ∈ links ∨ c.IsOwn criterion links fragments link →
      link.IsStraight := by
    rintro link (hlink | ⟨f, -, -, found, -, rfl⟩)
    · exact hlinks.straight link hlink
    · exact rfl
  have hbefore : x.before = y.before := by
    rwa [hstraight x hx, hstraight y hy, or_self] at hshared
  have hmixed : ∀ x y : Link, x ∈ links → c.IsOwn criterion links fragments y →
      x.before ≠ y.before := by
    rintro x _ hx ⟨f, -, hfree, found, -, rfl⟩ heq
    have hlinked : beforeLinked links f = true := List.any_eq_true.mpr ⟨x, hx, by simp [heq]⟩
    simp [hfree] at hlinked
  rcases hx with hx | hx <;> rcases hy with hy | hy
  · exact List.inj_on_of_nodup_map hlinks.once hx hy hbefore
  · exact absurd hbefore (hmixed x y hx hy)
  · exact absurd hbefore.symm (hmixed y x hy hx)
  · obtain ⟨f, hf, -, found, hfound, rfl⟩ := hx
    obtain ⟨g, hg, -, other, hother, rfl⟩ := hy
    obtain rfl := h.laidOut.eq_of_id (hfragments hf) (hfragments hg) hbefore
    rw [hfound] at hother
    rw [Option.some.inj hother]

/-- A phase that prefers twins links them and nothing else. -/
theorem mem_phase_of_prefersTwins (hprefers : c.PrefersTwins criterion links fragments)
    (link : Link) :
    link ∈ c.phase criterion links ⟨fragments, fragments.map c.twin⟩ ↔
      link ∈ links ∨ c.IsOwn criterion links fragments link := by
  have hstart : ∀ link ∈ links, link ∈ links ∨ c.IsOwn criterion links fragments link :=
    fun link => Or.inl
  rw [phase_eq, mem_takeAll_iff_of_preferred hstart fun x y => own_eq_of_shared h hfragments hlinks]
  · constructor
    · rintro (hlink | ⟨-, hlink⟩)
      · exact Or.inl hlink
      · exact hlink
    · rintro (hlink | hlink)
      · exact Or.inl hlink
      · obtain ⟨f, hf, hfree, found, hfound, rfl⟩ := hlink
        exact Or.inr ⟨List.mem_map_of_mem (own_mem_tried h hfragments hlinks hf hfree hfound),
          Or.inr ⟨f, hf, hfree, found, hfound, rfl⟩⟩
  · intro earlier other later hsplit hother
    obtain ⟨first, rest, htried, rfl, hrest⟩ := List.map_eq_append_iff.mp hsplit
    obtain ⟨candidate, last, rfl, rfl, rfl⟩ := List.map_eq_cons_iff.mp hrest
    have hcandidate : candidate ∈
        c.tried criterion links ⟨fragments, fragments.map c.twin⟩ := by
      rw [htried]
      exact List.mem_append_right _ List.mem_cons_self
    obtain ⟨b, hb, a, ha, found, hfreeb, hfreea, hkind, hfound, rfl⟩ :=
      mem_candidates.mp (mem_tried.mp hcandidate)
    obtain ⟨g, hg, rfl⟩ := List.mem_map.mp ha
    have htwin := h.twin_isTwin (hfragments hg)
    rw [afterLinked_twin h hlinks.straight (hfragments hg)] at hfreea
    have hne : b.id ≠ g.id := by
      intro heq
      obtain rfl := h.laidOut.eq_of_id (hfragments hb) (hfragments hg) heq
      exact hother (Or.inr ⟨b, hg, hfreea, found, hfound, by rw [htwin.id]⟩)
    obtain ⟨x, hx, own, hown, hcost⟩ :=
      hprefers b hb g hg hne hfreeb hfreea (hkind.trans htwin.kind) found hfound
    have hxfree : x ∈ fragments ∧ beforeLinked links x = false := by
      rcases hx with rfl | rfl
      · exact ⟨hb, hfreeb⟩
      · exact ⟨hg, hfreea⟩
    have hmem := own_mem_tried h hfragments hlinks hxfree.1 hxfree.2 hown
    have hsorted := c.tried_pairwise criterion links ⟨fragments, fragments.map c.twin⟩
    rw [htried] at hmem hsorted
    refine ⟨_, List.mem_map_of_mem (mem_earlier_of_not_costLe hsorted hmem hcost),
      Or.inr ⟨x, hxfree.1, hxfree.2, own, hown, rfl⟩, ?_⟩
    exact hx.imp (congrArg Fragment.id) fun hxg => by rw [hxg, htwin.id]

theorem phase_areStraight (hprefers : c.PrefersTwins criterion links fragments) :
    AreStraight (c.phase criterion links ⟨fragments, fragments.map c.twin⟩) := by
  have hmem := mem_phase_of_prefersTwins h hfragments hlinks hprefers
  constructor
  · intro link hlink
    rcases (hmem link).mp hlink with hlink | ⟨f, -, -, found, -, rfl⟩
    · exact hlinks.straight link hlink
    · exact rfl
  · have hinjective : Injective Link.before Link.after links := by
      refine ⟨hlinks.once, ?_⟩
      rw [List.map_congr_left hlinks.straight]
      exact hlinks.once
    rw [phase_eq]
    exact (takeAll_injective hinjective _).1

end Phase

def isChanged (c : Comparison) (f : Fragment) : Bool :=
  f.text != (c.twin f).text

def IsDirect (c : Comparison) (f : Fragment) : Prop :=
  ∃ r, Replacement.find? c f (c.twin f) = some [r]

/-- The texts of corresponding bodies can be told apart. Equal texts change alike, no text changes
into one that was there before, and of two statements that change, one is explained by one
replacement, and both are unless they stand in different places. -/
structure IsTellable (c : Comparison) : Prop where
  alike : ∀ f ∈ c.before.fragments, ∀ g ∈ c.before.fragments, f.kind = g.kind →
    f.text = g.text → (c.twin f).text = (c.twin g).text
  apart : ∀ f ∈ c.before.fragments, ∀ g ∈ c.before.fragments, c.isChanged f = true →
    g.kind = f.kind → Text.tokenize g.text ≠ Text.tokenize (c.twin f).text
  quiet : ∀ f ∈ c.before.statements, ∀ g ∈ c.before.statements, c.isChanged f = true →
    c.isChanged g = true → f.id ≠ g.id → ¬c.IsDirect f →
      c.IsDirect g ∧ (f.kind = g.kind → f.depth ≠ g.depth ∨ f.index ≠ g.index)

section Texts

variable {c : Comparison} {links : List Link} {fragments : List Fragment} {f : Fragment}

theorem isChanged_eq_false_iff : c.isChanged f = false ↔ f.text = (c.twin f).text := by
  simp [isChanged]

theorem isChanged_eq_true_iff : c.isChanged f = true ↔ f.text ≠ (c.twin f).text := by
  simp [isChanged]

theorem byReplacement_eq_some_iff :
    c.byReplacement links b a = some found ↔
      ∃ replacements, Replacement.find? c b a = some replacements ∧
        found = (.replaced, replacements) := by
  rw [byReplacement, Option.map_eq_some_iff]
  simp only [eq_comm]

def AreAlike (fragments : List Fragment) : Prop :=
  ∀ f ∈ fragments, ∀ g ∈ fragments, f.isComposite = g.isComposite

theorem exactly_prefersTwins (h : c.IsTwinned) (htellable : c.IsTellable)
    (hlinks : AreStraight links) (hfragments : fragments ⊆ c.before.fragments)
    (hshape : AreAlike fragments) : c.PrefersTwins exactly links fragments := by
  intro b hb a ha hne _ _ hkind found hfound
  obtain ⟨htext, rfl⟩ := exactly_eq_some hfound
  have hkept : a.text = (c.twin a).text := by
    rw [← isChanged_eq_false_iff, ← Bool.not_eq_true]
    intro hchanged
    exact htellable.apart a (hfragments ha) b (hfragments hb) hchanged hkind
      (congrArg Text.tokenize htext)
  have hkept' : b.text = (c.twin b).text := by
    rw [htellable.alike b (hfragments hb) a (hfragments ha) hkind (htext.trans hkept.symm), htext]
  have hown : ∀ x, x = b ∨ x = a → exactly links x (c.twin x) = some (.exact, []) := by
    rintro x (rfl | rfl)
    · exact if_pos hkept'
    · exact if_pos hkept
  have hcheaper : ∀ x, x = b ∨ x = a → x.id ≤ b.id → x.id ≤ a.id →
      costLe (c.cost links 0 b (c.twin a)) (c.cost links 0 x (c.twin x)) = false := by
    intro x hx hxb hxa
    exact straight_cheaper h hlinks.straight (hfragments hb) (hfragments ha) (hshape b hb a ha) hx
      (Nat.le_refl 0) (Or.inr (Or.inr (Or.inr ⟨hxb, hxa, hne⟩)))
  rcases Nat.le_total b.id a.id with hle | hle
  · exact ⟨b, Or.inl rfl, _, hown b (Or.inl rfl), hcheaper b (Or.inl rfl) le_rfl hle⟩
  · exact ⟨a, Or.inr rfl, _, hown a (Or.inr rfl), hcheaper a (Or.inr rfl) hle le_rfl⟩

theorem find?_ne_nil (haway : Text.tokenize b.text ≠ Text.tokenize a.text)
    (h : Replacement.find? c b a = some replacements) : 1 ≤ replacements.length := by
  rw [Replacement.find?_eq_explanation, Option.filter_eq_some_iff] at h
  obtain ⟨-, -, final, happroach, hfinal⟩ := Replacement.explanation_sound h.1
  cases happroach with
  | arrived => exact absurd hfinal haway
  | move => simp

/-- Of two statements that change, one is explained by one replacement and loses no place to the
other. -/
theorem IsTellable.exists_direct (htellable : c.IsTellable) (hb : b ∈ c.before.statements)
    (ha : a ∈ c.before.statements) (hne : b.id ≠ a.id) (hkind : b.kind = a.kind)
    (hchangedb : c.isChanged b = true) (hchangeda : c.isChanged a = true) :
    ∃ x, (x = b ∨ x = a) ∧ c.IsDirect x ∧ (b.depth ≠ a.depth ∨ b.index ≠ a.index ∨
      (x.id ≤ b.id ∧ x.id ≤ a.id ∧ b.id ≠ a.id)) := by
  by_cases hdirectb : c.IsDirect b
  · by_cases hdirecta : c.IsDirect a
    · rcases Nat.le_total b.id a.id with hle | hle
      · exact ⟨b, Or.inl rfl, hdirectb, Or.inr (Or.inr ⟨le_rfl, hle, hne⟩)⟩
      · exact ⟨a, Or.inr rfl, hdirecta, Or.inr (Or.inr ⟨hle, le_rfl, hne⟩)⟩
    · obtain ⟨-, hplace⟩ := htellable.quiet a ha b hb hchangeda hchangedb (Ne.symm hne) hdirecta
      refine ⟨b, Or.inl rfl, hdirectb, ?_⟩
      rcases hplace hkind.symm with hdepth | hindex
      · exact Or.inl (Ne.symm hdepth)
      · exact Or.inr (Or.inl (Ne.symm hindex))
  · obtain ⟨hdirecta, hplace⟩ := htellable.quiet b hb a ha hchangedb hchangeda hne hdirectb
    refine ⟨a, Or.inr rfl, hdirecta, ?_⟩
    rcases hplace hkind with hdepth | hindex
    · exact Or.inl hdepth
    · exact Or.inr (Or.inl hindex)

theorem byReplacement_prefersTwins (h : c.IsTwinned) (htellable : c.IsTellable)
    (hlinks : AreStraight links) (hfragments : fragments ⊆ c.before.statements)
    (hshape : AreAlike fragments)
    (hfree : ∀ f ∈ fragments, beforeLinked links f = false → c.isChanged f = true) :
    c.PrefersTwins c.byReplacement links fragments := by
  intro b hb a ha hne hfreeb hfreea hkind found hfound
  obtain ⟨replacements, hreplacements, rfl⟩ := byReplacement_eq_some_iff.mp hfound
  have hmem : ∀ f ∈ fragments, f ∈ c.before.fragments := fun f hf =>
    (List.mem_filter.mp (hfragments hf)).1
  have hchangeda := hfree a ha hfreea
  have hsome : 1 ≤ replacements.length :=
    find?_ne_nil (htellable.apart a (hmem a ha) b (hmem b hb) hchangeda hkind) hreplacements
  obtain ⟨x, hx, ⟨r, hr⟩, hloss⟩ := htellable.exists_direct (hfragments hb) (hfragments ha) hne
    hkind (hfree b hb hfreeb) hchangeda
  refine ⟨x, hx, (.replaced, [r]), byReplacement_eq_some_iff.mpr ⟨_, hr, rfl⟩, ?_⟩
  exact straight_cheaper h hlinks.straight (hmem b hb) (hmem a ha) (hshape b hb a ha) hx hsome
    (Or.inr hloss)

end Texts

def ownLink (c : Comparison) (f : Fragment) : Link :=
  c.expressionLink f (c.twin f)

/-- Whether a fragment keeps its text, or replacements explain how it changes. -/
def isTold (c : Comparison) (f : Fragment) : Bool :=
  !c.isChanged f || (Replacement.find? c f (c.twin f)).isSome

/-- The links are those of some fragments of the first body with their twins. -/
structure LinksTwins (c : Comparison) (links : List Link) (linked : Fragment → Prop) : Prop where
  mem_iff : ∀ link, link ∈ links ↔ ∃ f, linked f ∧ link = c.ownLink f
  inside : ∀ f, linked f → f ∈ c.before.fragments
  straight : AreStraight links

section OwnLink

variable {c : Comparison} {f : Fragment}

theorem ownLink_before : (c.ownLink f).before = f.id :=
  c.expressionLink_before f _

theorem ownLink_after (h : c.IsTwinned) (hf : f ∈ c.before.fragments) :
    (c.ownLink f).after = f.id := by
  rw [ownLink, expressionLink_after, (h.twin_isTwin hf).id]

theorem ownLink_of_kept (h : c.IsTwinned) (hf : f ∈ c.before.fragments)
    (hkept : f.text = (c.twin f).text) : c.ownLink f = ⟨f.id, f.id, .exact, []⟩ := by
  rw [ownLink, expressionLink, if_pos hkept, (h.twin_isTwin hf).id]

theorem text_ne_of_find? (h : Replacement.find? c b a = some replacements) : b.text ≠ a.text := by
  rw [Replacement.find?_eq_explanation, Option.filter_eq_some_iff] at h
  exact (Replacement.explanation_sound h.1).2.1

theorem ownLink_of_find? (h : c.IsTwinned) (hf : f ∈ c.before.fragments)
    (hfind : Replacement.find? c f (c.twin f) = some replacements) :
    c.ownLink f = ⟨f.id, f.id, .replaced, replacements⟩ := by
  rw [ownLink, expressionLink, if_neg (text_ne_of_find? hfind), hfind, (h.twin_isTwin hf).id]

theorem mem_withControls_iff (h : c.IsTwinned) (hf : f ∈ c.before.fragments) :
    link ∈ c.withControls (c.ownLink f) ↔
      ∃ g, (g = f ∨ g ∈ controls c.before f.id) ∧ link = c.ownLink g := by
  have hstraight : (c.ownLink f).IsStraight := (ownLink_after h hf).trans ownLink_before.symm
  rw [withControls_eq, h.controlLinks_of_straight hstraight, ownLink_before, List.mem_cons,
    List.mem_map]
  constructor
  · rintro (rfl | ⟨g, hg, rfl⟩)
    · exact ⟨f, Or.inl rfl, rfl⟩
    · exact ⟨g, Or.inr hg, rfl⟩
  · rintro ⟨g, rfl | hg, rfl⟩
    · exact Or.inl rfl
    · exact Or.inr ⟨g, hg, rfl⟩

theorem isTold_eq_false_iff : c.isTold f = false ↔
    c.isChanged f = true ∧ Replacement.find? c f (c.twin f) = none := by
  simp [isTold]

theorem ownLink_of_untold (h : c.IsTwinned) (hf : f ∈ c.before.fragments)
    (huntold : c.isTold f = false) : c.ownLink f = ⟨f.id, f.id, .structural, []⟩ := by
  obtain ⟨hchanged, hnone⟩ := isTold_eq_false_iff.mp huntold
  rw [ownLink, expressionLink, if_neg (isChanged_eq_true_iff.mp hchanged), hnone,
    (h.twin_isTwin hf).id]

theorem not_isDirect_of_untold (huntold : c.isTold f = false) : ¬c.IsDirect f := by
  rintro ⟨r, hr⟩
  simp [(isTold_eq_false_iff.mp huntold).2] at hr

theorem isTold_of_isDirect (hdirect : c.IsDirect f) : c.isTold f = true := by
  rw [← Bool.not_eq_false]
  exact fun huntold => not_isDirect_of_untold huntold hdirect

theorem IsTellable.isTold_of_untold (htellable : c.IsTellable) {g : Fragment}
    (hf : f ∈ c.before.statements) (hg : g ∈ c.before.statements) (hne : f.id ≠ g.id)
    (huntold : c.isTold f = false) : c.isTold g = true := by
  cases hchanged : c.isChanged g with
  | false => simp [isTold, hchanged]
  | true =>
    exact isTold_of_isDirect (htellable.quiet f hf g hg (isTold_eq_false_iff.mp huntold).1 hchanged
      hne (not_isDirect_of_untold huntold)).1

end OwnLink

namespace LinksTwins

variable {c : Comparison} {links : List Link} {linked : Fragment → Prop}

theorem congr {linked' : Fragment → Prop} (h : c.LinksTwins links linked)
    (hiff : ∀ f, linked' f ↔ linked f) : c.LinksTwins links linked' := by
  obtain rfl : linked' = linked := funext fun f => propext (hiff f)
  exact h

theorem beforeLinked_iff (hlinks : c.LinksTwins links linked) (h : c.IsTwinned)
    (hf : f ∈ c.before.fragments) : beforeLinked links f = true ↔ linked f := by
  rw [beforeLinked, List.any_eq_true]
  constructor
  · rintro ⟨link, hlink, hid⟩
    obtain ⟨g, hg, rfl⟩ := (hlinks.mem_iff link).mp hlink
    rw [ownLink_before] at hid
    exact h.laidOut.eq_of_id (hlinks.inside g hg) hf (eq_of_beq hid) ▸ hg
  · intro hlinked
    exact ⟨c.ownLink f, (hlinks.mem_iff _).mpr ⟨f, hlinked, rfl⟩, by simp [ownLink_before]⟩

theorem phase {criterion : List Link → Criterion} (allowed : Fragment → Prop)
    (hlinks : c.LinksTwins links linked) (h : c.IsTwinned)
    (hfragments : fragments ⊆ c.before.fragments)
    (hprefers : c.PrefersTwins criterion links fragments)
    (hallows : ∀ f ∈ fragments, ¬linked f → ∀ found, criterion links f (c.twin f) = some found →
      allowed f ∧ c.ownLink f = ⟨f.id, f.id, found.1, found.2⟩)
    (hallowed : ∀ f ∈ fragments, ¬linked f → allowed f →
      ∃ found, criterion links f (c.twin f) = some found) :
    c.LinksTwins (c.phase criterion links ⟨fragments, fragments.map c.twin⟩)
      fun f => linked f ∨ (f ∈ fragments ∧ allowed f) := by
  refine ⟨?_, ?_, phase_areStraight h hfragments hlinks.straight hprefers⟩
  · intro link
    rw [mem_phase_of_prefersTwins h hfragments hlinks.straight hprefers, hlinks.mem_iff]
    constructor
    · rintro (⟨f, hf, rfl⟩ | ⟨f, hf, hfree, found, hfound, rfl⟩)
      · exact ⟨f, Or.inl hf, rfl⟩
      · have hnot : ¬linked f := by
          rw [← hlinks.beforeLinked_iff h (hfragments hf), hfree]
          exact Bool.false_ne_true
        obtain ⟨hf', hown⟩ := hallows f hf hnot found hfound
        exact ⟨f, Or.inr ⟨hf, hf'⟩, hown.symm⟩
    · rintro ⟨f, hf, rfl⟩
      by_cases hlinked : linked f
      · exact Or.inl ⟨f, hlinked, rfl⟩
      · obtain ⟨hf, hf'⟩ := hf.resolve_left hlinked
        obtain ⟨found, hfound⟩ := hallowed f hf hlinked hf'
        refine Or.inr ⟨f, hf, ?_, found, hfound, (hallows f hf hlinked found hfound).2⟩
        rw [← Bool.not_eq_true, hlinks.beforeLinked_iff h (hfragments hf)]
        exact hlinked
  · rintro f (hf | hf)
    · exact hlinks.inside f hf
    · exact hfragments hf.1

theorem exactly (hlinks : c.LinksTwins links linked) (h : c.IsTwinned) (htellable : c.IsTellable)
    (hfragments : fragments ⊆ c.before.fragments) (hshape : AreAlike fragments) :
    c.LinksTwins (c.phase Comparison.exactly links ⟨fragments, fragments.map c.twin⟩)
      fun f => linked f ∨ (f ∈ fragments ∧ c.isChanged f = false) := by
  refine hlinks.phase _ h hfragments
    (exactly_prefersTwins h htellable hlinks.straight hfragments hshape) ?_ ?_
  · intro f hf _ found hfound
    obtain ⟨htext, rfl⟩ := exactly_eq_some hfound
    exact ⟨isChanged_eq_false_iff.mpr htext, ownLink_of_kept h (hfragments hf) htext⟩
  · intro f hf _ hkept
    exact ⟨_, if_pos (isChanged_eq_false_iff.mp hkept)⟩

theorem byReplacement (hlinks : c.LinksTwins links linked) (h : c.IsTwinned)
    (htellable : c.IsTellable) (hfragments : fragments ⊆ c.before.statements)
    (hshape : AreAlike fragments) (hkept : ∀ f ∈ fragments, c.isChanged f = false → linked f) :
    c.LinksTwins (c.phase c.byReplacement links ⟨fragments, fragments.map c.twin⟩)
      fun f => linked f ∨ (f ∈ fragments ∧ (Replacement.find? c f (c.twin f)).isSome = true) := by
  have hmem : fragments ⊆ c.before.fragments := fun f hf => (List.mem_filter.mp (hfragments hf)).1
  have hfree : ∀ f ∈ fragments, beforeLinked links f = false → c.isChanged f = true := by
    intro f hf hfree
    rw [← Bool.not_eq_false]
    intro hsame
    have hlinked := (hlinks.beforeLinked_iff h (hmem hf)).mpr (hkept f hf hsame)
    rw [hfree] at hlinked
    exact Bool.false_ne_true hlinked
  refine hlinks.phase _ h hmem
    (byReplacement_prefersTwins h htellable hlinks.straight hfragments hshape hfree) ?_ ?_
  · intro f hf _ found hfound
    obtain ⟨replacements, hfind, rfl⟩ := byReplacement_eq_some_iff.mp hfound
    exact ⟨by rw [hfind]; rfl, ownLink_of_find? h (hmem hf) hfind⟩
  · intro f hf _ hsome
    obtain ⟨replacements, hfind⟩ := Option.isSome_iff_exists.mp hsome
    exact ⟨_, byReplacement_eq_some_iff.mpr ⟨replacements, hfind, rfl⟩⟩

end LinksTwins

theorem eq_of_ascending {links others : List Link}
    (hlinks : links.Pairwise fun x y => x.before < y.before)
    (hothers : others.Pairwise fun x y => x.before < y.before)
    (hsame : ∀ link, link ∈ links ↔ link ∈ others) : links = others := by
  have : Std.Irrefl fun x y : Link => x.before < y.before := ⟨fun _ => Nat.lt_irrefl _⟩
  have : Std.Antisymm fun x y : Link => x.before < y.before :=
    ⟨fun _ _ hxy hyx => absurd hxy (Nat.lt_asymm hyx)⟩
  exact hlinks.eq_of_mem_iff hothers hsame

/-- Whether a fragment is linked: a simple statement if it is told, any other if it is no block. -/
def isPaired (c : Comparison) (f : Fragment) : Bool :=
  if f.isLeaf then c.isTold f else !(f.isComposite && f.isBlock)

theorem isPaired_of_leaf (h : f.shape = .leaf) : c.isPaired f = c.isTold f := by
  simp [isPaired, Fragment.isLeaf, h]

theorem isPaired_of_composite (h : f.shape = .composite) : c.isPaired f = !f.isBlock := by
  simp [isPaired, Fragment.isLeaf, Fragment.isComposite, h]

theorem isPaired_of_expression (h : f.shape = .expression) : c.isPaired f = true := by
  simp [isPaired, Fragment.isLeaf, Fragment.isComposite, h]

section Run

variable {c : Comparison} (h : c.IsTwinned) (htellable : c.IsTellable)

include h htellable

theorem replacedLinks_linksTwins :
    c.LinksTwins c.replacedLinks fun f =>
      (f ∈ c.before.leaves ∨ f ∈ c.before.composites) ∧ c.isTold f = true := by
  have hstart : c.LinksTwins [] fun _ => False := ⟨by simp, fun f hf => hf.elim, areStraight_nil⟩
  have hleaves : AreAlike c.before.leaves := by
    intro f hf g hg
    simp [Fragment.isComposite, (Body.mem_leaves.mp hf).2, (Body.mem_leaves.mp hg).2]
  have hcomposites : AreAlike c.before.composites := by
    intro f hf g hg
    simp [Fragment.isComposite, (Body.mem_composites.mp hf).2.1, (Body.mem_composites.mp hg).2.1]
  have hexactLeaves := hstart.exactly h htellable c.before.leaves_sublist.subset hleaves
  have hexact := hexactLeaves.exactly h htellable c.before.composites_sublist.subset hcomposites
  have hreplacedLeaves := hexact.byReplacement h htellable List.filter_sublist.subset hleaves
    fun f hf hkept => Or.inl (Or.inr ⟨hf, hkept⟩)
  have hreplaced := hreplacedLeaves.byReplacement h htellable List.filter_sublist.subset
    hcomposites fun f hf hkept => Or.inl (Or.inr ⟨hf, hkept⟩)
  rw [replacedLinks, replacedLeaves, exactLinks_eq, exactLeaves, h.leaves, h.composites]
  refine hreplaced.congr fun f => ?_
  simp only [isTold, Bool.or_eq_true, Bool.not_eq_true', false_or]
  tauto

theorem holdersLinked_twin (harena : c.before.IsArena) (hf : f ∈ c.before.composites)
    (huntold : c.isTold f = false) : c.holdersLinked c.replacedLinks f (c.twin f) = true := by
  have hmem := c.before.composites_sublist.subset hf
  have hlinks := replacedLinks_linksTwins h htellable
  have hids := h.holder?_twin hmem
  unfold holdersLinked
  cases hholder : holder? c.before f with
  | none =>
    rw [hholder, Option.map_none, Option.map_eq_none_iff] at hids
    rw [hids]
  | some g =>
    rw [hholder, Option.map_some] at hids
    obtain ⟨g', hg', hid⟩ := Option.map_eq_some_iff.mp hids
    rw [hg']
    dsimp only
    -- What holds the statement is another one, so it is told, and therefore linked.
    have habove := List.mem_of_find?_eq_some hholder
    obtain ⟨hg, hlt⟩ := harena.mem_of_mem_ancestors hmem habove
    have hshape := harena.composite_of_mem_ancestors hmem habove
    have hblock : g.isBlock = false := by simpa using List.find?_some hholder
    have hcomposite := Body.mem_composites.mpr ⟨hg, hshape, hblock⟩
    have htold : c.isTold g = true :=
      htellable.isTold_of_untold (List.filter_sublist.subset hf)
        (List.filter_sublist.subset hcomposite) (Nat.ne_of_gt hlt) huntold
    have hlink := (hlinks.mem_iff _).mpr ⟨g, ⟨Or.inr hcomposite, htold⟩, rfl⟩
    have hlinked := VariableDelta.areLinked_of_straight hlinks.straight.straight hlink
    rw [hid]
    rwa [ownLink_before] at hlinked

theorem byPlace_twin (harena : c.before.IsArena) (hf : f ∈ c.before.composites)
    (huntold : c.isTold f = false) :
    c.byPlace c.replacedLinks f (c.twin f) = some (.structural, []) := by
  have hmem := c.before.composites_sublist.subset hf
  have htwin := h.twin_isTwin hmem
  have hparent : f.parent.isSome = true := by
    rw [Option.isSome_iff_ne_none]
    intro hnone
    have hget := Body.get?_of_mem h.laidOut.ids hmem
    rw [(harena.root f hmem).mp hnone] at hget
    have hblock := (Body.mem_composites.mp hf).2.2
    simp [Fragment.isBlock, (harena.block f hget).1] at hblock
  refine if_pos ⟨(h.ancestorKinds_twin hmem).symm, Or.inr ⟨?_, htwin.index.symm⟩⟩
  rw [htwin.parent, hparent, holdersLinked_twin h htellable harena hf huntold]
  rfl

/-- The links between statements: all composites are linked, and the simple statements that are
told. -/
theorem statementLinks_linksTwins (harena : c.before.IsArena) :
    c.LinksTwins c.statementLinks fun f =>
      f ∈ c.before.composites ∨ (f ∈ c.before.leaves ∧ c.isTold f = true) := by
  have hlinks := replacedLinks_linksTwins h htellable
  have huntold : ∀ f ∈ c.before.composites,
      ¬((f ∈ c.before.leaves ∨ f ∈ c.before.composites) ∧ c.isTold f = true) →
        c.isTold f = false := by
    intro f hf hnot
    rw [← Bool.not_eq_true]
    exact fun htold => hnot ⟨Or.inr hf, htold⟩
  have hfree : ∀ f ∈ c.before.composites, beforeLinked c.replacedLinks f = false →
      c.isTold f = false := by
    intro f hf hfree
    apply huntold f hf
    rw [← hlinks.beforeLinked_iff h (c.before.composites_sublist.subset hf), hfree]
    exact Bool.false_ne_true
  have hprefers : c.PrefersTwins c.byPlace c.replacedLinks c.before.composites := by
    intro b hb a ha hne hfreeb hfreea
    have htold := htellable.isTold_of_untold (List.filter_sublist.subset hb)
      (List.filter_sublist.subset ha) hne (hfree b hb hfreeb)
    rw [hfree a ha hfreea] at htold
    exact absurd htold Bool.false_ne_true
  have hall := hlinks.phase (fun _ => True) h c.before.composites_sublist.subset hprefers
    (by
      intro f hf hnot found hfound
      rw [byPlace_twin h htellable harena hf (huntold f hf hnot)] at hfound
      rw [← Option.some.inj hfound]
      exact ⟨trivial, ownLink_of_untold h (c.before.composites_sublist.subset hf)
        (huntold f hf hnot)⟩)
    (by
      intro f hf hnot _
      exact ⟨_, byPlace_twin h htellable harena hf (huntold f hf hnot)⟩)
  rw [← h.composites] at hall
  refine hall.congr fun f => ?_
  tauto

end Run

/-- Corresponding bodies of methods whose texts can be told apart. -/
structure IsParallel (c : Comparison) : Prop where
  twinned : c.IsTwinned
  tellable : c.IsTellable
  before : c.before.IsOfMethod
  after : c.after.IsLaidOut

namespace IsParallel

variable {c : Comparison} (h : c.IsParallel)

include h

theorem linksTwins : c.LinksTwins c.statementLinks fun f =>
    f ∈ c.before.composites ∨ (f ∈ c.before.leaves ∧ c.isTold f = true) :=
  statementLinks_linksTwins h.twinned h.tellable h.before.isArena

theorem isPaired_of_mem_align (hlink : link ∈ c.align.links) :
    ∃ f ∈ c.before.fragments, c.isPaired f = true ∧ link = c.ownLink f := by
  have hlaid := h.twinned.laidOut
  rw [align_links, List.mem_flatMap] at hlink
  obtain ⟨statement, hmem, hlink⟩ := hlink
  rw [c.sortedLinks_perm.mem_iff, h.linksTwins.mem_iff] at hmem
  obtain ⟨f, hf, rfl⟩ := hmem
  have hinside := h.linksTwins.inside f hf
  obtain ⟨g, rfl | hg, rfl⟩ := (mem_withControls_iff h.twinned hinside).mp hlink
  · refine ⟨g, hinside, ?_, rfl⟩
    rcases hf with hf | ⟨hf, htold⟩
    · obtain ⟨-, hshape, hblock⟩ := Body.mem_composites.mp hf
      rw [isPaired_of_composite hshape, hblock, Bool.not_false]
    · rw [isPaired_of_leaf (Body.mem_leaves.mp hf).2, htold]
  · obtain ⟨hget, index, hcontrol⟩ := control_of_mem_controls hlaid
      (Body.get?_of_mem hlaid.ids hinside) hg
    exact ⟨g, Body.mem_of_get? hget, isPaired_of_expression hcontrol.shape, rfl⟩

theorem ownLink_mem_align (hf : f ∈ c.before.fragments) (hpaired : c.isPaired f = true) :
    c.ownLink f ∈ c.align.links := by
  have hlaid := h.twinned.laidOut
  have hlisted : ∀ g, g ∈ c.before.composites ∨ (g ∈ c.before.leaves ∧ c.isTold g = true) →
      ∀ link ∈ c.withControls (c.ownLink g), link ∈ c.align.links := by
    intro g hg link hlink
    rw [align_links, List.mem_flatMap]
    refine ⟨c.ownLink g, ?_, hlink⟩
    rw [c.sortedLinks_perm.mem_iff, h.linksTwins.mem_iff]
    exact ⟨g, hg, rfl⟩
  cases hshape : f.shape with
  | leaf =>
    rw [isPaired_of_leaf hshape] at hpaired
    exact hlisted f (Or.inr ⟨Body.mem_leaves.mpr ⟨hf, hshape⟩, hpaired⟩) _ List.mem_cons_self
  | composite =>
    have hblock : f.isBlock = false := by simpa [isPaired_of_composite hshape] using hpaired
    exact hlisted f (Or.inl (Body.mem_composites.mpr ⟨hf, hshape, hblock⟩)) _ List.mem_cons_self
  | expression =>
    obtain ⟨owner, hcomposite, hexpression⟩ := h.before.owner hf hshape
    have hmem := c.before.composites_sublist.subset hcomposite
    have hget := Body.get?_of_mem hlaid.ids hmem
    obtain ⟨g, hg, hid⟩ := List.mem_map.mp (controls_ids hlaid hget ▸ hexpression)
    have hget' := (control_of_mem_controls hlaid hget hg).1
    obtain rfl := hlaid.eq_of_id (Body.mem_of_get? hget') hf hid
    exact hlisted owner (Or.inl hcomposite) _
      ((mem_withControls_iff h.twinned hmem).mpr ⟨g, Or.inr hg, rfl⟩)

/-- The links of the alignment: every fragment but the blocks and the untold simple statements is
linked with its twin, in the order of the first body. -/
theorem align_links_eq : c.align.links = (c.before.fragments.filter c.isPaired).map c.ownLink := by
  have hlaid := h.twinned.laidOut
  have hbefore : ((c.before.fragments.filter c.isPaired).map c.ownLink).map Link.before =
      (c.before.fragments.filter c.isPaired).map Fragment.id := by
    rw [List.map_map]
    exact List.map_congr_left fun f _ => ownLink_before
  have hlinks : c.align.links.Pairwise fun x y => x.before < y.before :=
    List.pairwise_map.mp (align_before_pairwise hlaid h.after)
  have hown : ((c.before.fragments.filter c.isPaired).map c.ownLink).Pairwise
      fun x y => x.before < y.before := by
    rw [← List.pairwise_map, hbefore]
    apply List.Pairwise.sublist (List.filter_sublist.map Fragment.id)
    rw [hlaid.ids]
    exact List.pairwise_lt_range
  refine eq_of_ascending hlinks hown fun link => ?_
  rw [List.mem_map]
  constructor
  · intro hlink
    obtain ⟨f, hf, hpaired, rfl⟩ := h.isPaired_of_mem_align hlink
    exact ⟨f, List.mem_filter.mpr ⟨hf, hpaired⟩, rfl⟩
  · rintro ⟨f, hf, rfl⟩
    obtain ⟨hf, hpaired⟩ := List.mem_filter.mp hf
    exact h.ownLink_mem_align hf hpaired

theorem align_isStraight (hlink : link ∈ c.align.links) : link.IsStraight := by
  obtain ⟨f, hf, -, rfl⟩ := h.isPaired_of_mem_align hlink
  exact (ownLink_after h.twinned hf).trans ownLink_before.symm

theorem declaredTogether {v w : Variable} (hv : v ∈ c.before.declarations)
    (hstatement : w.statement = v.statement)
    (hpaired : ∀ f ∈ c.before.leaves, v.statement = some f.id → c.isTold f = true) :
    VariableDelta.declaredTogether c.align.links v w = true := by
  rcases h.before.originates v hv with ⟨hnone, hrole⟩ | ⟨f, hf, hsome, hshape, hblock⟩
  · simp [VariableDelta.declaredTogether, hnone, hrole]
  · have hpaired : c.isPaired f = true := by
      cases hkind : f.shape with
      | leaf =>
        rw [isPaired_of_leaf hkind]
        exact hpaired f (Body.mem_leaves.mpr ⟨hf, hkind⟩) hsome
      | composite => rw [isPaired_of_composite hkind, hblock, Bool.not_false]
      | expression => exact isPaired_of_expression hkind
    have hlinked := VariableDelta.areLinked_of_straight (fun link => h.align_isStraight)
      (h.ownLink_mem_align hf hpaired)
    rw [ownLink_before] at hlinked
    simp only [VariableDelta.declaredTogether, hstatement, hsome, hlinked]

theorem mem_linked_iff (hf : f ∈ c.before.fragments) :
    f.id ∈ c.align.links.map Link.before ↔ c.isPaired f = true := by
  rw [h.align_links_eq, List.map_map, List.mem_map]
  constructor
  · rintro ⟨g, hg, hid⟩
    obtain ⟨hmem, hpaired⟩ := List.mem_filter.mp hg
    exact h.twinned.laidOut.eq_of_id hmem hf (ownLink_before.symm.trans hid) ▸ hpaired
  · intro hpaired
    exact ⟨f, List.mem_filter.mpr ⟨hf, hpaired⟩, ownLink_before⟩

theorem unlinked_twins (hfragments : fragments ⊆ c.before.fragments) :
    unlinked (c.align.links.map Link.after) (fragments.map c.twin) =
      unlinked (c.align.links.map Link.before) fragments := by
  have hends : c.align.links.map Link.after = c.align.links.map Link.before :=
    List.map_congr_left fun link hlink => h.align_isStraight hlink
  have hids : (fragments.map c.twin).map Fragment.id = fragments.map Fragment.id := by
    rw [List.map_map]
    exact List.map_congr_left fun f hf => (h.twinned.twin_isTwin (hfragments hf)).id
  rw [unlinked, unlinked, hends, hids]

theorem unmapped_leaves :
    c.align.unmappedBeforeLeaves = (c.before.leaves.filter fun f => !c.isTold f).map Fragment.id ∧
      c.align.unmappedAfterLeaves = c.align.unmappedBeforeLeaves := by
  have hbefore : c.align.unmappedBeforeLeaves =
      unlinked (c.align.links.map Link.before) c.before.leaves :=
    congrArg (fun sides : Sides => unlinked (c.align.links.map Link.before) sides.before)
      h.twinned.leaves
  have hafter : c.align.unmappedAfterLeaves =
      unlinked (c.align.links.map Link.after) (c.before.leaves.map c.twin) :=
    congrArg (fun sides : Sides => unlinked (c.align.links.map Link.after) sides.after)
      h.twinned.leaves
  refine ⟨?_, ?_⟩
  · rw [hbefore, unlinked, List.filter_map]
    congr 1
    apply List.filter_congr
    intro f hf
    obtain ⟨hmem, hshape⟩ := Body.mem_leaves.mp hf
    rw [Function.comp_apply, ← isPaired_of_leaf hshape, Bool.eq_iff_iff, Bool.not_eq_true',
      Bool.not_eq_true', ← Bool.not_eq_true, ← Bool.not_eq_true, List.contains_iff_mem,
      h.mem_linked_iff hmem]
  · rw [hafter, hbefore]
    exact h.unlinked_twins c.before.leaves_sublist.subset

theorem unmapped_composites :
    c.align.unmappedBeforeComposites = [] ∧ c.align.unmappedAfterComposites = [] := by
  have hnone : unlinked (c.align.links.map Link.before) c.before.composites = [] := by
    rw [unlinked, List.filter_eq_nil_iff, List.forall_mem_map]
    intro f hf
    obtain ⟨hmem, hshape, hblock⟩ := Body.mem_composites.mp hf
    have hlinked := (h.mem_linked_iff hmem).mpr
      (by rw [isPaired_of_composite hshape, hblock, Bool.not_false])
    simp [hlinked]
  have hbefore : c.align.unmappedBeforeComposites =
      unlinked (c.align.links.map Link.before) c.before.composites :=
    congrArg (fun sides : Sides => unlinked (c.align.links.map Link.before) sides.before)
      h.twinned.composites
  have hafter : c.align.unmappedAfterComposites =
      unlinked (c.align.links.map Link.after) (c.before.composites.map c.twin) :=
    congrArg (fun sides : Sides => unlinked (c.align.links.map Link.after) sides.after)
      h.twinned.composites
  rw [hbefore, hafter, h.unlinked_twins c.before.composites_sublist.subset, hnone]
  exact ⟨rfl, rfl⟩

end IsParallel

end Comparison

end CodeEvolution
