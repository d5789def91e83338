import CodeEvolution.Proofs.Alignment.ExactLinks
import CodeEvolution.Proofs.Body.RenamedBody
/-!
# Bodies whose fragments correspond

Two bodies may have the same fragments in the same places and differ in texts only. Every fragment
then has a twin, and nesting is the same on both sides. A link is straight if it joins a fragment
with its twin. No depth or position is lost along a straight link, and a statement shares most with
its twin, so a straight link is cheaper than any other of no fewer replacements.
-/
namespace CodeEvolution

variable {a : Fragment} {body : Body} {f g d b x : Fragment} {link : Link} {penalty less : Nat}
  (id : Nat)

def Link.IsStraight (link : Link) : Prop :=
  link.after = link.before

theorem Body.IsLaidOut.eq_of_id (h : body.IsLaidOut) (hf : f ∈ body.fragments)
    (hg : g ∈ body.fragments) (hid : f.id = g.id) : f = g := by
  have hget := Body.get?_of_mem h.ids hf
  rw [hid, Body.get?_of_mem h.ids hg] at hget
  exact (Option.some.inj hget).symm

theorem VariableDelta.areLinked_of_straight {links : List Link}
    (hstraight : ∀ link ∈ links, link.IsStraight) (hlink : link ∈ links) :
    VariableDelta.areLinked links link.before link.before = true := by
  rw [VariableDelta.areLinked]
  cases hfind : links.find? fun other => other.before == link.before with
  | none => simpa using List.find?_eq_none.mp hfind link hlink
  | some other =>
    have hbefore : other.before = link.before := by simpa using List.find?_some hfind
    rw [Option.map_some, hstraight other (List.mem_of_find?_eq_some hfind), hbefore,
      beq_self_eq_true]

namespace Comparison

open OneToOne

/-- The fragment of the second body with the number of one of the first. -/
def twin (c : Comparison) (f : Fragment) : Fragment :=
  (c.after.get? f.id).getD f

/-- A comparison of two whole bodies whose fragments correspond in kind and place. -/
structure IsTwinned (c : Comparison) : Prop where
  fragments : List.Forall₂ Fragment.IsTwin c.before.fragments c.after.fragments
  laidOut : c.before.IsLaidOut
  beforeScope : c.beforeScope = none
  afterScope : c.afterScope = none

def isInside (body : Body) (f d : Fragment) : Bool :=
  (body.ancestors d).any fun h => h.id == f.id

theorem descendants_any_id (hlaid : body.IsLaidOut) (hd : d ∈ body.statements) (f : Fragment) :
    ((body.descendants f).any fun e => e.id == d.id) = isInside body f d := by
  rw [Bool.eq_iff_iff, List.any_eq_true]
  constructor
  · rintro ⟨e, he, hid⟩
    obtain ⟨hstatement, hinside⟩ := List.mem_filter.mp he
    have hget := Body.get?_of_mem hlaid.ids (List.mem_filter.mp hstatement).1
    rw [eq_of_beq hid, Body.get?_of_mem hlaid.ids (List.mem_filter.mp hd).1] at hget
    rwa [Option.some.inj hget]
  · intro hinside
    exact ⟨d, List.mem_filter.mpr ⟨hd, hinside⟩, beq_self_eq_true _⟩

namespace IsTwinned

variable {c : Comparison} (h : c.IsTwinned) {f : Fragment}

include h

theorem exists_twin {id : Nat} (hget : c.before.get? id = some f) :
    c.after.get? id = some (c.twin f) ∧ f.IsTwin (c.twin f) := by
  obtain ⟨g, hg, htwin⟩ := Body.exists_of_getElem? h.fragments hget
  have hself : c.twin f = g := by
    rw [twin, Body.id_of_get? h.laidOut.ids hget, Body.get?, hg, Option.getD_some]
  rw [hself]
  exact ⟨hg, htwin⟩

theorem twin_isTwin (hf : f ∈ c.before.fragments) : f.IsTwin (c.twin f) :=
  (h.exists_twin (Body.get?_of_mem h.laidOut.ids hf)).2

theorem after_get? : c.after.get? id = (c.before.get? id).map c.twin := by
  cases hget : c.before.get? id with
  | none =>
    rw [Body.get?, List.getElem?_eq_none_iff, h.fragments.length_eq] at hget
    rw [Option.map_none, Body.get?, List.getElem?_eq_none_iff]
    exact hget
  | some f => rw [(h.exists_twin hget).1, Option.map_some]

theorem after_fragments : c.after.fragments = c.before.fragments.map c.twin := by
  apply List.ext_getElem?
  intro id
  rw [List.getElem?_map]
  exact h.after_get? id

theorem filter_after {p : Fragment → Bool} (hp : ∀ f g : Fragment, f.IsTwin g → p g = p f) :
    c.after.fragments.filter p = (c.before.fragments.filter p).map c.twin := by
  rw [h.after_fragments, List.filter_map]
  congr 1
  exact List.filter_congr fun f hf => hp f _ (h.twin_isTwin hf)

theorem leaves : c.leaves = ⟨c.before.leaves, c.before.leaves.map c.twin⟩ := by
  rw [Comparison.leaves, h.beforeScope, h.afterScope]
  congr 1
  rw [inScope, Body.leaves, Body.leaves, Body.statements, Body.statements, List.filter_filter,
    List.filter_filter, h.filter_after]
  intro f g htwin
  rw [Fragment.isLeaf, Fragment.isStatement, htwin.shape]
  rfl

theorem composites : c.composites = ⟨c.before.composites, c.before.composites.map c.twin⟩ := by
  rw [Comparison.composites, h.beforeScope, h.afterScope]
  congr 1
  rw [inScope, Body.composites, Body.composites, Body.statements, Body.statements,
    List.filter_filter, List.filter_filter, h.filter_after]
  intro f g htwin
  rw [Fragment.isComposite, Fragment.isStatement, Fragment.isBlock, htwin.shape, htwin.kind]
  rfl

theorem ancestorsUpTo_twins (bound : Nat) (parent : Option Nat) :
    List.Forall₂ Fragment.IsTwin (c.before.ancestorsUpTo bound parent)
      (c.after.ancestorsUpTo bound parent) := by
  induction bound generalizing parent with
  | zero => exact .nil
  | succ bound ih =>
    cases parent with
    | none => exact .nil
    | some id =>
      rw [Body.ancestorsUpTo, Body.ancestorsUpTo, h.after_get?]
      cases hget : c.before.get? id with
      | none => exact .nil
      | some f =>
        have htwin := h.twin_isTwin (Body.mem_of_get? hget)
        dsimp only [Option.map_some]
        rw [htwin.parent]
        exact .cons htwin (ih f.parent)

theorem ancestors_twins (htwin : f.IsTwin g) :
    List.Forall₂ Fragment.IsTwin (c.before.ancestors f) (c.after.ancestors g) := by
  rw [Body.ancestors, Body.ancestors, htwin.parent, ← h.fragments.length_eq]
  exact h.ancestorsUpTo_twins _ _

theorem ancestorKinds_twin (hf : f ∈ c.before.fragments) :
    c.after.ancestorKinds (c.twin f) = c.before.ancestorKinds f := by
  refine Body.filter_labels_eq (h.ancestors_twins (h.twin_isTwin hf)) (fun f g ht => ht.kind) ?_
  intro f g htwin
  rw [Fragment.isBlock, Fragment.isBlock, htwin.kind]

theorem holder?_twin (hf : f ∈ c.before.fragments) :
    (holder? c.after (c.twin f)).map Fragment.id = (holder? c.before f).map Fragment.id := by
  have hlabels := Body.filter_labels_eq (h.ancestors_twins (h.twin_isTwin hf))
    (p := fun g => !g.isBlock) (q := fun g => !g.isBlock) (fun f g ht => ht.id) (by
      intro f g htwin
      rw [Fragment.isBlock, Fragment.isBlock, htwin.kind])
  rw [holder?, holder?, ← List.head?_filter, ← List.head?_filter, ← List.head?_map,
    ← List.head?_map, hlabels]

theorem isInside_twin (ha : a ∈ c.before.fragments) {e : Fragment} (hde : d.IsTwin e) :
    isInside c.after (c.twin a) e = isInside c.before a d := by
  refine DeclaredNames.any_eq_of_forall₂ (h.ancestors_twins hde) ?_
  intro f g htwin
  rw [htwin.id, (h.twin_isTwin ha).id]

theorem descendants_twin (ha : a ∈ c.before.fragments) (id : Nat) :
    ((c.after.descendants (c.twin a)).any fun e => e.id == id) =
      (c.before.descendants a).any fun e => e.id == id := by
  rw [Body.descendants, Body.descendants, List.any_filter, List.any_filter, Body.statements,
    Body.statements, List.any_filter, List.any_filter]
  refine DeclaredNames.any_eq_of_forall₂ h.fragments fun d e hde => ?_
  have hinside := h.isInside_twin ha hde
  unfold isInside at hinside
  rw [hinside, hde.id, Fragment.isStatement, hde.shape]
  rfl

theorem controls_after : controls c.after id = (controls c.before id).map c.twin := by
  unfold controls
  rw [h.after_get?]
  cases hget : c.before.get? id with
  | none => rfl
  | some f =>
    dsimp only [Option.map_some]
    rw [(h.twin_isTwin (Body.mem_of_get? hget)).expressions, List.map_filterMap]
    exact List.filterMap_congr fun control _ => h.after_get? control

theorem controlLinks_of_straight (hstraight : link.IsStraight) :
    c.controlLinks link =
      (controls c.before link.before).map fun g => c.expressionLink g (c.twin g) := by
  rw [controlLinks, hstraight, h.controls_after, List.zip_eq_zipWith, List.zipWith_map_right,
    List.zipWith_self, List.map_map]
  rfl

end IsTwinned

section Cost

variable {c : Comparison} {links : List Link}

theorem afterLinked_twin (h : c.IsTwinned) (hlinks : ∀ link ∈ links, link.IsStraight)
    (hf : f ∈ c.before.fragments) : afterLinked links (c.twin f) = beforeLinked links f := by
  rw [afterLinked, beforeLinked, Bool.eq_iff_iff, List.any_eq_true, List.any_eq_true,
    (h.twin_isTwin hf).id]
  constructor
  · rintro ⟨link, hlink, hid⟩
    exact ⟨link, hlink, (hlinks link hlink) ▸ hid⟩
  · rintro ⟨link, hlink, hid⟩
    exact ⟨link, hlink, (hlinks link hlink).symm ▸ hid⟩

/-- What a fragment and a twin share is what the first body has inside both. -/
theorem sharedInside_twin (h : c.IsTwinned) (hlinks : ∀ link ∈ links, link.IsStraight)
    (ha : a ∈ c.before.fragments) (b : Fragment) :
    c.sharedInside links b (c.twin a) = c.before.statements.countP fun d =>
      beforeLinked links d && isInside c.before a d && isInside c.before b d := by
  rw [sharedInside, Body.descendants.eq_def c.before b, List.filter_filter,
    ← List.countP_eq_length_filter]
  apply List.countP_congr
  intro d hd
  rw [← descendants_any_id h.laidOut hd a, ← h.descendants_twin ha d.id, beforeLinked]
  cases hfind : links.find? fun link => link.before == d.id with
  | none =>
    have hfree : (links.any fun link => link.before == d.id) = false := by
      simpa [List.find?_eq_none] using hfind
    simp [hfree]
  | some link =>
    have hlink := List.mem_of_find?_eq_some hfind
    have hbefore : link.before = d.id := by simpa using List.find?_some hfind
    have hafter : link.after = d.id := (hlinks link hlink).trans hbefore
    have hlinked : (links.any fun link => link.before == d.id) = true :=
      List.any_eq_true.mpr ⟨link, hlink, by simp [hbefore]⟩
    simp only [hlinked, Bool.true_and, hafter, isInside]

theorem sharedInside_twin_le (h : c.IsTwinned) (hlinks : ∀ link ∈ links, link.IsStraight)
    (hb : b ∈ c.before.fragments) (ha : a ∈ c.before.fragments) (hx : x = b ∨ x = a) :
    c.sharedInside links b (c.twin a) ≤ c.sharedInside links x (c.twin x) := by
  have hmem : x ∈ c.before.fragments := by rcases hx with rfl | rfl <;> assumption
  rw [sharedInside_twin h hlinks ha, sharedInside_twin h hlinks hmem]
  apply List.countP_mono_left
  intro d _
  simp only [Bool.and_eq_true]
  rintro ⟨⟨hlinked, ha⟩, hb⟩
  rcases hx with rfl | rfl
  · exact ⟨⟨hlinked, hb⟩, hb⟩
  · exact ⟨⟨hlinked, ha⟩, ha⟩

theorem not_costLe_straight {far near depth index b a x : Nat} (hless : less ≤ penalty)
    (hnear : near ≤ far)
    (hloss : less < penalty ∨ 0 < depth ∨ 0 < index ∨ (x ≤ b ∧ x ≤ a ∧ b ≠ a)) :
    costLe [penalty, far, depth, index, b, a] [less, near, 0, 0, x, x] = false := by
  simp only [costLe]
  grind

/-- A link is dearer than the straight link of one of its ends, if that has no more replacements
and the link has more of them, loses depth or position, or the end has the smaller number. -/
theorem straight_cheaper (h : c.IsTwinned) (hlinks : ∀ link ∈ links, link.IsStraight)
    (hb : b ∈ c.before.fragments) (ha : a ∈ c.before.fragments)
    (hshape : b.isComposite = a.isComposite) (hx : x = b ∨ x = a) (hless : less ≤ penalty)
    (hloss : less < penalty ∨ b.depth ≠ a.depth ∨ b.index ≠ a.index ∨
      (x.id ≤ b.id ∧ x.id ≤ a.id ∧ b.id ≠ a.id)) :
    costLe (c.cost links penalty b (c.twin a)) (c.cost links less x (c.twin x)) = false := by
  have hmem : x ∈ c.before.fragments := by rcases hx with rfl | rfl <;> assumption
  have hcomposite : x.isComposite = b.isComposite := by
    rcases hx with rfl | rfl
    · rfl
    · exact hshape.symm
  have hshared := sharedInside_twin_le h hlinks hb ha hx
  have htwin := h.twin_isTwin ha
  have hself := h.twin_isTwin hmem
  simp only [cost, hcomposite, htwin.depth, htwin.index, htwin.id, hself.depth, hself.index,
    hself.id]
  have hzero : ∀ n, gap n n = 0 := by simp [gap]
  rw [hzero, hzero]
  apply not_costLe_straight hless
  · split <;> omega
  · unfold gap
    omega

end Cost

end Comparison

end CodeEvolution
