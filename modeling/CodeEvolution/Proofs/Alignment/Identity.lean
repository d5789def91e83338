import CodeEvolution.Proofs.Alignment.StraightLinks
/-!
# A body aligned with itself

Every fragment of a body is its own twin, and no text changes. So the alignment of the body with
itself links every fragment but the blocks to itself and leaves nothing over, and its ratio is one.
-/
namespace CodeEvolution

variable {f : Fragment}

def Link.identity (id : Nat) : Link :=
  ⟨id, id, .exact, []⟩

def Link.IsIdentity (link : Link) : Prop :=
  link = .identity link.before

namespace Comparison

theorem leaves_append_composites_nodup {body : Body} (hlaid : body.IsLaidOut) :
    ((body.leaves ++ body.composites).map Fragment.id).Nodup := by
  rw [List.map_append, List.nodup_append]
  refine ⟨hlaid.nodup_ids body.leaves_sublist, hlaid.nodup_ids body.composites_sublist, ?_⟩
  intro id hleaf id' hcomposite heq
  obtain ⟨f, hf, rfl⟩ := List.mem_map.mp hleaf
  obtain ⟨g, hg, rfl⟩ := List.mem_map.mp hcomposite
  obtain ⟨hf, hleaf⟩ := Body.mem_leaves.mp hf
  obtain ⟨hg, hcomposite, -⟩ := Body.mem_composites.mp hg
  have hget := Body.get?_of_mem hlaid.ids hf
  rw [heq, Body.get?_of_mem hlaid.ids hg] at hget
  rw [Option.some.inj hget, hleaf] at hcomposite
  simp at hcomposite

/-- A comparison of a whole body with itself. -/
structure IsReflexive (c : Comparison) : Prop where
  after : c.after = c.before
  beforeScope : c.beforeScope = none
  afterScope : c.afterScope = none

variable {c : Comparison} (hself : c.IsReflexive)

include hself

namespace IsReflexive

theorem leaves : c.leaves = ⟨c.before.leaves, c.before.leaves⟩ := by
  rw [Comparison.leaves, hself.after, hself.beforeScope, hself.afterScope]
  rfl

theorem composites : c.composites = ⟨c.before.composites, c.before.composites⟩ := by
  rw [Comparison.composites, hself.after, hself.beforeScope, hself.afterScope]
  rfl

variable (hlaid : c.before.IsLaidOut)

include hlaid

theorem isTwinned : c.IsTwinned where
  fragments := by
    rw [hself.after]
    exact List.forall₂_same.mpr fun f _ => ⟨rfl, rfl, rfl, rfl, rfl, rfl, rfl, rfl⟩
  laidOut := hlaid
  beforeScope := hself.beforeScope
  afterScope := hself.afterScope

theorem twin_eq (hf : f ∈ c.before.fragments) : c.twin f = f := by
  rw [twin, hself.after, Body.get?_of_mem hlaid.ids hf, Option.getD_some]

theorem isChanged_eq_false (hf : f ∈ c.before.fragments) : c.isChanged f = false := by
  rw [isChanged_eq_false_iff, hself.twin_eq hlaid hf]

theorem isTold_eq_true (hf : f ∈ c.before.fragments) : c.isTold f = true := by
  rw [isTold, hself.isChanged_eq_false hlaid hf]
  rfl

theorem isTellable : c.IsTellable where
  alike f hf g hg _ htext := by rw [hself.twin_eq hlaid hf, hself.twin_eq hlaid hg, htext]
  apart f hf g _ hchanged := by
    rw [hself.isChanged_eq_false hlaid hf] at hchanged
    cases hchanged
  quiet f hf g _ hchanged := by
    rw [hself.isChanged_eq_false hlaid (List.mem_filter.mp hf).1] at hchanged
    cases hchanged

theorem ownLink_eq (hf : f ∈ c.before.fragments) : c.ownLink f = .identity f.id :=
  ownLink_of_kept (hself.isTwinned hlaid) hf
    (isChanged_eq_false_iff.mp (hself.isChanged_eq_false hlaid hf))

theorem isPaired_eq (hf : f ∈ c.before.fragments) :
    c.isPaired f = !(f.isComposite && f.isBlock) := by
  rw [isPaired, hself.isTold_eq_true hlaid hf]
  split
  · rename_i hleaf
    have hshape : f.shape = .leaf := by simpa [Fragment.isLeaf] using hleaf
    simp [Fragment.isComposite, hshape]
  · rfl

end IsReflexive

variable (hbody : c.before.IsOfMethod)

include hbody

theorem IsReflexive.isParallel : c.IsParallel where
  twinned := hself.isTwinned hbody.isLaidOut
  tellable := hself.isTellable hbody.isLaidOut
  before := hbody
  after := hself.after ▸ hbody.isLaidOut

theorem align_links_eq_identities :
    c.align.links = (c.before.fragments.filter fun f => !(f.isComposite && f.isBlock)).map
      fun f => .identity f.id := by
  have hlaid := hbody.isLaidOut
  rw [(hself.isParallel hbody).align_links_eq,
    List.filter_congr fun f hf => hself.isPaired_eq hlaid hf]
  exact List.map_congr_left fun f hf => hself.ownLink_eq hlaid (List.mem_filter.mp hf).1

theorem align_isIdentity : ∀ link ∈ c.align.links, link.IsIdentity := by
  intro link hlink
  rw [align_links_eq_identities hself hbody] at hlink
  obtain ⟨f, -, rfl⟩ := List.mem_map.mp hlink
  rfl

theorem mem_sortedLinks_iff (link : Link) :
    link ∈ c.sortedLinks ↔
      ∃ f, (f ∈ c.before.leaves ∨ f ∈ c.before.composites) ∧ link = .identity f.id := by
  have hlaid := hbody.isLaidOut
  have hmem : ∀ f, f ∈ c.before.leaves ∨ f ∈ c.before.composites → f ∈ c.before.fragments :=
    fun f hf => hf.elim (c.before.leaves_sublist.subset ·) (c.before.composites_sublist.subset ·)
  rw [c.sortedLinks_perm.mem_iff, (hself.isParallel hbody).linksTwins.mem_iff]
  refine exists_congr fun f => ?_
  constructor
  · rintro ⟨hf, rfl⟩
    have hf := hf.symm.imp_left And.left
    exact ⟨hf, hself.ownLink_eq hlaid (hmem f hf)⟩
  · rintro ⟨hf, rfl⟩
    exact ⟨hf.symm.imp_right fun hf => ⟨hf, hself.isTold_eq_true hlaid (hmem f (.inl hf))⟩,
      (hself.ownLink_eq hlaid (hmem f hf)).symm⟩

theorem sortedLinks_length :
    c.sortedLinks.length = c.before.leaves.length + c.before.composites.length := by
  have hperm : (c.sortedLinks.map Link.before).Perm
      ((c.before.leaves ++ c.before.composites).map Fragment.id) := by
    rw [List.perm_ext_iff_of_nodup c.sortedLinks_linking.injective.1
      (leaves_append_composites_nodup hbody.isLaidOut)]
    intro id
    simp only [List.mem_map, List.mem_append, mem_sortedLinks_iff hself hbody]
    constructor
    · rintro ⟨link, ⟨f, hf, rfl⟩, rfl⟩
      exact ⟨f, hf, rfl⟩
    · rintro ⟨f, hf, rfl⟩
      exact ⟨.identity f.id, ⟨f, hf, rfl⟩, rfl⟩
  simpa only [List.length_map, List.length_append] using hperm.length_eq

theorem align_ratio_eq_one : c.align.ratio = .one := by
  have hall : 2 * c.sortedLinks.length = c.statementsInScope := by
    rw [sortedLinks_length hself hbody, statementsInScope, hself.leaves, hself.composites,
      Nat.two_mul]
  rw [align_ratio, hall]
  split
  · rfl
  · rename_i hsome
    exact Binary64.quotient_self (Nat.pos_of_ne_zero hsome)

theorem align_isIdentical : c.align.isIdentical = true := by
  obtain ⟨hleaves, hleaves'⟩ := (hself.isParallel hbody).unmapped_leaves
  obtain ⟨hcomposites, hcomposites'⟩ := (hself.isParallel hbody).unmapped_composites
  have hnone : (c.before.leaves.filter fun f => !c.isTold f) = [] := by
    rw [List.filter_eq_nil_iff]
    intro f hf
    rw [hself.isTold_eq_true hbody.isLaidOut (c.before.leaves_sublist.subset hf)]
    exact Bool.false_ne_true
  have hexact : ∀ link ∈ c.align.links, (link.kind == .exact) = true := by
    intro link hlink
    rw [align_isIdentity hself hbody link hlink]
    rfl
  rw [hnone, List.map_nil] at hleaves
  simpa [Alignment.isIdentical, hleaves, hleaves', hcomposites, hcomposites'] using hexact

end Comparison

end CodeEvolution
