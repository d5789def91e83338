import CodeEvolution.Proofs.Alignment.Listing
import CodeEvolution.Proofs.Body.Arena
import CodeEvolution.Proofs.Number.Binary64
import Mathlib.Data.List.Perm.Subperm
/-!
# An alignment loses nothing and links nothing twice

The links of an alignment have distinct ends. So on both sides the statements in scope fall apart
into the linked ones and those left over, and there are at most half as many links between
statements as there are statements: the ratio lies between zero and one.
-/
namespace CodeEvolution

variable {link : Link} {ends : List Nat} (c : Comparison)

namespace Body

def isLeafAt (body : Body) (id : Nat) : Bool :=
  (body.get? id).any Fragment.isLeaf

def isCompositeAt (body : Body) (id : Nat) : Bool :=
  (body.get? id).any fun f => f.isComposite && !f.isBlock

end Body

namespace Comparison

/-- The statements of a body in scope are the linked ones and those left over, each of them once,
and what is left over stands in the order of the body. -/
structure Accounted (body : Body) (scope : Option (List Nat))
    (ends leaves composites : List Nat) : Prop where
  once : ends.Nodup
  leaves_perm : (leaves ++ ends.filter body.isLeafAt).Perm
    ((inScope scope body.leaves).map Fragment.id)
  leaves_order : leaves.Sublist (body.leaves.map Fragment.id)
  composites_perm : (composites ++ ends.filter body.isCompositeAt).Perm
    ((inScope scope body.composites).map Fragment.id)
  composites_order : composites.Sublist (body.composites.map Fragment.id)

theorem unlinked_perm {fragments : List Fragment} {p : Nat → Bool} (honce : ends.Nodup)
    (hids : (fragments.map Fragment.id).Nodup)
    (hin : ∀ id ∈ ends, p id = true → id ∈ fragments.map Fragment.id)
    (hp : ∀ f ∈ fragments, p f.id = true) :
    (unlinked ends fragments ++ ends.filter p).Perm (fragments.map Fragment.id) := by
  have hlinked : (ends.filter p).Perm
      ((fragments.map Fragment.id).filter fun id => ends.contains id) := by
    rw [List.perm_ext_iff_of_nodup (honce.filter p) (hids.filter _)]
    intro id
    simp only [List.mem_filter, List.contains_iff_mem]
    constructor
    · exact fun h => ⟨hin id h.1 h.2, h.1⟩
    · rintro ⟨hid, hend⟩
      obtain ⟨f, hf, rfl⟩ := List.mem_map.mp hid
      exact ⟨hend, hp f hf⟩
  exact (hlinked.append_left _).trans (List.perm_append_comm.trans (List.filter_append_perm _ _))

theorem unlinked_sublist (ends : List Nat) (scope : Option (List Nat))
    (fragments : List Fragment) :
    (unlinked ends (inScope scope fragments)).Sublist (fragments.map Fragment.id) :=
  List.filter_sublist.trans ((inScope_sublist scope fragments).map _)

def IsEnd (body : Body) (scope : Option (List Nat)) (id : Nat) : Prop :=
  ∃ f, body.get? id = some f ∧
    (f ∈ inScope scope body.leaves ∨ f ∈ inScope scope body.composites ∨ f.shape = .expression)

section Accounting

variable {body : Body} (hlaid : body.IsLaidOut) {scope : Option (List Nat)} {id : Nat}

include hlaid

theorem IsEnd.mem_leaves (hend : IsEnd body scope id) (hleaf : body.isLeafAt id = true) :
    id ∈ (inScope scope body.leaves).map Fragment.id := by
  obtain ⟨f, hget, hf⟩ := hend
  have hshape : f.shape = .leaf := by simpa [Body.isLeafAt, hget, Fragment.isLeaf] using hleaf
  rcases hf with hf | hf | hf
  · exact Body.id_of_get? hlaid.ids hget ▸ List.mem_map_of_mem hf
  · simp [(Body.mem_composites.mp ((inScope_sublist _ _).subset hf)).2.1] at hshape
  · simp [hf] at hshape

theorem IsEnd.mem_composites (hend : IsEnd body scope id)
    (hcomposite : body.isCompositeAt id = true) :
    id ∈ (inScope scope body.composites).map Fragment.id := by
  obtain ⟨f, hget, hf⟩ := hend
  have hshape : f.shape = .composite := by
    have h : f.isComposite = true ∧ f.isBlock = false := by
      simpa [Body.isCompositeAt, hget] using hcomposite
    simpa [Fragment.isComposite] using h.1
  rcases hf with hf | hf | hf
  · simp [(Body.mem_leaves.mp ((inScope_sublist _ _).subset hf)).2] at hshape
  · exact Body.id_of_get? hlaid.ids hget ▸ List.mem_map_of_mem hf
  · simp [hf] at hshape

theorem accounted (honce : ends.Nodup) (hends : ∀ id ∈ ends, IsEnd body scope id) :
    Accounted body scope ends (unlinked ends (inScope scope body.leaves))
      (unlinked ends (inScope scope body.composites)) where
  once := honce
  leaves_order := unlinked_sublist ends scope body.leaves
  composites_order := unlinked_sublist ends scope body.composites
  leaves_perm := by
    apply unlinked_perm honce (hlaid.nodup_ids ((inScope_sublist _ _).trans body.leaves_sublist))
    · exact fun id hid => (hends id hid).mem_leaves hlaid
    · intro f hf
      obtain ⟨hmem, hshape⟩ := Body.mem_leaves.mp ((inScope_sublist _ _).subset hf)
      simp [Body.isLeafAt, Body.get?_of_mem hlaid.ids hmem, Fragment.isLeaf, hshape]
  composites_perm := by
    apply unlinked_perm honce
      (hlaid.nodup_ids ((inScope_sublist _ _).trans body.composites_sublist))
    · exact fun id hid => (hends id hid).mem_composites hlaid
    · intro f hf
      obtain ⟨hmem, hshape, hblock⟩ := Body.mem_composites.mp ((inScope_sublist _ _).subset hf)
      simp [Body.isCompositeAt, Body.get?_of_mem hlaid.ids hmem, Fragment.isComposite, hshape,
        hblock]

end Accounting

/-- A link of a statement, the links of its controlling expressions by position, and so on. -/
inductive Listed (c : Comparison) : List Link → Prop
  | nil : Listed c []
  | group {link : Link} {b a : Fragment} {controls rest : List Link} :
    c.before.get? link.before = some b → c.after.get? link.after = some a →
    b.isStatement = true → a.isStatement = true →
    controls.map (fun l => (l.before, l.after)) = b.expressions.zip a.expressions →
    Listed c rest → Listed c (link :: (controls ++ rest))

def statementsInScope (c : Comparison) : Nat :=
  (c.leaves.before.length + c.composites.before.length) +
    (c.leaves.after.length + c.composites.after.length)

def statementLinkCount (c : Comparison) (links : List Link) : Nat :=
  links.countP fun link => c.before.isStatementAt link.before

end Comparison

/-- An alignment is one-to-one and accounts for every statement in scope, its links respect kind,
text and scope and stand in order, and its ratio is the linked part of all statements. -/
structure Alignment.IsFaithful (c : Comparison) (alignment : Alignment) : Prop where
  before : Comparison.Accounted c.before c.beforeScope (alignment.links.map Link.before)
    alignment.unmappedBeforeLeaves alignment.unmappedBeforeComposites
  after : Comparison.Accounted c.after c.afterScope (alignment.links.map Link.after)
    alignment.unmappedAfterLeaves alignment.unmappedAfterComposites
  sound : ∀ link ∈ alignment.links, ∃ b a,
    c.before.get? link.before = some b ∧ c.after.get? link.after = some a ∧ b.kind = a.kind ∧
      b.shape = a.shape ∧ (link.kind = .exact → b.text = a.text)
  scope : ∀ link ∈ alignment.links, c.before.isStatementAt link.before = true →
    (∀ ids, c.beforeScope = some ids → link.before ∈ ids) ∧
      (∀ ids, c.afterScope = some ids → link.after ∈ ids)
  order : (alignment.links.map Link.before).Pairwise (· < ·)
  listed : c.Listed alignment.links
  ratio_empty : c.statementsInScope = 0 → alignment.ratio = .one
  ratio_eq : c.statementsInScope ≠ 0 →
    alignment.ratio = .quotient (2 * c.statementLinkCount alignment.links) c.statementsInScope
  ratio_nonneg : Binary64.zero.le alignment.ratio = true
  ratio_le_one : alignment.ratio.le .one = true

namespace Comparison

section Faithful

variable {c : Comparison} (hbefore : c.before.IsLaidOut) (hafter : c.after.IsLaidOut)

include hbefore hafter

theorem align_link_cases (h : link ∈ c.align.links) :
    (∃ b a, c.Joins link b a) ∨
      ∃ g g', c.before.get? link.before = some g ∧ c.after.get? link.after = some g' ∧
        g.kind = .expression ∧ g'.kind = .expression ∧ g.shape = .expression ∧
          g'.shape = .expression ∧ (link.kind = .exact → g.text = g'.text) := by
  rw [align_links, List.mem_flatMap] at h
  obtain ⟨owner, howner, h⟩ := h
  obtain ⟨b, a, hjoins⟩ := c.sortedLinks_linking.joins owner howner
  rw [withControls_eq] at h
  rcases List.mem_cons.mp h with rfl | h
  · exact Or.inl ⟨b, a, hjoins⟩
  · obtain ⟨g, g', i, j, hget, hget', hcontrol, hcontrol', htext⟩ :=
      mem_controlLinks hbefore hafter hjoins h
    exact Or.inr ⟨g, g', hget, hget', hcontrol.kind, hcontrol'.kind, hcontrol.shape,
      hcontrol'.shape, htext⟩

theorem align_sound (h : link ∈ c.align.links) :
    ∃ b a, c.before.get? link.before = some b ∧ c.after.get? link.after = some a ∧
      b.kind = a.kind ∧ b.shape = a.shape ∧ (link.kind = .exact → b.text = a.text) := by
  rcases align_link_cases hbefore hafter h with ⟨b, a, hjoins⟩ | h
  · refine ⟨b, a, hjoins.before_get? hbefore, hjoins.after_get? hafter, hjoins.kind, ?_,
      hjoins.text⟩
    rcases hjoins.inSides with ⟨hb, ha⟩ | ⟨hb, ha⟩
    · rw [(Body.mem_leaves.mp ((inScope_sublist _ _).subset hb)).2,
        (Body.mem_leaves.mp ((inScope_sublist _ _).subset ha)).2]
    · rw [(Body.mem_composites.mp ((inScope_sublist _ _).subset hb)).2.1,
        (Body.mem_composites.mp ((inScope_sublist _ _).subset ha)).2.1]
  · obtain ⟨g, g', hget, hget', hkind, hkind', hshape, hshape', htext⟩ := h
    exact ⟨g, g', hget, hget', hkind.trans hkind'.symm, hshape.trans hshape'.symm, htext⟩

theorem align_listed : c.Listed c.align.links := by
  have hlisted : ∀ links : List Link, (∀ link ∈ links, ∃ b a, c.Joins link b a) →
      c.Listed (links.flatMap c.withControls) := by
    intro links hlinks
    induction links with
    | nil => exact .nil
    | cons link rest ih =>
      obtain ⟨b, a, hjoins⟩ := hlinks link List.mem_cons_self
      have hends := withControls_ends hbefore hafter hjoins
      rw [withControls_eq, List.map_cons, List.zip_cons_cons] at hends
      rw [List.flatMap_cons, withControls_eq, List.cons_append]
      exact .group (hjoins.before_get? hbefore) (hjoins.after_get? hafter)
        (statement_of_mem hjoins.before_mem).2 (statement_of_mem hjoins.after_mem).2
        (List.tail_eq_of_cons_eq hends) (ih fun l hl => hlinks l (List.mem_cons_of_mem _ hl))
  exact hlisted c.sortedLinks c.sortedLinks_linking.joins

theorem align_statementLinkCount : c.statementLinkCount c.align.links = c.sortedLinks.length := by
  rw [statementLinkCount, List.countP_eq_length_filter, align_statements hbefore hafter]

theorem align_before_accounted :
    Accounted c.before c.beforeScope (c.align.links.map Link.before)
      c.align.unmappedBeforeLeaves c.align.unmappedBeforeComposites := by
  apply accounted hbefore ((align_before_pairwise hbefore hafter).imp Nat.ne_of_lt)
  intro id hid
  obtain ⟨link, hlink, rfl⟩ := List.mem_map.mp hid
  rcases align_link_cases hbefore hafter hlink with ⟨b, a, hjoins⟩ | h
  · exact ⟨b, hjoins.before_get? hbefore, hjoins.before_mem.imp_right Or.inl⟩
  · obtain ⟨g, g', hget, -, -, -, hshape, -⟩ := h
    exact ⟨g, hget, Or.inr (Or.inr hshape)⟩

theorem align_after_accounted :
    Accounted c.after c.afterScope (c.align.links.map Link.after)
      c.align.unmappedAfterLeaves c.align.unmappedAfterComposites := by
  apply accounted hafter (align_after_nodup hbefore hafter)
  intro id hid
  obtain ⟨link, hlink, rfl⟩ := List.mem_map.mp hid
  rcases align_link_cases hbefore hafter hlink with ⟨b, a, hjoins⟩ | h
  · exact ⟨a, hjoins.after_get? hafter, hjoins.after_mem.imp_right Or.inl⟩
  · obtain ⟨g, g', -, hget, -, -, -, hshape, -⟩ := h
    exact ⟨g', hget, Or.inr (Or.inr hshape)⟩

theorem align_scope (h : link ∈ c.align.links)
    (hstatement : c.before.isStatementAt link.before = true) :
    (∀ ids, c.beforeScope = some ids → link.before ∈ ids) ∧
      (∀ ids, c.afterScope = some ids → link.after ∈ ids) := by
  rcases align_link_cases hbefore hafter h with ⟨b, a, hjoins⟩ | h
  · rw [hjoins.before, hjoins.after]
    constructor
    · intro ids hids
      exact hjoins.before_mem.elim (mem_scope_of_mem · hids) (mem_scope_of_mem · hids)
    · intro ids hids
      exact hjoins.after_mem.elim (mem_scope_of_mem · hids) (mem_scope_of_mem · hids)
  · obtain ⟨g, g', hget, -, -, -, hshape, -⟩ := h
    simp [Body.isStatementAt, hget, Fragment.isStatement, hshape] at hstatement

end Faithful

theorem length_le_of_joined {links : List Link} {label : Link → Nat}
    {leaves composites : List Fragment} (hnodup : (links.map label).Nodup)
    (hmem : ∀ link ∈ links, ∃ f, label link = f.id ∧ (f ∈ leaves ∨ f ∈ composites)) :
    links.length ≤ leaves.length + composites.length := by
  have hsubset : links.map label ⊆ (leaves ++ composites).map Fragment.id := by
    intro id hid
    obtain ⟨link, hlink, rfl⟩ := List.mem_map.mp hid
    obtain ⟨f, hf, hside⟩ := hmem link hlink
    rw [hf]
    exact List.mem_map_of_mem (List.mem_append.mpr hside)
  have hle := (hnodup.subperm hsubset).length_le
  simpa only [List.length_map, List.length_append] using hle

theorem two_mul_sortedLinks_le : 2 * c.sortedLinks.length ≤ c.statementsInScope := by
  obtain ⟨⟨hbefore, hafter⟩, hjoins⟩ := c.sortedLinks_linking
  have hb : c.sortedLinks.length ≤ c.leaves.before.length + c.composites.before.length := by
    apply length_le_of_joined hbefore
    intro link hlink
    obtain ⟨b, a, h⟩ := hjoins link hlink
    exact ⟨b, h.before, h.before_mem⟩
  have ha : c.sortedLinks.length ≤ c.leaves.after.length + c.composites.after.length := by
    apply length_le_of_joined hafter
    intro link hlink
    obtain ⟨b, a, h⟩ := hjoins link hlink
    exact ⟨a, h.after, h.after_mem⟩
  unfold statementsInScope
  omega

theorem align_ratio :
    c.align.ratio = if c.statementsInScope = 0 then .one
      else .quotient (2 * c.sortedLinks.length) c.statementsInScope := by
  rw [statementsInScope, ← Nat.add_assoc]
  rfl

theorem align_isFaithful {c : Comparison} (hbefore : c.before.IsLaidOut)
    (hafter : c.after.IsLaidOut) : c.align.IsFaithful c where
  before := align_before_accounted hbefore hafter
  after := align_after_accounted hbefore hafter
  sound _ h := align_sound hbefore hafter h
  scope _ h := align_scope hbefore hafter h
  order := align_before_pairwise hbefore hafter
  listed := align_listed hbefore hafter
  ratio_empty h := by rw [align_ratio, if_pos h]
  ratio_eq h := by rw [align_ratio, if_neg h, align_statementLinkCount hbefore hafter]
  ratio_nonneg := by
    rw [align_ratio]
    split
    · rfl
    · exact Binary64.zero_le_quotient _ _
  ratio_le_one := by
    rw [align_ratio]
    split
    · rfl
    · rename_i h
      exact Binary64.quotient_le_one (Nat.pos_of_ne_zero h) c.two_mul_sortedLinks_le

/-- The bodies of any two methods are aligned faithfully, within any scopes and whatever binding
of arguments, receivers and number of replacements the alignment is given. -/
theorem align_methods_isFaithful (beforeAround afterAround : Surroundings)
    (beforeMethod afterMethod : Node) (beforeParameters afterParameters : List Node)
    (beforeScope afterScope : Option (List Nat)) (binding : ArgumentBinding)
    (receivers : List String) (maxReplacements : Nat) :
    let c : Comparison :=
      { before := Body.ofMethod beforeAround beforeMethod beforeParameters
        after := Body.ofMethod afterAround afterMethod afterParameters
        beforeScope, afterScope, binding, receivers, maxReplacements }
    c.align.IsFaithful c :=
  align_isFaithful (Body.ofMethod_isLaidOut _ _ _) (Body.ofMethod_isLaidOut _ _ _)

end Comparison

end CodeEvolution
