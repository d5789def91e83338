import CodeEvolution.Proofs.Alignment.ExactLinks
/-!
# An alignment misses no match

Statements of one kind and text may all be linked to each other. The greedy choice leaves a
statement of such a class over on at most one side, so it makes as many exact links in the class as
the smaller side has statements, wherever they stand. In the same way no two statements are left
over whose difference replacements explain.
-/
namespace CodeEvolution

variable {b a : Fragment} {kind : StatementKind} {text : String} {link : Link}

def Fragment.reads (kind : StatementKind) (text : String) (f : Fragment) : Bool :=
  f.kind == kind && f.text == text

theorem Fragment.reads_iff {f : Fragment} :
    f.reads kind text = true ↔ f.kind = kind ∧ f.text = text := by
  simp [Fragment.reads]

def Sides.linksExactly (sides : Sides) (kind : StatementKind) (text : String) (link : Link) :
    Bool :=
  link.kind == .exact && (sides.before.any fun f => f.id == link.before && f.reads kind text) &&
    sides.after.any fun f => f.id == link.after && f.reads kind text

theorem Sides.linksExactly_iff {sides : Sides} :
    sides.linksExactly kind text link = true ↔ link.kind = .exact ∧
      (∃ b ∈ sides.before, b.id = link.before ∧ b.reads kind text = true) ∧
        ∃ a ∈ sides.after, a.id = link.after ∧ a.reads kind text = true := by
  simp only [linksExactly, Bool.and_eq_true, beq_iff_eq, List.any_eq_true, and_assoc]

/-- No match is missed: in every class of statements of one kind and text there are as many exact
links as statements on the smaller side, and replacements explain no difference between two
statements that are left over. -/
structure Alignment.MissesNothing (c : Comparison) (alignment : Alignment) : Prop where
  exactLeaves : ∀ kind text, alignment.links.countP (c.leaves.linksExactly kind text) =
    min (c.leaves.before.countP (Fragment.reads kind text))
      (c.leaves.after.countP (Fragment.reads kind text))
  exactComposites : ∀ kind text, alignment.links.countP (c.composites.linksExactly kind text) =
    min (c.composites.before.countP (Fragment.reads kind text))
      (c.composites.after.countP (Fragment.reads kind text))
  leaves : ∀ b ∈ c.leaves.before, ∀ a ∈ c.leaves.after, b.id ∈ alignment.unmappedBeforeLeaves →
    a.id ∈ alignment.unmappedAfterLeaves → Replacement.find? c b a = none
  composites : ∀ b ∈ c.composites.before, ∀ a ∈ c.composites.after,
    b.id ∈ alignment.unmappedBeforeComposites → a.id ∈ alignment.unmappedAfterComposites →
      Replacement.find? c b a = none

namespace Comparison

section Counting

variable {fragments : List Fragment} {ids : List Nat} {p : Fragment → Bool}

theorem length_le_countP (hids : ids.Nodup) (h : ∀ id ∈ ids, ∃ f ∈ fragments, f.id = id ∧ p f) :
    ids.length ≤ fragments.countP p := by
  have hsubset : ids ⊆ (fragments.filter p).map Fragment.id := by
    intro id hid
    obtain ⟨f, hf, rfl, hp⟩ := h id hid
    exact List.mem_map_of_mem (List.mem_filter.mpr ⟨hf, hp⟩)
  simpa only [List.length_map, List.countP_eq_length_filter] using (hids.subperm hsubset).length_le

theorem exists_of_length_lt_countP (hfragments : (fragments.map Fragment.id).Nodup)
    (h : ids.length < fragments.countP p) : ∃ f ∈ fragments, p f = true ∧ f.id ∉ ids := by
  by_contra hnone
  push Not at hnone
  have hnodup : ((fragments.filter p).map Fragment.id).Nodup :=
    hfragments.sublist (List.filter_sublist.map _)
  have hsubset : (fragments.filter p).map Fragment.id ⊆ ids := by
    intro id hid
    obtain ⟨f, hf, rfl⟩ := List.mem_map.mp hid
    exact hnone f (List.mem_filter.mp hf).1 (List.mem_filter.mp hf).2
  have hle := (hnodup.subperm hsubset).length_le
  rw [List.length_map, ← List.countP_eq_length_filter] at hle
  omega

end Counting

variable {c : Comparison} (hbefore : c.before.IsLaidOut) (hafter : c.after.IsLaidOut)
  {sides : Sides} (hsides : c.IsSide sides)

include hsides

theorem IsSide.before_sublist : sides.before.Sublist c.before.fragments := by
  rcases hsides with rfl | rfl
  · exact (inScope_sublist _ _).trans c.before.leaves_sublist
  · exact (inScope_sublist _ _).trans c.before.composites_sublist

theorem IsSide.after_sublist : sides.after.Sublist c.after.fragments := by
  rcases hsides with rfl | rfl
  · exact (inScope_sublist _ _).trans c.after.leaves_sublist
  · exact (inScope_sublist _ _).trans c.after.composites_sublist

theorem IsSide.isStatementAt (hlaid : c.before.IsLaidOut) (hb : b ∈ sides.before) :
    c.before.isStatementAt b.id = true := by
  have hstatement : b ∈ c.before.fragments ∧ b.isStatement = true := by
    rcases hsides with rfl | rfl
    · exact statement_of_mem (Or.inl hb)
    · exact statement_of_mem (Or.inr hb)
  rw [Body.isStatementAt, Body.get?_of_mem hlaid.ids hstatement.1]
  exact hstatement.2

theorem Joins.mem_iff (h : c.Joins link b a) : b ∈ sides.before ↔ a ∈ sides.after := by
  rcases hsides with rfl | rfl <;> rcases h.inSides with ⟨hb, ha⟩ | ⟨hb, ha⟩
  · exact iff_of_true hb ha
  · exact iff_of_false (fun hleaf => not_composite_of_leaf hleaf hb)
      fun hleaf => not_composite_of_leaf hleaf ha
  · exact iff_of_false (not_composite_of_leaf hb) (not_composite_of_leaf ha)
  · exact iff_of_true hb ha

include hbefore hafter

theorem countP_align_links (kind : StatementKind) (text : String) :
    c.align.links.countP (sides.linksExactly kind text) =
      c.statementLinks.countP (sides.linksExactly kind text) := by
  calc c.align.links.countP (sides.linksExactly kind text)
      = (c.align.links.filter fun link => c.before.isStatementAt link.before).countP
          (sides.linksExactly kind text) := by
        rw [List.countP_filter]
        apply List.countP_congr
        intro link _
        rw [Bool.and_eq_true, Sides.linksExactly_iff]
        refine ⟨fun h => ⟨h, ?_⟩, And.left⟩
        obtain ⟨-, ⟨b, hb, hid, -⟩, -⟩ := h
        exact hid ▸ hsides.isStatementAt hbefore hb
    _ = c.sortedLinks.countP (sides.linksExactly kind text) := by
        rw [align_statements hbefore hafter]
    _ = c.statementLinks.countP (sides.linksExactly kind text) :=
        c.sortedLinks_perm.countP_eq _

theorem linksExactly_of_mem (hlink : link ∈ c.exactLinks) (hb : b ∈ sides.before)
    (ha : a ∈ sides.after) (hreadsb : b.reads kind text = true) (hreadsa : a.reads kind text = true)
    (hends : link.before = b.id ∨ link.after = a.id) :
    sides.linksExactly kind text link = true := by
  obtain ⟨hstatement, hexact⟩ := mem_exactLinks_iff_exact.mp hlink
  obtain ⟨b', a', hjoins⟩ := c.statementLinks_linking.joins link hstatement
  rw [Sides.linksExactly_iff]
  rcases hends with hid | hid
  · have hsame : b' = b := by
      have hget := hjoins.before_get? hbefore
      rw [hid, Body.get?_of_mem hbefore.ids (hsides.before_sublist.subset hb)] at hget
      exact (Option.some.inj hget).symm
    subst hsame
    refine ⟨hexact, ⟨b', hb, hid.symm, hreadsb⟩, a', (hjoins.mem_iff hsides).mp hb,
      hjoins.after.symm, ?_⟩
    rw [Fragment.reads_iff] at hreadsb ⊢
    exact ⟨hjoins.kind ▸ hreadsb.1, hjoins.text hexact ▸ hreadsb.2⟩
  · have hsame : a' = a := by
      have hget := hjoins.after_get? hafter
      rw [hid, Body.get?_of_mem hafter.ids (hsides.after_sublist.subset ha)] at hget
      exact (Option.some.inj hget).symm
    subst hsame
    refine ⟨hexact, ⟨b', (hjoins.mem_iff hsides).mpr ha, hjoins.before.symm, ?_⟩, a', ha,
      hid.symm, hreadsa⟩
    rw [Fragment.reads_iff] at hreadsa ⊢
    exact ⟨hjoins.kind ▸ hreadsa.1, hjoins.text hexact ▸ hreadsa.2⟩

theorem align_countP_exact (kind : StatementKind) (text : String) :
    c.align.links.countP (sides.linksExactly kind text) =
      min (sides.before.countP (Fragment.reads kind text))
        (sides.after.countP (Fragment.reads kind text)) := by
  rw [countP_align_links hbefore hafter hsides, List.countP_eq_length_filter]
  let chosen := c.statementLinks.filter (sides.linksExactly kind text)
  have hends : ∀ link ∈ chosen, sides.linksExactly kind text link = true :=
    fun link hlink => (List.mem_filter.mp hlink).2
  have hlinking := c.statementLinks_linking.injective
  have hb : (chosen.map Link.before).length ≤
      sides.before.countP (Fragment.reads kind text) := by
    apply length_le_countP (hlinking.1.sublist (List.filter_sublist.map _))
    intro id hid
    obtain ⟨link, hlink, rfl⟩ := List.mem_map.mp hid
    exact (Sides.linksExactly_iff.mp (hends link hlink)).2.1
  have ha : (chosen.map Link.after).length ≤ sides.after.countP (Fragment.reads kind text) := by
    apply length_le_countP (hlinking.2.sublist (List.filter_sublist.map _))
    intro id hid
    obtain ⟨link, hlink, rfl⟩ := List.mem_map.mp hid
    exact (Sides.linksExactly_iff.mp (hends link hlink)).2.2
  -- If both sides had a statement left over, the first phases would have linked one of them.
  have hmost : ¬(chosen.length < sides.before.countP (Fragment.reads kind text) ∧
      chosen.length < sides.after.countP (Fragment.reads kind text)) := by
    rintro ⟨hlb, hla⟩
    rw [← List.length_map Link.before] at hlb
    rw [← List.length_map Link.after] at hla
    obtain ⟨b, hbmem, hreadsb, hfreeb⟩ :=
      exists_of_length_lt_countP (hbefore.nodup_ids hsides.before_sublist) hlb
    obtain ⟨a, hamem, hreadsa, hfreea⟩ :=
      exists_of_length_lt_countP (hafter.nodup_ids hsides.after_sublist) hla
    obtain ⟨hkindb, htextb⟩ := Fragment.reads_iff.mp hreadsb
    obtain ⟨hkinda, htexta⟩ := Fragment.reads_iff.mp hreadsa
    obtain ⟨link, hlink, hid⟩ := exactLinks_settle hsides hbmem hamem
      (hkindb.trans hkinda.symm) (htextb.trans htexta.symm)
    have hchosen : link ∈ chosen := List.mem_filter.mpr
      ⟨(mem_exactLinks_iff_exact.mp hlink).1,
        linksExactly_of_mem hbefore hafter hsides hlink hbmem hamem hreadsb hreadsa hid⟩
    rcases hid with hid | hid
    · exact hfreeb (hid ▸ List.mem_map_of_mem hchosen)
    · exact hfreea (hid ▸ List.mem_map_of_mem hchosen)
  rw [List.length_map] at hb ha
  change chosen.length = _
  omega

theorem find?_eq_none_of_unlinked (hb : b ∈ sides.before) (ha : a ∈ sides.after)
    (hfreeb : b.id ∈ unlinked (c.align.links.map Link.before) sides.before)
    (hfreea : a.id ∈ unlinked (c.align.links.map Link.after) sides.after) :
    Replacement.find? c b a = none := by
  cases hfound : Replacement.find? c b a with
  | none => rfl
  | some replacements =>
    exfalso
    have hkind : b.kind = a.kind := by
      by_contra hne
      rw [Replacement.find?, if_pos (Or.inl hne)] at hfound
      cases hfound
    obtain ⟨link, hlink, hid⟩ := statementLinks_settle_replaced hsides hb ha hkind hfound
    have halign : link ∈ c.align.links := by
      have hsorted := c.sortedLinks_perm.mem_iff.mpr hlink
      rw [← align_statements hbefore hafter] at hsorted
      exact (List.mem_filter.mp hsorted).1
    simp only [unlinked, List.mem_filter, Bool.not_eq_true', List.contains_eq_mem,
      decide_eq_false_iff_not] at hfreeb hfreea
    rcases hid with hid | hid
    · exact hfreeb.2 (hid ▸ List.mem_map_of_mem halign)
    · exact hfreea.2 (hid ▸ List.mem_map_of_mem halign)

omit hsides

theorem align_missesNothing : c.align.MissesNothing c where
  exactLeaves := align_countP_exact hbefore hafter (Or.inl rfl)
  exactComposites := align_countP_exact hbefore hafter (Or.inr rfl)
  leaves _ hb _ ha := find?_eq_none_of_unlinked hbefore hafter (Or.inl rfl) hb ha
  composites _ hb _ ha := find?_eq_none_of_unlinked hbefore hafter (Or.inr rfl) hb ha

omit hbefore hafter

/-- The alignment of any two methods misses no match, within any scopes and whatever binding of
arguments, receivers and number of replacements it is given. -/
theorem align_methods_missesNothing (beforeAround afterAround : Surroundings)
    (beforeMethod afterMethod : Node) (beforeParameters afterParameters : List Node)
    (beforeScope afterScope : Option (List Nat)) (binding : ArgumentBinding)
    (receivers : List String) (maxReplacements : Nat) :
    let c : Comparison :=
      { before := Body.ofMethod beforeAround beforeMethod beforeParameters
        after := Body.ofMethod afterAround afterMethod afterParameters
        beforeScope, afterScope, binding, receivers, maxReplacements }
    c.align.MissesNothing c :=
  align_missesNothing (Body.ofMethod_isLaidOut _ _ _) (Body.ofMethod_isLaidOut _ _ _)

end Comparison

end CodeEvolution
