import CodeEvolution.Proofs.Alignment.Phases
import CodeEvolution.Proofs.Body.Layout
/-!
# How an alignment lists its links

The phases link statements. The alignment lists these links by their place in the first body and
puts after each one the links of the controlling expressions. A body keeps the expressions of a
statement right behind it, so no number comes up in two groups and the list stays one-to-one.
-/
namespace CodeEvolution

variable {f : Fragment} {body : Body} (c : Comparison) {scope : Option (List Nat)} {id : Nat}
  (l r : List Nat)

namespace Body

def isStatementAt (body : Body) (id : Nat) : Bool :=
  (body.get? id).any Fragment.isStatement

theorem mem_leaves : f ∈ body.leaves ↔ f ∈ body.fragments ∧ f.shape = .leaf := by
  simp only [leaves, statements, List.mem_filter, Fragment.isStatement, Fragment.isLeaf,
    bne_iff_ne, beq_iff_eq]
  constructor
  · exact fun h => ⟨h.1.1, h.2⟩
  · exact fun h => ⟨⟨h.1, by simp [h.2]⟩, h.2⟩

theorem mem_composites :
    f ∈ body.composites ↔ f ∈ body.fragments ∧ f.shape = .composite ∧ f.isBlock = false := by
  simp only [composites, statements, List.mem_filter, Fragment.isStatement,
    Fragment.isComposite, Bool.and_eq_true, bne_iff_ne, beq_iff_eq, Bool.not_eq_true']
  constructor
  · exact fun h => ⟨h.1.1, h.2⟩
  · exact fun h => ⟨⟨h.1, by simp [h.2.1]⟩, h.2⟩

theorem leaves_sublist (body : Body) : body.leaves.Sublist body.fragments :=
  List.filter_sublist.trans List.filter_sublist

theorem composites_sublist (body : Body) : body.composites.Sublist body.fragments :=
  List.filter_sublist.trans List.filter_sublist

end Body

namespace Comparison

theorem inScope_sublist (scope : Option (List Nat)) (fragments : List Fragment) :
    (inScope scope fragments).Sublist fragments := by
  cases scope with
  | none => exact List.Sublist.refl _
  | some ids => exact List.filter_sublist

theorem mem_scope_of_mem {fragments : List Fragment} (h : f ∈ inScope scope fragments)
    {ids : List Nat} (hscope : scope = some ids) : f.id ∈ ids := by
  subst hscope
  simpa using (List.mem_filter.mp h).2

section Controls

theorem expressionLink_before (b a : Fragment) : (c.expressionLink b a).before = b.id := by
  unfold expressionLink
  split <;> [rfl; split <;> rfl]

theorem expressionLink_after (b a : Fragment) : (c.expressionLink b a).after = a.id := by
  unfold expressionLink
  split <;> [rfl; split <;> rfl]

theorem expressionLink_exact {c : Comparison} {b a : Fragment}
    (h : (c.expressionLink b a).kind = .exact) : b.text = a.text := by
  unfold expressionLink at h
  split at h
  · assumption
  · split at h <;> simp at h

variable {body : Body}

theorem controls_ids (hlaid : body.IsLaidOut) (hget : body.get? id = some f) :
    (controls body id).map Fragment.id = f.expressions := by
  have hmem := Body.mem_of_get? hget
  simp only [controls, hget]
  -- Every number of an expression is that of a fragment, so the look-up drops none.
  have hkept : ∀ k ∈ f.expressions, (body.get? k).map Fragment.id = some k := by
    intro k hk
    obtain ⟨g, _, hg, -⟩ := hlaid.control_of_mem hmem hk
    rw [hg, Option.map_some, Body.id_of_get? hlaid.ids hg]
  rw [List.map_filterMap]
  calc f.expressions.filterMap (fun k => (body.get? k).map Fragment.id)
      = f.expressions.filterMap some := List.filterMap_congr hkept
    _ = f.expressions := List.filterMap_some

theorem control_of_mem_controls (hlaid : body.IsLaidOut) {g : Fragment}
    (hget : body.get? id = some f) (hg : g ∈ controls body id) :
    body.get? g.id = some g ∧ ∃ index, Statement.IsControl f index g := by
  have hmem := Body.mem_of_get? hget
  have hid : g.id ∈ f.expressions := by
    rw [← controls_ids hlaid hget]
    exact List.mem_map_of_mem hg
  have hfragment : g ∈ body.fragments := by
    simp only [controls, hget, List.mem_filterMap] at hg
    obtain ⟨k, -, hk⟩ := hg
    exact Body.mem_of_get? hk
  have hown := Body.get?_of_mem hlaid.ids hfragment
  obtain ⟨g', index, hg', hcontrol⟩ := hlaid.control_of_mem hmem hid
  obtain rfl := Option.some.inj (hown.symm.trans hg')
  exact ⟨hown, index, hcontrol⟩

end Controls

section Groups

theorem map_fst_zip_sublist : ((l.zip r).map Prod.fst).Sublist l := by
  rw [List.zip_eq_zip_take_min, List.map_fst_zip (by simp)]
  exact List.take_sublist _ _

theorem map_snd_zip_sublist : ((l.zip r).map Prod.snd).Sublist r := by
  rw [List.zip_eq_zip_take_min, List.map_snd_zip (by simp)]
  exact List.take_sublist _ _

theorem statement_of_mem (h : f ∈ inScope scope body.leaves ∨ f ∈ inScope scope body.composites) :
    f ∈ body.fragments ∧ f.isStatement = true := by
  rcases h with h | h
  · obtain ⟨hmem, hshape⟩ := Body.mem_leaves.mp ((inScope_sublist _ _).subset h)
    exact ⟨hmem, by simp [Fragment.isStatement, hshape]⟩
  · obtain ⟨hmem, hshape, -⟩ := Body.mem_composites.mp ((inScope_sublist _ _).subset h)
    exact ⟨hmem, by simp [Fragment.isStatement, hshape]⟩

variable {c : Comparison} {link : Link} {b a : Fragment}

namespace Joins

theorem before_mem (h : c.Joins link b a) : b ∈ c.leaves.before ∨ b ∈ c.composites.before :=
  h.inSides.imp And.left And.left

theorem after_mem (h : c.Joins link b a) : a ∈ c.leaves.after ∨ a ∈ c.composites.after :=
  h.inSides.imp And.right And.right

theorem before_get? (h : c.Joins link b a) (hlaid : c.before.IsLaidOut) :
    c.before.get? link.before = some b := by
  rw [h.before]
  exact Body.get?_of_mem hlaid.ids (statement_of_mem h.before_mem).1

theorem after_get? (h : c.Joins link b a) (hlaid : c.after.IsLaidOut) :
    c.after.get? link.after = some a := by
  rw [h.after]
  exact Body.get?_of_mem hlaid.ids (statement_of_mem h.after_mem).1

end Joins

def controlLinks (c : Comparison) (link : Link) : List Link :=
  ((controls c.before link.before).zip (controls c.after link.after)).map fun p =>
    c.expressionLink p.1 p.2

theorem withControls_eq (link : Link) : c.withControls link = link :: c.controlLinks link :=
  rfl

variable (hbefore : c.before.IsLaidOut) (hafter : c.after.IsLaidOut) (hjoins : c.Joins link b a)

include hbefore hafter hjoins

theorem withControls_ends :
    (c.withControls link).map (fun l => (l.before, l.after)) =
      (b.id :: b.expressions).zip (a.id :: a.expressions) := by
  rw [List.zip_cons_cons, ← controls_ids hbefore (hjoins.before_get? hbefore),
    ← controls_ids hafter (hjoins.after_get? hafter), List.zip_map, withControls_eq, controlLinks,
    List.map_cons, List.map_map, hjoins.before, hjoins.after]
  congr 1
  apply List.map_congr_left
  intro p _
  simp only [Function.comp_apply, expressionLink_before, expressionLink_after, Prod.map]

theorem withControls_before_sublist :
    ((c.withControls link).map Link.before).Sublist (b.id :: b.expressions) := by
  have h := map_fst_zip_sublist (b.id :: b.expressions) (a.id :: a.expressions)
  rwa [← withControls_ends hbefore hafter hjoins, List.map_map] at h

theorem withControls_after_sublist :
    ((c.withControls link).map Link.after).Sublist (a.id :: a.expressions) := by
  have h := map_snd_zip_sublist (b.id :: b.expressions) (a.id :: a.expressions)
  rwa [← withControls_ends hbefore hafter hjoins, List.map_map] at h

theorem mem_controlLinks {l : Link} (hl : l ∈ c.controlLinks link) :
    ∃ g g' i j, c.before.get? l.before = some g ∧ c.after.get? l.after = some g' ∧
      Statement.IsControl b i g ∧ Statement.IsControl a j g' ∧
        (l.kind = .exact → g.text = g'.text) := by
  obtain ⟨⟨g, g'⟩, hp, rfl⟩ := List.mem_map.mp hl
  obtain ⟨hg, hg'⟩ := List.of_mem_zip hp
  obtain ⟨hget, i, hcontrol⟩ := control_of_mem_controls hbefore (hjoins.before_get? hbefore) hg
  obtain ⟨hget', j, hcontrol'⟩ := control_of_mem_controls hafter (hjoins.after_get? hafter) hg'
  refine ⟨g, g', i, j, ?_, ?_, hcontrol, hcontrol', expressionLink_exact⟩
  · rw [expressionLink_before, hget]
  · rw [expressionLink_after, hget']

theorem withControls_statements :
    (c.withControls link).filter (fun l => c.before.isStatementAt l.before) = [link] := by
  have hstatement : c.before.isStatementAt link.before = true := by
    rw [Body.isStatementAt, hjoins.before_get? hbefore]
    exact (statement_of_mem hjoins.before_mem).2
  have hcontrols : ∀ l ∈ c.controlLinks link, ¬c.before.isStatementAt l.before = true := by
    intro l hl
    obtain ⟨g, -, i, -, hget, -, hcontrol, -, -⟩ := mem_controlLinks hbefore hafter hjoins hl
    simp [Body.isStatementAt, hget, Fragment.isStatement, hcontrol.shape]
  rw [withControls_eq, List.filter_cons, if_pos hstatement, List.filter_eq_nil_iff.mpr hcontrols]

end Groups

def sortedLinks (c : Comparison) : List Link :=
  c.statementLinks.mergeSort fun x y => decide (x.before ≤ y.before)

theorem align_links : c.align.links = c.sortedLinks.flatMap c.withControls :=
  rfl

theorem sortedLinks_perm : c.sortedLinks.Perm c.statementLinks :=
  List.mergeSort_perm _ _

theorem sortedLinks_linking : c.Linking c.sortedLinks where
  injective :=
    ⟨(c.sortedLinks_perm.map _).nodup_iff.mpr c.statementLinks_linking.injective.1,
      (c.sortedLinks_perm.map _).nodup_iff.mpr c.statementLinks_linking.injective.2⟩
  joins link hlink :=
    c.statementLinks_linking.joins link (c.sortedLinks_perm.subset hlink)

theorem sortedLinks_pairwise : c.sortedLinks.Pairwise fun x y => x.before < y.before := by
  have hsorted : c.sortedLinks.Pairwise fun x y => decide (x.before ≤ y.before) = true := by
    apply List.pairwise_mergeSort
    · intro x y z hxy hyz
      simp only [decide_eq_true_eq] at hxy hyz ⊢
      omega
    · intro x y
      simp only [Bool.or_eq_true, decide_eq_true_eq]
      omega
  have hdistinct := List.pairwise_map.mp c.sortedLinks_linking.injective.1
  refine (hsorted.and hdistinct).imp ?_
  rintro x y ⟨hle, hne⟩
  simp only [decide_eq_true_eq] at hle
  omega

section Listing

variable {c : Comparison} (hbefore : c.before.IsLaidOut) (hafter : c.after.IsLaidOut)

include hbefore hafter

theorem align_before_pairwise : (c.align.links.map Link.before).Pairwise (· < ·) := by
  rw [align_links, List.map_flatMap, List.pairwise_flatMap]
  constructor
  · intro link hlink
    obtain ⟨b, a, hjoins⟩ := c.sortedLinks_linking.joins link hlink
    apply List.Pairwise.sublist (withControls_before_sublist hbefore hafter hjoins)
    rw [hbefore.own_eq_range (statement_of_mem hjoins.before_mem).1]
    exact List.pairwise_lt_range'
  · refine c.sortedLinks_pairwise.imp_of_mem ?_
    intro x y hx hy hlt n hn m hm
    obtain ⟨b, a, hjoins⟩ := c.sortedLinks_linking.joins x hx
    obtain ⟨b', a', hjoins'⟩ := c.sortedLinks_linking.joins y hy
    obtain ⟨hmem, hstatement⟩ := statement_of_mem hjoins.before_mem
    obtain ⟨hmem', hstatement'⟩ := statement_of_mem hjoins'.before_mem
    rw [hjoins.before, hjoins'.before] at hlt
    have hn' := (withControls_before_sublist hbefore hafter hjoins).subset hn
    have hm' := (withControls_before_sublist hbefore hafter hjoins').subset hm
    have hlow := hbefore.own_lt hmem hmem' hstatement hstatement' hlt hn'
    rw [hbefore.own_eq_range hmem', List.mem_range'_1] at hm'
    omega

theorem align_after_nodup : (c.align.links.map Link.after).Nodup := by
  rw [align_links, List.map_flatMap, List.Nodup, List.pairwise_flatMap]
  constructor
  · intro link hlink
    obtain ⟨b, a, hjoins⟩ := c.sortedLinks_linking.joins link hlink
    apply List.Pairwise.sublist (withControls_after_sublist hbefore hafter hjoins)
    rw [hafter.own_eq_range (statement_of_mem hjoins.after_mem).1]
    exact List.nodup_range'
  · refine (List.pairwise_map.mp c.sortedLinks_linking.injective.2).imp_of_mem ?_
    intro x y hx hy hne n hn m hm hnm
    obtain ⟨b, a, hjoins⟩ := c.sortedLinks_linking.joins x hx
    obtain ⟨b', a', hjoins'⟩ := c.sortedLinks_linking.joins y hy
    obtain ⟨hmem, hstatement⟩ := statement_of_mem hjoins.after_mem
    obtain ⟨hmem', hstatement'⟩ := statement_of_mem hjoins'.after_mem
    have hn' := (withControls_after_sublist hbefore hafter hjoins).subset hn
    have hm' := (withControls_after_sublist hbefore hafter hjoins').subset hm
    apply hne
    rw [hjoins.after, hjoins'.after]
    exact hafter.id_eq_of_shared hmem hmem' hstatement hstatement' hn' (hnm ▸ hm')

theorem align_statements :
    c.align.links.filter (fun link => c.before.isStatementAt link.before) = c.sortedLinks := by
  rw [align_links, List.filter_flatMap]
  calc c.sortedLinks.flatMap (fun link =>
        (c.withControls link).filter fun l => c.before.isStatementAt l.before)
      = c.sortedLinks.flatMap (fun link => [link]) := by
        apply List.flatMap_congr
        intro link hlink
        obtain ⟨b, a, hjoins⟩ := c.sortedLinks_linking.joins link hlink
        exact withControls_statements hbefore hafter hjoins
    _ = c.sortedLinks := List.flatMap_singleton' _

end Listing

end Comparison

end CodeEvolution
