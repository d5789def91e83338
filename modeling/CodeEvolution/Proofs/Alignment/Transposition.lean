import CodeEvolution.Proofs.Alignment.Completeness
/-!
# Exact links do not depend on the direction of the comparison

Ties between candidates are broken by the number of the first statement and then by that of the
second. Two candidates compete only if they share an end, and then one number decides whichever
comes first, so the candidates come in the same order in both directions as far as it matters. The
number of linked statements inside two composites is the number of links between them, which does
not depend on the direction either.
-/
namespace CodeEvolution

variable (c : Comparison)

def Link.turned (link : Link) : Link :=
  ⟨link.after, link.before, link.kind, link.replacements⟩

@[simp] theorem Link.turned_turned (link : Link) : link.turned.turned = link := rfl

theorem Link.turned_injective : Function.Injective Link.turned :=
  Function.LeftInverse.injective turned_turned

def Sides.turned (sides : Sides) : Sides :=
  ⟨sides.after, sides.before⟩

namespace Comparison

open OneToOne

/-- The second comparison is that of the same bodies and scopes the other way round. -/
structure IsTurned (c c' : Comparison) : Prop where
  before : c'.before = c.after
  after : c'.after = c.before
  beforeScope : c'.beforeScope = c.afterScope
  afterScope : c'.afterScope = c.beforeScope

section Turned

variable {c c' : Comparison}

theorem IsTurned.leaves (h : c.IsTurned c') : c'.leaves = c.leaves.turned := by
  rw [Comparison.leaves, h.before, h.after, h.beforeScope, h.afterScope]
  rfl

theorem IsTurned.composites (h : c.IsTurned c') : c'.composites = c.composites.turned := by
  rw [Comparison.composites, h.before, h.after, h.beforeScope, h.afterScope]
  rfl

end Turned

section Shared

variable {c : Comparison} {links : List Link}

def runsInside (c : Comparison) (b a : Fragment) (link : Link) : Bool :=
  ((c.before.descendants b).any fun d => d.id == link.before) &&
    (c.after.descendants a).any fun d => d.id == link.after

theorem descendants_sublist (body : Body) (f : Fragment) :
    (body.descendants f).Sublist body.fragments :=
  List.filter_sublist.trans List.filter_sublist

theorem find?_eq_some_of_mem (hnodup : (links.map Link.before).Nodup) {link : Link}
    (hlink : link ∈ links) :
    links.find? (fun other => other.before == link.before) = some link := by
  cases hfind : links.find? fun other => other.before == link.before with
  | none => simpa using List.find?_eq_none.mp hfind link hlink
  | some other =>
    have hid : other.before = link.before := by simpa using List.find?_some hfind
    rw [List.inj_on_of_nodup_map hnodup (List.mem_of_find?_eq_some hfind) hlink hid]

theorem sharedInside_eq_countP (hlaid : c.before.IsLaidOut)
    (hnodup : (links.map Link.before).Nodup) (b a : Fragment) :
    c.sharedInside links b a = links.countP (c.runsInside b a) := by
  rw [List.countP_eq_length_filter]
  refine Eq.trans (List.length_map Fragment.id).symm
    (Eq.trans (List.Perm.length_eq ?_) (List.length_map Link.before))
  rw [List.perm_ext_iff_of_nodup
    (hlaid.nodup_ids (List.filter_sublist.trans (descendants_sublist c.before b)))
    (hnodup.sublist (List.filter_sublist.map _))]
  intro id
  simp only [List.mem_map, List.mem_filter, runsInside, Bool.and_eq_true]
  constructor
  · rintro ⟨d, ⟨hd, hinside⟩, rfl⟩
    split at hinside
    · rename_i link hfind
      have hid : link.before = d.id := by simpa using List.find?_some hfind
      refine ⟨link, ⟨List.mem_of_find?_eq_some hfind, ?_, hinside⟩, hid⟩
      exact List.any_eq_true.mpr ⟨d, hd, beq_iff_eq.mpr hid.symm⟩
    · cases hinside
  · rintro ⟨link, ⟨hlink, hbefore, hafter⟩, rfl⟩
    obtain ⟨d, hd, hid⟩ := List.any_eq_true.mp hbefore
    rw [beq_iff_eq] at hid
    refine ⟨d, ⟨hd, ?_⟩, hid⟩
    rw [hid, find?_eq_some_of_mem hnodup hlink]
    exact hafter

theorem shared_le_length (links : List Link) (b a : Fragment) :
    (if b.isComposite then c.sharedInside links b a else 0) ≤ c.before.fragments.length := by
  split
  · exact Nat.le_trans (List.length_filter_le _ _) (descendants_sublist _ _).length_le
  · exact Nat.zero_le _

theorem sharedInside_turned {c' : Comparison} (h : c.IsTurned c') (hbefore : c.before.IsLaidOut)
    (hafter : c.after.IsLaidOut) {links' : List Link}
    (hlinks : Injective Link.before Link.after links)
    (hturned : links'.Perm (links.map Link.turned)) (b a : Fragment) :
    c'.sharedInside links' a b = c.sharedInside links b a := by
  have hnodup' : (links'.map Link.before).Nodup := by
    rw [(hturned.map _).nodup_iff, List.map_map]
    exact hlinks.2
  rw [sharedInside_eq_countP (h.before ▸ hafter) hnodup',
    sharedInside_eq_countP hbefore hlinks.1, hturned.countP_eq, List.countP_map]
  apply List.countP_congr
  intro link _
  simp only [Function.comp_apply, runsInside, h.before, h.after, Link.turned, Bool.and_comm]

end Shared

section Costs

theorem costLe_antisymm {x y : List Nat} (hxy : costLe x y = true) (hyx : costLe y x = true) :
    x = y := by
  induction x generalizing y with
  | nil =>
    cases y with
    | nil => rfl
    | cons n ns => cases hyx
  | cons m ms ih =>
    cases y with
    | nil => cases hxy
    | cons n ns =>
      simp only [costLe] at hxy hyx
      by_cases heq : m = n
      · subst heq
        rw [if_pos rfl] at hxy hyx
        rw [ih hxy hyx]
      · rw [if_neg heq, decide_eq_true_eq] at hxy
        rw [if_neg (Ne.symm heq), decide_eq_true_eq] at hyx
        omega

/-- Costs that share one of the two numbers at the end compare alike when these change places. -/
theorem costLe_turned {n m s s' d d' i i' b b' a a' : Nat} (hs : s ≤ n) (hs' : s' ≤ n)
    (hm : s ≤ m) (hm' : s' ≤ m) (hshared : b = b' ∨ a = a')
    (h : costLe [0, n - s, d, i, b, a] [0, n - s', d', i', b', a'] = true) :
    costLe [0, m - s, d, i, a, b] [0, m - s', d', i', a', b'] = true := by
  have heq : n - s = n - s' ↔ m - s = m - s' := by omega
  have hlt : n - s < n - s' ↔ m - s < m - s' := by omega
  simp only [costLe, if_true, heq, hlt] at h ⊢
  grind

theorem gap_comm (m n : Nat) : gap m n = gap n m :=
  Nat.add_comm _ _

end Costs

section Order

variable {c c' : Comparison} {links links' : List Link} {sides : Sides}

def exactLink (b a : Fragment) : Link :=
  ⟨b.id, a.id, .exact, []⟩

def Precedes (c : Comparison) (links : List Link) (sides : Sides) (x y : Link) : Prop :=
  ∃ b ∈ sides.before, ∃ a ∈ sides.after, ∃ b' ∈ sides.before, ∃ a' ∈ sides.after,
    x = exactLink b a ∧ y = exactLink b' a' ∧
      costLe (c.cost links 0 b a) (c.cost links 0 b' a') = true

theorem mem_tried_exactly {candidate : Candidate}
    (h : candidate ∈ c.tried exactly links sides) :
    ∃ b ∈ sides.before, ∃ a ∈ sides.after, candidate = ⟨exactLink b a, c.cost links 0 b a⟩ := by
  obtain ⟨b, hb, a, ha, found, -, -, -, hfound, rfl⟩ := mem_candidates.mp (mem_tried.mp h)
  obtain ⟨-, rfl⟩ := exactly_eq_some hfound
  exact ⟨b, hb, a, ha, rfl⟩

theorem tried_precedes (links : List Link) (sides : Sides) :
    ((c.tried exactly links sides).map Candidate.link).Pairwise (c.Precedes links sides) := by
  rw [List.pairwise_map]
  refine (c.tried_pairwise exactly links sides).imp_of_mem ?_
  intro x y hx hy hcost
  obtain ⟨b, hb, a, ha, rfl⟩ := mem_tried_exactly hx
  obtain ⟨b', hb', a', ha', rfl⟩ := mem_tried_exactly hy
  exact ⟨b, hb, a, ha, b', hb', a', ha', rfl, rfl, hcost⟩

theorem mem_tried_links {link : Link} :
    link ∈ (c.tried exactly links sides).map Candidate.link ↔
      ∃ b ∈ sides.before, ∃ a ∈ sides.after, beforeLinked links b = false ∧
        afterLinked links a = false ∧ b.kind = a.kind ∧ b.text = a.text ∧ link = exactLink b a := by
  simp only [List.mem_map, mem_tried, mem_candidates]
  constructor
  · rintro ⟨_, ⟨b, hb, a, ha, found, hfreeb, hfreea, hkind, hfound, rfl⟩, rfl⟩
    obtain ⟨htext, rfl⟩ := exactly_eq_some hfound
    exact ⟨b, hb, a, ha, hfreeb, hfreea, hkind, htext, rfl⟩
  · rintro ⟨b, hb, a, ha, hfreeb, hfreea, hkind, htext, rfl⟩
    exact ⟨_, ⟨b, hb, a, ha, (.exact, []), hfreeb, hfreea, hkind, if_pos htext, rfl⟩, rfl⟩

theorem phase_eq_append (criterion : List Link → Criterion) (links : List Link) (sides : Sides) :
    c.phase criterion links sides = links ++ takeAll Link.before Link.after []
      ((c.tried criterion links sides).map Candidate.link) := by
  rw [phase_eq]
  apply takeAll_of_apart
  intro x hx y hy
  obtain ⟨candidate, hcandidate, rfl⟩ := List.mem_map.mp hy
  obtain ⟨b, -, a, -, found, hfreeb, hfreea, -, -, rfl⟩ :=
    mem_candidates.mp (mem_tried.mp hcandidate)
  simp only [beforeLinked, afterLinked, List.any_eq_false, beq_iff_eq] at hfreeb hfreea
  exact ⟨hfreeb x hx, hfreea x hx⟩

theorem beforeLinked_turned (hturned : links'.Perm (links.map Link.turned)) (f : Fragment) :
    beforeLinked links' f = afterLinked links f := by
  rw [beforeLinked, afterLinked, hturned.any_eq, List.any_map]
  rfl

theorem afterLinked_turned (hturned : links'.Perm (links.map Link.turned)) (f : Fragment) :
    afterLinked links' f = beforeLinked links f := by
  rw [beforeLinked, afterLinked, hturned.any_eq, List.any_map]
  rfl

theorem mem_tried_turned (hturned : links'.Perm (links.map Link.turned)) (link : Link) :
    link ∈ ((c'.tried exactly links' sides.turned).map Candidate.link).map Link.turned ↔
      link ∈ (c.tried exactly links sides).map Candidate.link := by
  rw [show link = link.turned.turned from rfl, List.mem_map_of_injective Link.turned_injective,
    mem_tried_links, mem_tried_links]
  simp only [beforeLinked_turned hturned, afterLinked_turned hturned]
  constructor
  · rintro ⟨a, ha, b, hb, hfreea, hfreeb, hkind, htext, hlink⟩
    exact ⟨b, hb, a, ha, hfreeb, hfreea, hkind.symm, htext.symm, congrArg Link.turned hlink⟩
  · rintro ⟨b, hb, a, ha, hfreeb, hfreea, hkind, htext, hlink⟩
    exact ⟨a, ha, b, hb, hfreea, hfreeb, hkind.symm, htext.symm, congrArg Link.turned hlink⟩

variable (hturn : c.IsTurned c') (hbefore : c.before.IsLaidOut) (hafter : c.after.IsLaidOut)
  (hsides : c.IsSide sides)

include hbefore hafter hsides

theorem Precedes.antisymm {x y : Link} (hxy : c.Precedes links sides x y)
    (hyx : c.Precedes links sides y x) : x = y := by
  obtain ⟨b, hb, a, ha, b', hb', a', ha', rfl, rfl, hcost⟩ := hxy
  obtain ⟨b₁, hb₁, a₁, ha₁, b₁', hb₁', a₁', ha₁', hy, hx, hcost'⟩ := hyx
  have hsameb := List.inj_on_of_nodup_map (hbefore.nodup_ids hsides.before_sublist)
  have hsamea := List.inj_on_of_nodup_map (hafter.nodup_ids hsides.after_sublist)
  obtain rfl := hsameb hb' hb₁ (congrArg Link.before hy)
  obtain rfl := hsamea ha' ha₁ (congrArg Link.after hy)
  obtain rfl := hsameb hb hb₁' (congrArg Link.before hx)
  obtain rfl := hsamea ha ha₁' (congrArg Link.after hx)
  have heq := costLe_antisymm hcost hcost'
  simp only [cost, List.cons.injEq] at heq
  obtain ⟨-, -, -, -, hidb, hida, -⟩ := heq
  rw [exactLink, exactLink, hidb, hida]

omit hbefore hafter

theorem isComposite_eq {b a : Fragment} (hb : b ∈ sides.before) (ha : a ∈ sides.after) :
    b.isComposite = a.isComposite := by
  rcases hsides with rfl | rfl
  · simp [Fragment.isComposite, (Body.mem_leaves.mp ((inScope_sublist _ _).subset hb)).2,
      (Body.mem_leaves.mp ((inScope_sublist _ _).subset ha)).2]
  · simp [Fragment.isComposite, (Body.mem_composites.mp ((inScope_sublist _ _).subset hb)).2.1,
      (Body.mem_composites.mp ((inScope_sublist _ _).subset ha)).2.1]

include hturn hbefore hafter

theorem Precedes.turned (hlinks : Injective Link.before Link.after links)
    (hturned : links'.Perm (links.map Link.turned)) {x y : Link}
    (hshared : x.before = y.before ∨ x.after = y.after)
    (h : c'.Precedes links' sides.turned x.turned y.turned) : c.Precedes links sides x y := by
  obtain ⟨a, ha, b, hb, a', ha', b', hb', hx, hy, hcost⟩ := h
  have hends : b.id = b'.id ∨ a.id = a'.id := by
    have hxb : x.before = b.id := congrArg Link.after hx
    have hxa : x.after = a.id := congrArg Link.before hx
    have hyb : y.before = b'.id := congrArg Link.after hy
    have hya : y.after = a'.id := congrArg Link.before hy
    rwa [hxb, hxa, hyb, hya] at hshared
  have hshare := sharedInside_turned hturn hbefore hafter hlinks hturned
  have hle : ∀ b ∈ sides.before, ∀ a ∈ sides.after,
      (if b.isComposite then c.sharedInside links b a else 0) ≤ c'.before.fragments.length := by
    intro b hb a ha
    rw [isComposite_eq hsides hb ha, ← hshare]
    exact c'.shared_le_length links' a b
  refine ⟨b, hb, a, ha, b', hb', a', ha', ?_, ?_, ?_⟩
  · rw [← x.turned_turned, hx]
    rfl
  · rw [← y.turned_turned, hy]
    rfl
  · simp only [cost, ← isComposite_eq hsides hb ha, ← isComposite_eq hsides hb' ha',
      hshare] at hcost ⊢
    rw [gap_comm b.depth, gap_comm b'.depth, gap_comm b.index, gap_comm b'.index]
    exact costLe_turned (hle b hb a ha) (hle b' hb' a' ha') (c.shared_le_length links b a)
      (c.shared_le_length links b' a') hends.symm hcost

/-- A phase for equal texts turns round with the comparison. -/
theorem phase_exactly_turned (hlinks : Injective Link.before Link.after links)
    (hturned : links'.Perm (links.map Link.turned)) :
    (c'.phase exactly links' sides.turned).Perm
      ((c.phase exactly links sides).map Link.turned) := by
  rw [phase_eq_append, phase_eq_append, List.map_append]
  refine hturned.append ?_
  let xs := (c.tried exactly links sides).map Candidate.link
  let ys := (c'.tried exactly links' sides.turned).map Candidate.link
  have hchosen : ∀ zs, (takeAll Link.before Link.after [] zs).Nodup := fun zs =>
    (takeAll_injective (injective_nil Link.before Link.after) zs).1.of_map
  have hback : (takeAll Link.before Link.after [] ys).map Link.turned =
      takeAll Link.before Link.after [] (ys.map Link.turned) :=
    (takeAll_map_turn (fun _ => rfl) (fun _ => rfl) [] ys).symm
  have hys : (ys.map Link.turned).Pairwise fun x y =>
      c'.Precedes links' sides.turned x.turned y.turned := by
    rw [List.pairwise_map]
    exact c'.tried_precedes links' sides.turned
  have hiff := mem_takeAll_congr (mem_tried_turned hturned)
    (c.tried_precedes links sides) hys (fun x y hne hshared hxy hyx => hne (hxy.antisymm hbefore
      hafter hsides (hyx.turned hturn hbefore hafter hsides hlinks hturned
        (hshared.imp Eq.symm Eq.symm))))
  rw [List.perm_ext_iff_of_nodup (hchosen ys) ((hchosen xs).map Link.turned_injective)]
  intro link
  have hlink := hiff link.turned
  rw [← hback, List.mem_map_of_injective Link.turned_injective] at hlink
  rw [hlink, ← List.mem_map_of_injective Link.turned_injective, Link.turned_turned]

end Order

theorem exactLinks_turned {c c' : Comparison} (hturn : c.IsTurned c')
    (hbefore : c.before.IsLaidOut) (hafter : c.after.IsLaidOut) :
    c'.exactLinks.Perm (c.exactLinks.map Link.turned) := by
  have hleaves : c'.exactLeaves.Perm (c.exactLeaves.map Link.turned) := by
    rw [exactLeaves, hturn.leaves]
    exact phase_exactly_turned hturn hbefore hafter (Or.inl rfl) (injective_nil _ _) .nil
  have hinjective : Injective Link.before Link.after c.exactLeaves := by
    rw [exactLeaves, phase_eq]
    exact takeAll_injective (injective_nil _ _) _
  rw [exactLinks_eq, hturn.composites, exactLinks_eq]
  exact phase_exactly_turned hturn hbefore hafter (Or.inr rfl) hinjective hleaves

def exactPairs (c : Comparison) : List (Nat × Nat) :=
  (c.align.links.filter fun link =>
    link.kind == .exact && c.before.isStatementAt link.before).map
      fun link => (link.before, link.after)

theorem exactPairs_perm {c : Comparison} (hbefore : c.before.IsLaidOut)
    (hafter : c.after.IsLaidOut) :
    c.exactPairs.Perm (c.exactLinks.map fun link => (link.before, link.after)) := by
  apply List.Perm.map
  have hsorted : (c.align.links.filter fun link =>
      link.kind == .exact && c.before.isStatementAt link.before) =
        c.sortedLinks.filter fun link => link.kind == .exact := by
    rw [← align_statements hbefore hafter, List.filter_filter]
  have hexact : Injective Link.before Link.after c.exactLinks := by
    rw [exactLinks_eq, exactLeaves, phase_eq, phase_eq]
    exact takeAll_injective (takeAll_injective (injective_nil _ _) _) _
  rw [hsorted, List.perm_ext_iff_of_nodup
    (c.sortedLinks_linking.injective.1.of_map.filter _) hexact.1.of_map]
  intro link
  rw [mem_exactLinks_iff_exact, List.mem_filter, c.sortedLinks_perm.mem_iff, beq_iff_eq]

/-- Two methods are linked exactly in the same pairs of statements, whichever comes first. -/
theorem exactPairs_methods_turned (beforeAround afterAround : Surroundings)
    (beforeMethod afterMethod : Node) (beforeParameters afterParameters : List Node)
    (beforeScope afterScope : Option (List Nat)) (binding : ArgumentBinding)
    (receivers : List String) (maxReplacements : Nat) :
    let before := Body.ofMethod beforeAround beforeMethod beforeParameters
    let after := Body.ofMethod afterAround afterMethod afterParameters
    let c : Comparison :=
      { before, after, beforeScope, afterScope, binding, receivers, maxReplacements }
    let c' : Comparison :=
      { before := after, after := before, beforeScope := afterScope, afterScope := beforeScope
        binding, receivers, maxReplacements }
    c'.exactPairs.Perm (c.exactPairs.map Prod.swap) := by
  intro before after c c'
  have hbefore : c.before.IsLaidOut := Body.ofMethod_isLaidOut _ _ _
  have hafter : c.after.IsLaidOut := Body.ofMethod_isLaidOut _ _ _
  have hturn : c.IsTurned c' := ⟨rfl, rfl, rfl, rfl⟩
  have hlinks := (exactLinks_turned hturn hbefore hafter).map fun link => (link.before, link.after)
  rw [List.map_map] at hlinks
  have hpairs := (exactPairs_perm hbefore hafter).map Prod.swap
  rw [List.map_map] at hpairs
  exact ((exactPairs_perm hafter hbefore).trans hlinks).trans hpairs.symm

end Comparison

end CodeEvolution
