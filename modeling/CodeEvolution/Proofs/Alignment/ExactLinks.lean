import CodeEvolution.Proofs.Alignment.Faithful
/-!
# Exact links

The first two phases link statements of equal text, first the simple ones and then the composites,
and no later phase makes an exact link or takes one back. So the exact links between statements
are those of these two phases. In each phase a pair that could be linked is linked, or one of its
ends is.
-/
namespace CodeEvolution.Comparison

open OneToOne

variable {b a : Fragment} {link : Link} {sides : Sides} (c : Comparison) (links : List Link)
  {found : LinkKind × List Replacement} (x y : List Nat)

theorem costLe_total : (costLe x y || costLe y x) = true := by
  induction x generalizing y with
  | nil => simp [costLe]
  | cons m ms ih =>
    cases y with
    | nil => simp [costLe]
    | cons n ns =>
      simp only [costLe]
      split
      · rename_i heq
        rw [if_pos heq.symm]
        exact ih ns
      · rename_i hne
        rw [if_neg (Ne.symm hne)]
        simp only [Bool.or_eq_true, decide_eq_true_eq]
        omega

theorem costLe_trans (z : List Nat) (hxy : costLe x y = true) (hyz : costLe y z = true) :
    costLe x z = true := by
  induction x generalizing y z with
  | nil => simp [costLe]
  | cons m ms ih =>
    cases y with
    | nil => simp [costLe] at hxy
    | cons n ns =>
      cases z with
      | nil => simp [costLe] at hyz
      | cons k ks =>
        simp only [costLe] at hxy hyz ⊢
        grind

theorem mem_earlier_of_not_costLe {earlier later : List Candidate} {x y : Candidate}
    (hsorted : (earlier ++ x :: later).Pairwise fun x y => costLe x.cost y.cost = true)
    (hy : y ∈ earlier ++ x :: later) (hcost : costLe x.cost y.cost = false) : y ∈ earlier := by
  rcases List.mem_append.mp hy with hy | hy
  · exact hy
  · exfalso
    have hle : costLe x.cost y.cost = true := by
      rcases List.mem_cons.mp hy with rfl | hy
      · simpa using costLe_total y.cost y.cost
      · exact (List.pairwise_cons.mp (List.pairwise_append.mp hsorted).2.1).1 y hy
    rw [hcost] at hle
    exact Bool.false_ne_true hle

theorem tried_pairwise (criterion : List Link → Criterion) (links : List Link) (sides : Sides) :
    (c.tried criterion links sides).Pairwise fun x y => costLe x.cost y.cost = true :=
  List.pairwise_mergeSort (fun x y z => costLe_trans x.cost y.cost z.cost)
    (fun x y => costLe_total x.cost y.cost) _

def IsSide (c : Comparison) (sides : Sides) : Prop :=
  sides = c.leaves ∨ sides = c.composites

theorem not_composite_of_leaf {body : Body} {scope scope' : Option (List Nat)} {f : Fragment}
    (h : f ∈ inScope scope body.leaves) : f ∉ inScope scope' body.composites := by
  intro hcomposite
  have hleaf := (Body.mem_leaves.mp ((inScope_sublist _ _).subset h)).2
  simp [(Body.mem_composites.mp ((inScope_sublist _ _).subset hcomposite)).2.1] at hleaf

section Phase

variable {c : Comparison} {criterion : List Link → Criterion} {links : List Link} {sides : Sides}

theorem mem_phase_of_mem (h : link ∈ links) : link ∈ c.phase criterion links sides := by
  rw [phase_eq]
  exact mem_takeAll_of_mem h _

theorem mem_phase (h : link ∈ c.phase criterion links sides) :
    link ∈ links ∨ ∃ b ∈ sides.before, ∃ a ∈ sides.after, ∃ found,
      criterion links b a = some found ∧ link = ⟨b.id, a.id, found.1, found.2⟩ := by
  rw [phase_eq] at h
  refine (mem_takeAll h).imp_right fun hlink => ?_
  obtain ⟨candidate, hcandidate, rfl⟩ := List.mem_map.mp hlink
  obtain ⟨b, hb, a, ha, found, -, -, -, hfound, rfl⟩ := mem_candidates.mp (mem_tried.mp hcandidate)
  exact ⟨b, hb, a, ha, found, hfound, rfl⟩

/-- Of two statements that a phase may link, at least one is linked after it. -/
theorem phase_settles (hb : b ∈ sides.before) (ha : a ∈ sides.after) (hkind : b.kind = a.kind)
    (hfound : criterion links b a = some found) :
    ∃ link ∈ c.phase criterion links sides, link.before = b.id ∨ link.after = a.id := by
  cases hbefore : beforeLinked links b with
  | true =>
    obtain ⟨link, hlink, hid⟩ := List.any_eq_true.mp hbefore
    exact ⟨link, mem_phase_of_mem hlink, Or.inl (eq_of_beq hid)⟩
  | false =>
    cases hafter : afterLinked links a with
    | true =>
      obtain ⟨link, hlink, hid⟩ := List.any_eq_true.mp hafter
      exact ⟨link, mem_phase_of_mem hlink, Or.inr (eq_of_beq hid)⟩
    | false =>
      have htried : ⟨⟨b.id, a.id, found.1, found.2⟩, c.cost links found.2.length b a⟩ ∈
          c.tried criterion links sides :=
        mem_tried.mpr (mem_candidates.mpr
          ⟨b, hb, a, ha, found, hbefore, hafter, hkind, hfound, rfl⟩)
      rw [phase_eq]
      exact exists_taken_of_mem (List.mem_map_of_mem (f := Candidate.link) htried)

end Phase

theorem exactly_eq_some {links : List Link} (h : exactly links b a = some found) :
    b.text = a.text ∧ found = (.exact, []) := by
  unfold exactly at h
  split at h
  · exact ⟨‹_›, (Option.some.inj h).symm⟩
  · cases h

def Criterion.IsInexact (criterion : Criterion) : Prop :=
  ∀ b a found, criterion b a = some found → found.1 ≠ .exact

theorem byReplacement_isInexact : (c.byReplacement links).IsInexact := by
  intro b a found h
  obtain ⟨replacements, -, rfl⟩ := Option.map_eq_some_iff.mp h
  exact nofun

theorem byPlace_isInexact : (c.byPlace links).IsInexact := by
  intro b a found h
  unfold byPlace at h
  split at h
  · obtain rfl := Option.some.inj h
    exact nofun
  · cases h

theorem mem_phase_of_exact {c : Comparison} {criterion : List Link → Criterion} {links : List Link}
    (hinexact : (criterion links).IsInexact) (h : link ∈ c.phase criterion links sides)
    (hexact : link.kind = .exact) : link ∈ links := by
  rcases mem_phase h with h | ⟨b, -, a, -, found, hfound, rfl⟩
  · exact h
  · exact absurd hexact (hinexact b a found hfound)

def exactLeaves (c : Comparison) : List Link :=
  c.phase exactly [] c.leaves

def exactLinks (c : Comparison) : List Link :=
  c.phase exactly (c.phase exactly [] c.leaves) c.composites

def replacedLeaves (c : Comparison) : List Link :=
  c.phase c.byReplacement c.exactLinks c.leaves

def replacedLinks (c : Comparison) : List Link :=
  c.phase c.byReplacement c.replacedLeaves c.composites

theorem exactLinks_eq : c.exactLinks = c.phase exactly c.exactLeaves c.composites :=
  rfl

variable {c : Comparison} {link : Link}

theorem exact_of_mem_exactLinks (h : link ∈ c.exactLinks) :
    link.kind = .exact ∧ link.replacements = [] := by
  rcases mem_phase h with h | ⟨b, -, a, -, found, hfound, rfl⟩
  · rcases mem_phase h with h | ⟨b, -, a, -, found, hfound, rfl⟩
    · cases h
    · rw [(exactly_eq_some hfound).2]
      exact ⟨rfl, rfl⟩
  · rw [(exactly_eq_some hfound).2]
    exact ⟨rfl, rfl⟩

/-- The exact links between statements are those of the first two phases. -/
theorem mem_exactLinks_iff_exact :
    link ∈ c.exactLinks ↔ link ∈ c.statementLinks ∧ link.kind = .exact := by
  constructor
  · intro h
    exact ⟨mem_phase_of_mem (mem_phase_of_mem (mem_phase_of_mem h)), (exact_of_mem_exactLinks h).1⟩
  · rintro ⟨h, hexact⟩
    have hreplaced := mem_phase_of_exact (c.byPlace_isInexact _) h hexact
    have hleaves := mem_phase_of_exact (c.byReplacement_isInexact _) hreplaced hexact
    exact mem_phase_of_exact (c.byReplacement_isInexact _) hleaves hexact

theorem exactLinks_settle (hsides : c.IsSide sides) (hb : b ∈ sides.before) (ha : a ∈ sides.after)
    (hkind : b.kind = a.kind) (htext : b.text = a.text) :
    ∃ link ∈ c.exactLinks, link.before = b.id ∨ link.after = a.id := by
  have hfound (links : List Link) : exactly links b a = some (.exact, []) := if_pos htext
  rcases hsides with rfl | rfl
  · obtain ⟨link, hlink, hends⟩ := phase_settles (c := c) hb ha hkind (hfound [])
    exact ⟨link, mem_phase_of_mem hlink, hends⟩
  · exact phase_settles hb ha hkind (hfound _)

theorem statementLinks_settle_replaced (hsides : c.IsSide sides) (hb : b ∈ sides.before)
    (ha : a ∈ sides.after) (hkind : b.kind = a.kind) {replacements : List Replacement}
    (hfound : Replacement.find? c b a = some replacements) :
    ∃ link ∈ c.statementLinks, link.before = b.id ∨ link.after = a.id := by
  have hcriterion (links : List Link) :
      c.byReplacement links b a = some (.replaced, replacements) := by
    rw [byReplacement, hfound, Option.map_some]
  rcases hsides with rfl | rfl
  · obtain ⟨link, hlink, hends⟩ := phase_settles (c := c) hb ha hkind (hcriterion c.exactLinks)
    exact ⟨link, mem_phase_of_mem (mem_phase_of_mem hlink), hends⟩
  · obtain ⟨link, hlink, hends⟩ := phase_settles (c := c) hb ha hkind (hcriterion c.replacedLeaves)
    exact ⟨link, mem_phase_of_mem hlink, hends⟩

end CodeEvolution.Comparison
