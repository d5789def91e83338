import CodeEvolution.Proofs.Body.Walk
/-!
# The fragments above a fragment

The fragments that hold a fragment are its parent and those that hold the parent. So the nearest
one that passes a test is the parent, or else the nearest one above the parent: whatever is handed
down from a statement to those below it can be read off the parent chain.
-/
namespace CodeEvolution.Body

variable (test : Fragment → Bool) {body : Body} {f g : Fragment}

def nearest? (body : Body) (test : Fragment → Bool) (parent : Option Nat) : Option Fragment :=
  (body.ancestorsUpTo body.fragments.length parent).find? test

theorem nearest?_parent (f : Fragment) :
    body.nearest? test f.parent = (body.ancestors f).find? test :=
  rfl

theorem ancestorsUpTo_none (bound : Nat) : body.ancestorsUpTo bound none = [] := by
  cases bound <;> rfl

theorem nearest?_none : body.nearest? test none = none := by
  rw [nearest?, ancestorsUpTo_none, List.find?_nil]

namespace IsArena

variable (h : body.IsArena)

include h

/-- A bound above a number does not cut off anything that holds its fragment. -/
theorem ancestorsUpTo_of_lt {bound bound' id : Nat} (hget : body.get? id = some f)
    (hbound : id < bound) (hbound' : id < bound') :
    body.ancestorsUpTo bound (some id) = body.ancestorsUpTo bound' (some id) := by
  induction id using Nat.strongRecOn generalizing bound bound' f with
  | ind id ih =>
    obtain ⟨bound, rfl⟩ := Nat.exists_eq_add_one_of_ne_zero (Nat.ne_zero_of_lt hbound)
    obtain ⟨bound', rfl⟩ := Nat.exists_eq_add_one_of_ne_zero (Nat.ne_zero_of_lt hbound')
    simp only [ancestorsUpTo, hget]
    cases hparent : f.parent with
    | none => rw [ancestorsUpTo_none, ancestorsUpTo_none]
    | some parent =>
      obtain ⟨hlt, owner, howner⟩ := h.parent_lt ⟨f, hget, hparent⟩
      have hparent_lt : parent < bound := by omega
      have hparent_lt' : parent < bound' := by omega
      rw [ih parent hlt howner hparent_lt hparent_lt']

theorem ancestorsUpTo_eq_cons (hg : g ∈ body.fragments) :
    body.ancestorsUpTo body.fragments.length (some g.id) = g :: body.ancestors g := by
  have hget := h.get?_id hg
  have hlt : g.id < body.fragments.length := (List.getElem?_eq_some_iff.mp hget).1
  rw [h.ancestorsUpTo_of_lt hget hlt (Nat.lt_succ_of_lt hlt), ancestorsUpTo, hget]
  rfl

theorem ancestors_of_parent (hg : g ∈ body.fragments) (hparent : f.parent = some g.id) :
    body.ancestors f = g :: body.ancestors g := by
  rw [ancestors, hparent, h.ancestorsUpTo_eq_cons hg]

theorem nearest?_some (hg : g ∈ body.fragments) :
    body.nearest? test (some g.id) = if test g then some g else body.nearest? test g.parent := by
  rw [nearest?, h.ancestorsUpTo_eq_cons hg, List.find?_cons, nearest?_parent]
  cases test g <;> rfl

theorem forall_mem_ancestors {P : Fragment → Fragment → Prop}
    (hparent : ∀ f ∈ body.fragments, ∀ g ∈ body.fragments,
      f.parent = some g.id → g.id < f.id → P f g)
    (hstep : ∀ f ∈ body.fragments, ∀ owner ∈ body.fragments, ∀ g ∈ body.ancestors owner,
      f.parent = some owner.id → owner.id < f.id → P owner g → P f g)
    (hf : f ∈ body.fragments) (hg : g ∈ body.ancestors f) : P f g := by
  generalize hid : f.id = id
  induction id using Nat.strongRecOn generalizing f with
  | ind id ih =>
    subst hid
    by_cases hroot : f.id = 0
    · rw [ancestors, (h.root f hf).mpr hroot, ancestorsUpTo_none] at hg
      exact absurd hg List.not_mem_nil
    · obtain ⟨owner, howner, howned, hlt, -⟩ := h.parent f hf hroot
      rw [h.ancestors_of_parent howner howned] at hg
      rcases List.mem_cons.mp hg with rfl | hg
      · exact hparent f hf g howner howned hlt
      · exact hstep f hf owner howner g hg howned hlt (ih owner.id hlt howner hg rfl)

theorem mem_of_mem_ancestors (hf : f ∈ body.fragments) (hg : g ∈ body.ancestors f) :
    g ∈ body.fragments ∧ g.id < f.id := by
  refine h.forall_mem_ancestors (P := fun f g => g ∈ body.fragments ∧ g.id < f.id) ?_ ?_ hf hg
  · exact fun _ _ g hg _ hlt => ⟨hg, hlt⟩
  · exact fun _ _ _ _ _ _ _ hlt ⟨hmem, hbelow⟩ => ⟨hmem, Nat.lt_trans hbelow hlt⟩

theorem composite_of_mem_ancestors (hf : f ∈ body.fragments) (hg : g ∈ body.ancestors f) :
    g.shape = .composite := by
  refine h.forall_mem_ancestors (P := fun _ g => g.shape = .composite) ?_ ?_ hf hg
  · intro f hf g hg howned _
    by_contra hsimple
    obtain ⟨hchildren, hexpressions⟩ := h.simple g hg hsimple
    -- A fragment is listed by its parent, which lists nothing.
    cases hstatement : f.isStatement with
    | true =>
      have hlisted := (h.children g hg f.index f.id).mpr ⟨f, h.get?_id hf, hstatement, howned, rfl⟩
      simp [hchildren] at hlisted
    | false =>
      have hlisted := (h.expressions g hg f.index f.id).mpr
        ⟨f, h.get?_id hf, hstatement, howned, rfl⟩
      simp [hexpressions] at hlisted
  · exact fun _ _ _ _ _ _ _ _ hshape => hshape

theorem exists_block_above (hf : f ∈ body.fragments) (hne : f.id ≠ 0) :
    ∃ block, (body.ancestors f).find? Fragment.isBlock = some block := by
  suffices hroot : ∃ root ∈ body.ancestors f, root.isBlock = true from
    Option.isSome_iff_exists.mp (List.find?_isSome.mpr hroot)
  generalize hid : f.id = id at hne
  induction id using Nat.strongRecOn generalizing f with
  | ind id ih =>
    subst hid
    obtain ⟨owner, howner, howned, hlt, -⟩ := h.parent f hf hne
    rw [h.ancestors_of_parent howner howned]
    by_cases hzero : owner.id = 0
    · have hblock := (h.block owner (hzero ▸ h.get?_id howner)).1
      exact ⟨owner, List.mem_cons_self, beq_iff_eq.mpr hblock⟩
    · obtain ⟨root, hroot, hblock⟩ := ih owner.id hlt howner rfl hzero
      exact ⟨root, List.mem_cons_of_mem _ hroot, hblock⟩

theorem ancestors_split (hf : f ∈ body.fragments) (hg : g ∈ body.ancestors f) :
    ∃ between, body.ancestors f = between ++ g :: body.ancestors g ∧
      ∀ inner ∈ between, inner ∈ body.fragments ∧ g ∈ body.ancestors inner := by
  refine h.forall_mem_ancestors (P := fun f g => ∃ between,
    body.ancestors f = between ++ g :: body.ancestors g ∧
      ∀ inner ∈ between, inner ∈ body.fragments ∧ g ∈ body.ancestors inner) ?_ ?_ hf hg
  · intro f _ g hg howned _
    exact ⟨[], h.ancestors_of_parent hg howned, by simp⟩
  · rintro f _ owner howner g hg howned _ ⟨between, hsplit, hinner⟩
    refine ⟨owner :: between, ?_, List.forall_mem_cons.mpr ⟨⟨howner, hg⟩, hinner⟩⟩
    rw [h.ancestors_of_parent howner howned, hsplit, List.cons_append]

end IsArena

end CodeEvolution.Body
