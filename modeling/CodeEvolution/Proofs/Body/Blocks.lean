import CodeEvolution.Proofs.Body.Arena
/-!
# Blocks have no controlling expressions

A controlling expression belongs to a composite statement other than a block: a block controls
nothing, and in the arena every expression is listed by its parent.
-/
namespace CodeEvolution

namespace Body

theorem ofMethod_expressions_of_block (around : Surroundings) (method : Node)
    (parameters : List Node) : ∀ f ∈ (ofMethod around method parameters).fragments,
      f.isBlock = true → f.expressions = [] := by
  apply ofMethod_forall_mem
  · intro s head nested handlers ids hshaped hblock
    have hkind : head.kind = .block := beq_iff_eq.mp hblock
    simp [introducing, Statement.headFragment, (hshaped.block hkind).1]
  · exact fun _ _ _ _ _ _ _ _ _ => rfl

/-- Every controlling expression is listed by a composite statement that is no block. -/
theorem ofMethod_owner (around : Surroundings) (method : Node) (parameters : List Node)
    {g : Fragment} (hg : g ∈ (ofMethod around method parameters).fragments)
    (hshape : g.shape = .expression) :
    ∃ owner ∈ (ofMethod around method parameters).composites, g.id ∈ owner.expressions := by
  have harena := ofMethod_isArena around method parameters
  have hget := get?_of_mem (ofMethod_ids around method parameters) hg
  have hexpression : g.isStatement = false := by simp [Fragment.isStatement, hshape]
  have hne : g.id ≠ 0 := by
    intro hzero
    have hroot := harena.block g (hzero ▸ hget)
    simp [hshape] at hroot
  obtain ⟨owner, howner, hparent, -⟩ := harena.parent g hg hne
  have hlisted : g.id ∈ owner.expressions := List.mem_of_getElem?
    ((harena.expressions owner howner g.index g.id).mpr ⟨g, hget, hexpression, hparent, rfl⟩)
  have hcomposite : owner.shape = .composite := by
    by_contra hsimple
    rw [(harena.simple owner howner hsimple).2] at hlisted
    exact absurd hlisted List.not_mem_nil
  refine ⟨owner, ?_, hlisted⟩
  simp only [composites, statements, List.mem_filter, Fragment.isStatement, Fragment.isComposite,
    hcomposite]
  refine ⟨⟨howner, rfl⟩, ?_⟩
  cases hblock : owner.isBlock with
  | false => rfl
  | true =>
    rw [ofMethod_expressions_of_block around method parameters owner howner hblock] at hlisted
    exact absurd hlisted List.not_mem_nil

end Body

end CodeEvolution
