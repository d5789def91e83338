import CodeEvolution.Proofs.Alignment.IdentityVariables
/-!
# What the alignment of a body with itself says

Every fragment but the blocks is linked to itself, nothing is left over, and every variable is
paired with itself.
-/
namespace CodeEvolution

/-- An alignment links every fragment of a body to itself except for the blocks, leaves nothing
over, and pairs every parameter and local variable with itself. -/
structure Alignment.IsIdentity (body : Body) (alignment : Alignment) : Prop where
  links : alignment.links = (body.fragments.filter fun f => !(f.isComposite && f.isBlock)).map
    fun f => .identity f.id
  unmappedBeforeLeaves : alignment.unmappedBeforeLeaves = []
  unmappedAfterLeaves : alignment.unmappedAfterLeaves = []
  unmappedBeforeComposites : alignment.unmappedBeforeComposites = []
  unmappedAfterComposites : alignment.unmappedAfterComposites = []
  ratio : alignment.ratio = .one
  variableDelta : alignment.variableDelta =
    { common := (VariableDelta.tracked body).map fun v => (v.2, v.2) }

namespace Comparison

/-- The body of a method aligned with itself is aligned fragment by fragment, whatever the
receivers, the binding of arguments and the number of replacements. -/
theorem align_self_isIdentity (around : Surroundings) (method : Node) (parameters : List Node)
    (binding : ArgumentBinding) (receivers : List String) (maxReplacements : Nat) :
    let body := Body.ofMethod around method parameters
    let c : Comparison :=
      { before := body, after := body, binding, receivers, maxReplacements }
    c.align.IsIdentity body := by
  intro body c
  have hself : c.IsReflexive := ⟨rfl, rfl, rfl⟩
  have hbody : c.before.IsOfMethod := ⟨around, method, parameters, rfl⟩
  have hidentical := align_isIdentical hself hbody
  simp only [Alignment.isIdentical, Bool.and_eq_true, List.isEmpty_iff] at hidentical
  obtain ⟨⟨⟨⟨hbeforeLeaves, hafterLeaves⟩, hbeforeComposites⟩, hafterComposites⟩, -⟩ := hidentical
  exact
    { links := align_links_eq_identities hself hbody
      unmappedBeforeLeaves := hbeforeLeaves
      unmappedAfterLeaves := hafterLeaves
      unmappedBeforeComposites := hbeforeComposites
      unmappedAfterComposites := hafterComposites
      ratio := align_ratio_eq_one hself hbody
      variableDelta := align_variableDelta hself hbody }

end Comparison

end CodeEvolution
