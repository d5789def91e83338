import CodeEvolution.Proofs.Alignment.Identity
import CodeEvolution.Proofs.Alignment.Namesakes
/-!
# The variables of a body aligned with itself

Every variable is its own namesake, so the pass by place pairs each with itself, and the later
passes, which only look at unpaired variables, add nothing.
-/
namespace CodeEvolution

namespace VariableDelta

theorem ofLinks_self {c : Comparison} (hself : c.IsReflexive) {links : List Link}
    (htogether : ∀ v ∈ tracked c.before, declaredTogether links v.1 v.1 = true) :
    ofLinks c links = { common := (tracked c.before).map fun v => (v.2, v.2) } := by
  have hsame : ∀ v ∈ tracked c.before, namesake c v = v := by
    intro v hv
    rw [namesake, hself.after, (mem_tracked.mp hv).1, Option.getD_some]
  have hkeeps : KeepsNames c fun _ => true :=
    { afters := by rw [hself.after, List.map_congr_left hsame, List.map_id']
      role := fun v hv => by rw [hsame v hv]
      kept := fun v hv _ => by rw [hsame v hv]
      gone := fun _ _ hfalse => absurd hfalse nofun
      fresh := fun _ _ hfalse => absurd hfalse nofun }
  have hplaced : (tracked c.before).foldl (pairByPlace links (tracked c.after)) [] =
      keptPairs c (fun _ => true) (tracked c.before) :=
    foldl_pairByPlace_kept hkeeps fun v hv _ => (hsame v hv).symm ▸ htogether v hv
  have hall : keptPairs c (fun _ => true) (tracked c.before) =
      (tracked c.before).map fun v => (v, namesake c v) := by
    rw [keptPairs, List.filter_eq_self.mpr fun _ _ => rfl]
  generalize hpairs : keptPairs c (fun _ => true) (tracked c.before) = pairs at hplaced hall
  have hbefore : ∀ v ∈ tracked c.before, beforePaired pairs v = true := by
    intro v hv
    rw [← hpairs, beforePaired_keptPairs]
    exact List.mem_map_of_mem (List.mem_filter.mpr ⟨hv, rfl⟩)
  have hafter : ∀ v ∈ tracked c.before, afterPaired pairs v = true := by
    intro v hv
    rw [← hpairs, afterPaired_keptPairs, hpairs, hbefore v hv]
  have hnamed : ∀ v ∈ tracked c.before,
      pairByName (tracked c.before) (tracked c.after) pairs v = pairs :=
    fun v hv => if_pos (hbefore v hv)
  have hrenamed : ∀ v ∈ tracked c.before,
      pairByRenaming c links (tracked c.after) pairs v = pairs :=
    fun v hv => if_pos (hbefore v hv)
  have hvalue : ∀ p ∈ pairs, sameValue p = true := by
    rw [hall]
    exact List.forall_mem_map.mpr fun v hv => by simp [sameValue, hsame v hv]
  simp only [ofLinks, hplaced]
  rw [foldl_of_fixed hnamed, foldl_of_fixed hrenamed, hself.after,
    List.filter_eq_nil_iff.mpr fun v hv => by simp [hbefore v hv],
    List.filter_eq_nil_iff.mpr fun v hv => by simp [hafter v hv],
    List.filter_eq_self.mpr hvalue, List.filter_eq_nil_iff.mpr fun p hp => by simp [hvalue p hp],
    List.drop_length, hall, List.map_map]
  rfl

end VariableDelta

namespace Comparison

variable {c : Comparison} (hself : c.IsReflexive) (hbody : c.before.IsOfMethod)

include hself hbody

/-- Every parameter and local variable is paired with itself, and nothing else is paired. -/
theorem align_variableDelta :
    c.align.variableDelta =
      { common := (VariableDelta.tracked c.before).map fun v => (v.2, v.2) } := by
  refine VariableDelta.ofLinks_self hself fun v hv => ?_
  refine (hself.isParallel hbody).declaredTogether
    (List.fst_mem_of_mem_zipIdx (List.mem_filter.mp hv).1) rfl fun f hf _ => ?_
  exact hself.isTold_eq_true hbody.isLaidOut (c.before.leaves_sublist.subset hf)

end Comparison

end CodeEvolution
