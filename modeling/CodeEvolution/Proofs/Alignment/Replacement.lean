import CodeEvolution.Alignment.Replacement
import CodeEvolution.Proofs.Text.EditDistance
/-!
# Soundness of the search for replacements

Every round of the search comes closer to the goal, so it ends without any bound on the number of
replacements; the search without a bound is defined here by recursion on the distance. The bound
only refuses answers that are too long. An answer is a chain of applications, each of which
succeeds and comes closer, and it ends at the tokens of the goal.
-/
namespace CodeEvolution.Replacement

variable {current : String} {move : Move} {found : List Replacement}

theorem closest_mem {moves : List Move} (h : closest moves = some move) : move ∈ moves := by
  induction moves generalizing move with
  | nil => simp [closest] at h
  | cons first rest ih =>
    simp only [closest] at h
    cases hrest : closest rest with
    | none =>
      rw [hrest] at h
      exact Option.some.inj h ▸ List.mem_cons_self
    | some other =>
      rw [hrest] at h
      dsimp only at h
      split at h
      · exact Option.some.inj h ▸ List.mem_cons_of_mem _ (ih hrest)
      · exact Option.some.inj h ▸ List.mem_cons_self

section Search

variable {proposed : List Replacement} {goal : List String}

theorem bestMove?_applies (h : bestMove? proposed goal current = some move) :
    Text.replaceIdentifier? current move.replacement.before move.replacement.after =
        some move.text ∧
      distanceTo goal move.text < distanceTo goal current := by
  obtain ⟨hmem, hcloser⟩ := List.mem_filter.mp (closest_mem h)
  obtain ⟨r, -, hr⟩ := List.mem_filterMap.mp hmem
  obtain ⟨text, htext, rfl⟩ := Option.map_eq_some_iff.mp hr
  exact ⟨htext, of_decide_eq_true hcloser⟩

variable (proposed goal)

def Round (next current : String) : Prop :=
  ∃ move, bestMove? proposed goal current = some move ∧ move.text = next

theorem round_wellFounded : WellFounded (Round proposed goal) := by
  apply Subrelation.wf _ (measure (distanceTo goal)).wf
  rintro next current ⟨move, hmove, rfl⟩
  exact (bestMove?_applies hmove).2

def descend (current : String) : Option (List Replacement) :=
  if distanceTo goal current = 0 then some []
  else
    match _h : bestMove? proposed goal current with
    | none => none
    | some move => (descend move.text).map (move.replacement :: ·)
termination_by distanceTo goal current
decreasing_by exact (bestMove?_applies _h).2

variable {proposed goal}

theorem descend_arrived (h : distanceTo goal current = 0) :
    descend proposed goal current = some [] := by
  rw [descend, if_pos h]

theorem descend_stuck (h : distanceTo goal current ≠ 0)
    (hmove : bestMove? proposed goal current = none) : descend proposed goal current = none := by
  rw [descend, if_neg h]
  split
  · rfl
  · simp_all

theorem descend_move (h : distanceTo goal current ≠ 0)
    (hmove : bestMove? proposed goal current = some move) :
    descend proposed goal current =
      (descend proposed goal move.text).map (move.replacement :: ·) := by
  rw [descend, if_neg h]
  split
  · simp_all
  · simp_all

/-- The bound on the number of replacements refuses long answers and does nothing else. -/
theorem search_eq_descend (budget : Nat) (current : String) :
    search proposed goal budget current =
      (descend proposed goal current).filter fun found => decide (found.length ≤ budget) := by
  induction budget generalizing current with
  | zero =>
    by_cases h : distanceTo goal current = 0
    · simp [search, h, descend_arrived h, Option.filter]
    · cases hmove : bestMove? proposed goal current with
      | none => simp [search, h, descend_stuck h hmove]
      | some move =>
        rw [search, if_neg h, descend_move h hmove]
        cases descend proposed goal move.text with
        | none => rfl
        | some found => simp [Option.filter]
  | succ budget ih =>
    by_cases h : distanceTo goal current = 0
    · simp [search, h, descend_arrived h, Option.filter]
    · cases hmove : bestMove? proposed goal current with
      | none => simp [search, h, hmove, descend_stuck h hmove]
      | some move =>
        simp only [search, if_neg h, hmove]
        rw [ih, descend_move h hmove]
        cases descend proposed goal move.text with
        | none => rfl
        | some found => by_cases hlength : found.length ≤ budget <;> simp [Option.filter, hlength]

/-- Replacements that lead from one text to another, each of which applies and comes closer to
the goal. -/
inductive Approach (goal : List String) : String → List Replacement → String → Prop where
  | arrived (text : String) : Approach goal text [] text
  | move {text next final : String} {r : Replacement} {rest : List Replacement} :
      Text.replaceIdentifier? text r.before r.after = some next →
      distanceTo goal next < distanceTo goal text →
      Approach goal next rest final → Approach goal text (r :: rest) final

theorem approach_of_descend (h : descend proposed goal current = some found) :
    ∃ final, Approach goal current found final ∧ distanceTo goal final = 0 := by
  fun_induction descend proposed goal current generalizing found with
  | case1 current hzero => exact ⟨current, Option.some.inj h ▸ .arrived current, hzero⟩
  | case2 => simp at h
  | case3 current _ move hmove ih =>
    obtain ⟨rest, hrest, rfl⟩ := Option.map_eq_some_iff.mp h
    obtain ⟨final, happroach, hfinal⟩ := ih hrest
    obtain ⟨happlies, hcloser⟩ := bestMove?_applies hmove
    exact ⟨final, .move happlies hcloser happroach, hfinal⟩

end Search

def explanation (comparison : Comparison) (before after : Fragment) :
    Option (List Replacement) :=
  if before.kind ≠ after.kind ∨ before.text = after.text then none
  else
    descend (proposals comparison before after) (Text.tokenize after.text) before.text

theorem find?_eq_explanation (comparison : Comparison) (before after : Fragment) :
    find? comparison before after =
      (explanation comparison before after).filter fun found =>
        decide (found.length ≤ comparison.maxReplacements) := by
  unfold find? explanation
  split
  · rfl
  · exact search_eq_descend _ _

theorem explanation_sound {comparison : Comparison} {before after : Fragment}
    (h : explanation comparison before after = some found) :
    before.kind = after.kind ∧ before.text ≠ after.text ∧
      ∃ final, Approach (Text.tokenize after.text) before.text found final ∧
        Text.tokenize final = Text.tokenize after.text := by
  unfold explanation at h
  split at h
  · simp at h
  · rename_i hcond
    obtain ⟨hkind, htext⟩ := not_or.mp hcond
    obtain ⟨final, happroach, hfinal⟩ := approach_of_descend h
    exact ⟨Decidable.not_not.mp hkind, htext, final, happroach,
      (Text.editDistance_eq_zero_iff _ _).mp hfinal⟩

/-- No run of the search goes on for ever, and the bound on the number of replacements only
refuses answers that are longer. The replacements found explain a difference of two fragments of
one kind: applied in order, each to the text the others led to, they succeed, come closer every
time, and end at the tokens of the second text. -/
theorem find?_sound (comparison : Comparison) (before after : Fragment) :
    WellFounded (Round (proposals comparison before after) (Text.tokenize after.text)) ∧
      (∀ budget, find? { comparison with maxReplacements := budget } before after =
        (explanation comparison before after).filter fun found => decide (found.length ≤ budget)) ∧
      ∀ found, find? comparison before after = some found →
        before.kind = after.kind ∧ before.text ≠ after.text ∧
          found.length ≤ comparison.maxReplacements ∧
          ∃ final, Approach (Text.tokenize after.text) before.text found final ∧
            Text.tokenize final = Text.tokenize after.text := by
  refine ⟨round_wellFounded _ _, fun budget => find?_eq_explanation _ before after, ?_⟩
  intro found h
  rw [find?_eq_explanation, Option.filter_eq_some_iff] at h
  obtain ⟨hkind, htext, hfinal⟩ := explanation_sound h.1
  exact ⟨hkind, htext, of_decide_eq_true h.2, hfinal⟩

theorem find?_sound_two_names : let before : Fragment :=
      { id := 1, kind := .returnStatement, shape := .leaf, depth := 1, text := "return a + b",
        span := {}, parent := some 0, index := 0, facts := { names := ["a", "b"] } }
    let after : Fragment :=
      { before with text := "return x + y", facts := { names := ["x", "y"] } }
    let comparison : Comparison :=
      { before := {}, after := {}, receivers := [], maxReplacements := 2 }
    let found : List Replacement := [⟨.variableName, "a", "x"⟩, ⟨.variableName, "b", "y"⟩]
    find? comparison before after = some found ∧
      ∃ final, Approach (Text.tokenize after.text) before.text found final ∧
        Text.tokenize final = Text.tokenize after.text := by
  intro before after comparison found
  have h : find? comparison before after = some found := by decide +kernel
  exact ⟨h, ((find?_sound comparison before after).2.2 found h).2.2.2⟩

end CodeEvolution.Replacement
