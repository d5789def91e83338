import CodeEvolution.Body.Facts
/-!
# First occurrences

A list with only the first of equal members kept has the same members. A list that grows by what
it does not hold yet ends with the first occurrences of what is new.
-/
namespace CodeEvolution

theorem mem_firstOccurrences {α : Type} [BEq α] [LawfulBEq α] {a : α} {items : List α} :
    a ∈ firstOccurrences items ↔ a ∈ items := by
  induction items with
  | nil => rfl
  | cons first rest ih =>
    by_cases h : a = first
    · simp [firstOccurrences, h]
    · simp [firstOccurrences, h, ih]

def appendNew {α : Type} [BEq α] (seen : List α) (a : α) : List α :=
  if seen.contains a then seen else seen ++ [a]

theorem foldl_appendNew {α : Type} [BEq α] [LawfulBEq α] (seen items : List α) :
    items.foldl appendNew seen = seen ++ (firstOccurrences items).filter (!seen.contains ·) := by
  induction items generalizing seen with
  | nil => simp [firstOccurrences]
  | cons a rest ih =>
    rw [List.foldl_cons, ih, firstOccurrences, appendNew]
    by_cases h : a ∈ seen
    · -- What is new differs from what was seen.
      have hnew : ((firstOccurrences rest).filter fun b => !(b == a)).filter (!seen.contains ·) =
          (firstOccurrences rest).filter (!seen.contains ·) := by
        rw [List.filter_filter]
        refine List.filter_congr fun b _ => ?_
        by_cases hb : b = a <;> simp_all
      rw [if_pos (by simpa using h), List.filter_cons_of_neg (by simpa using h), hnew]
    · rw [if_neg (by simpa using h), List.filter_cons_of_pos (by simpa using h),
        List.append_assoc, List.singleton_append, List.filter_filter]
      congr 3
      funext b
      by_cases hb : b = a <;> simp [hb]

theorem mem_appendNew {α : Type} [BEq α] [LawfulBEq α] {seen : List α} {a b : α} :
    b ∈ appendNew seen a ↔ b ∈ seen ∨ b = a := by
  unfold appendNew
  split
  · rename_i hseen
    exact ⟨Or.inl, fun h => h.elim id fun hb => hb ▸ List.contains_iff_mem.mp hseen⟩
  · simp

theorem mem_foldl_appendNew {α : Type} [BEq α] [LawfulBEq α] {seen items : List α} {b : α} :
    b ∈ items.foldl appendNew seen ↔ b ∈ seen ∨ b ∈ items := by
  induction items generalizing seen with
  | nil => simp
  | cons a rest ih => rw [List.foldl_cons, ih, mem_appendNew, List.mem_cons, or_assoc]

theorem foldl_appendNew_of_seen {α : Type} [BEq α] [LawfulBEq α] {seen items : List α}
    (h : ∀ a ∈ items, a ∈ seen) : items.foldl appendNew seen = seen := by
  induction items with
  | nil => rfl
  | cons a rest ih =>
    obtain ⟨ha, hrest⟩ := List.forall_mem_cons.mp h
    rw [List.foldl_cons, appendNew, if_pos (List.contains_iff_mem.mpr ha), ih hrest]

end CodeEvolution
