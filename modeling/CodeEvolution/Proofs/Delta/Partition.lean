import CodeEvolution.Delta.Partition
/-!
# First come, first served pairing loses nothing

The pairing of two lists is compared with the lists themselves: what was removed and the first
sides of the pairs are the first list, what was added and the second sides are the second list,
repetitions counted. No removed member matches an added one, since a member is left over only
when no free one matches it and the free ones become fewer.
-/
namespace CodeEvolution.Partition

variable {α : Type} {a b : α} {p : α → Bool} {items others rest afters : List α}
  {same : α → α → Bool}

theorem takeFirst_eq_none_iff : takeFirst p items = none ↔ ∀ a ∈ items, p a = false := by
  induction items with
  | nil => simp [takeFirst]
  | cons a rest ih =>
    by_cases ha : p a
    · simp [takeFirst, ha]
    · simp [takeFirst, ha, ih]

theorem takeFirst_split (h : takeFirst p items = some (a, others)) :
    ∃ front back, items = front ++ a :: back ∧ others = front ++ back ∧
      p a = true ∧ ∀ c ∈ front, p c = false := by
  induction items generalizing others with
  | nil => simp [takeFirst] at h
  | cons b rest ih =>
    by_cases hb : p b
    · simp only [takeFirst, hb, ↓reduceIte, Option.some.injEq, Prod.mk.injEq] at h
      obtain ⟨rfl, rfl⟩ := h
      exact ⟨[], rest, rfl, rfl, hb, by simp⟩
    · simp only [takeFirst, hb, Bool.false_eq_true, ↓reduceIte, Option.map_eq_some_iff,
        Prod.mk.injEq] at h
      obtain ⟨⟨c, found⟩, hc, rfl, rfl⟩ := h
      obtain ⟨front, back, rfl, rfl, ha, hfront⟩ := ih hc
      exact ⟨b :: front, back, rfl, rfl, ha, by simpa [hb] using hfront⟩

theorem takeFirst_eq_some (h : takeFirst p items = some (a, others)) :
    p a = true ∧ List.Perm items (a :: others) := by
  obtain ⟨front, back, rfl, rfl, ha, -⟩ := takeFirst_split h
  exact ⟨ha, List.perm_middle⟩

theorem of_cons_some (h : takeFirst (same b) afters = some (a, others)) :
    Partition.of same (b :: rest) afters =
      { Partition.of same rest others with
        common := (b, a) :: (Partition.of same rest others).common } := by
  simp only [Partition.of, h]

theorem of_cons_none (h : takeFirst (same b) afters = none) :
    Partition.of same (b :: rest) afters =
      { Partition.of same rest afters with
        removed := b :: (Partition.of same rest afters).removed } := by
  simp only [Partition.of, h]

theorem of_before_perm (same : α → α → Bool) (befores afters : List α) :
    List.Perm ((Partition.of same befores afters).removed ++
      (Partition.of same befores afters).common.map Prod.fst) befores := by
  fun_induction Partition.of same befores afters with
  | case1 => simp
  | case2 b rest afters a others _ tail ih => exact List.perm_middle.trans (ih.cons b)
  | case3 b rest afters _ tail ih => exact ih.cons b

theorem of_after_perm (same : α → α → Bool) (befores afters : List α) :
    List.Perm ((Partition.of same befores afters).added ++
      (Partition.of same befores afters).common.map Prod.snd) afters := by
  fun_induction Partition.of same befores afters with
  | case1 => simp
  | case2 b rest afters a others htake tail ih =>
    exact List.perm_middle.trans ((ih.cons a).trans (takeFirst_eq_some htake).2.symm)
  | case3 b rest afters _ tail ih => exact ih

theorem of_added_subset (same : α → α → Bool) (befores afters : List α) :
    (Partition.of same befores afters).added ⊆ afters := fun _ ha =>
  (of_after_perm same befores afters).subset (List.mem_append_left _ ha)

theorem of_apart (same : α → α → Bool) (befores afters : List α) :
    ∀ b ∈ (Partition.of same befores afters).removed,
      ∀ a ∈ (Partition.of same befores afters).added, same b a = false := by
  fun_induction Partition.of same befores afters with
  | case1 => simp
  | case2 b rest afters a others _ tail ih => exact ih
  | case3 b rest afters hnone tail ih =>
    refine List.forall_mem_cons.mpr ⟨fun a ha => ?_, ih⟩
    exact takeFirst_eq_none_iff.mp hnone a (of_added_subset same rest afters ha)

theorem of_append (same : α → α → Bool) (front back afters : List α) :
    Partition.of same (front ++ back) afters =
      let first := Partition.of same front afters
      let second := Partition.of same back first.added
      ⟨first.removed ++ second.removed, second.added, first.common ++ second.common⟩ := by
  induction front generalizing afters with
  | nil => rfl
  | cons b rest ih =>
    cases h : takeFirst (same b) afters with
    | some found =>
      rw [List.cons_append, of_cons_some h, of_cons_some h, ih]
      rfl
    | none =>
      rw [List.cons_append, of_cons_none h, of_cons_none h, ih]
      rfl

theorem of_unmatched (same : α → α → Bool) {befores : List α} (h : ∀ b ∈ befores, same b a = false)
    (afters : List α) :
    Partition.of same befores (a :: afters) =
      { Partition.of same befores afters with
        added := a :: (Partition.of same befores afters).added } := by
  induction befores generalizing afters with
  | nil => rfl
  | cons b rest ih =>
    have hrest := ih fun c hc => h c (List.mem_cons_of_mem b hc)
    have hpass : takeFirst (same b) (a :: afters) =
        (takeFirst (same b) afters).map fun found => (found.1, a :: found.2) := by
      simp [takeFirst, h b List.mem_cons_self]
    cases hfound : takeFirst (same b) afters with
    | some found =>
      rw [hfound] at hpass
      rw [of_cons_some hpass, of_cons_some hfound, hrest]
    | none =>
      rw [hfound] at hpass
      rw [of_cons_none hpass, of_cons_none hfound, hrest]

section Keyed

variable {κ : Type} [BEq κ] (key : α → κ)

theorem of_self_append [ReflBEq κ] (items rest : List α) :
    Partition.of (fun b a => key b == key a) items (items ++ rest) =
      ⟨[], rest, items.map fun a => (a, a)⟩ := by
  induction items with
  | nil => rfl
  | cons a others ih =>
    have h : takeFirst (fun b => key a == key b) (a :: (others ++ rest)) =
        some (a, others ++ rest) := by
      simp [takeFirst]
    rw [List.cons_append, of_cons_some h, ih]
    rfl

theorem of_self [ReflBEq κ] (items : List α) :
    Partition.of (fun b a => key b == key a) items items = ⟨[], [], items.map fun a => (a, a)⟩ := by
  have h := of_self_append key items []
  rwa [List.append_nil] at h

theorem of_updated [ReflBEq κ] (h : (key b == key a) = true) (front back : List α) :
    Partition.of (fun b a => key b == key a) (front ++ b :: back) (front ++ a :: back) =
      ⟨[], [], front.map (fun c => (c, c)) ++ (b, a) :: back.map fun c => (c, c)⟩ := by
  have htake : takeFirst (fun c => key b == key c) (a :: back) = some (a, back) := by
    simp [takeFirst, h]
  rw [of_append, of_self_append]
  dsimp only
  rw [of_cons_some htake, of_self]
  rfl

/-- A member whose key is that of no other is left over if it becomes one whose key is new. -/
theorem of_replaced [LawfulBEq κ] (front : List α) {back : List α}
    (hb : ∀ c ∈ a :: back, key b ≠ key c) (ha : ∀ c ∈ back, key c ≠ key a) :
    Partition.of (fun b a => key b == key a) (front ++ b :: back) (front ++ a :: back) =
      ⟨[b], [a], (front ++ back).map fun c => (c, c)⟩ := by
  have htake : takeFirst (fun c => key b == key c) (a :: back) = none := by
    rw [takeFirst_eq_none_iff]
    exact fun c hc => beq_eq_false_iff_ne.mpr (hb c hc)
  have hfree : ∀ c ∈ back, (key c == key a) = false := fun c hc => beq_eq_false_iff_ne.mpr (ha c hc)
  rw [of_append, of_self_append]
  dsimp only
  rw [of_cons_none htake, of_unmatched _ hfree, of_self, List.map_append]
  rfl

end Keyed

end CodeEvolution.Partition

namespace CodeEvolution

theorem perm_move {α : Type} {rest moved removed common items : List α}
    (hsplit : List.Perm (rest ++ moved) removed) (h : List.Perm (removed ++ common) items) :
    List.Perm (rest ++ (common ++ moved)) items := by
  calc rest ++ (common ++ moved)
    List.Perm _ (rest ++ (moved ++ common)) := List.perm_append_comm.append_left rest
    List.Perm _ ((rest ++ moved) ++ common) := .of_eq (List.append_assoc _ _ _).symm
    List.Perm _ (removed ++ common) := hsplit.append_right common
    List.Perm _ items := h

theorem sortByPosition_perm {α κ : Type} [BEq κ] (keys : List κ) (key : α → κ)
    (items : List α) : List.Perm (sortByPosition keys key items) items :=
  List.mergeSort_perm _ _

end CodeEvolution
