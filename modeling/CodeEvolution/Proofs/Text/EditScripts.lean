import CodeEvolution.Proofs.Text.EditDistance
import Mathlib.Order.Bounds.Defs
/-!
# The edit distance is the least number of edits

An edit inserts, deletes or substitutes one item anywhere in a list; a script is a chain of edits.
The recursion behind the rows can be followed by a script of that length, and one edit changes the
distance to any third list by at most one, so no script is shorter. Scripts can be run backwards
and one after the other, which makes the distance symmetric and gives the triangle inequality.
-/
namespace CodeEvolution.Text

variable {n : Nat} {α : Type} {xs ys : List α} {m : Nat} (item x : α) (source : List α) (z y : α)
  (target : List α)

/-- One list turns into another by a single insertion, deletion or substitution. -/
inductive Edit : List α → List α → Prop
  | insert (before : List α) (item : α) (after : List α) :
      Edit (before ++ after) (before ++ item :: after)
  | delete (before : List α) (item : α) (after : List α) :
      Edit (before ++ item :: after) (before ++ after)
  | substitute (before : List α) (old new : α) (after : List α) :
      Edit (before ++ old :: after) (before ++ new :: after)

/-- One list turns into another by that number of edits. -/
inductive Edits : Nat → List α → List α → Prop
  | none (xs : List α) : Edits 0 xs xs
  | more {n : Nat} {xs ys zs : List α} (first : Edit xs ys) (rest : Edits n ys zs) :
      Edits (n + 1) xs zs

theorem Edit.symm (h : Edit xs ys) : Edit ys xs := by
  cases h with
  | insert before item after => exact .delete before item after
  | delete before item after => exact .insert before item after
  | substitute before old new after => exact .substitute before new old after

theorem Edit.cons (h : Edit xs ys) : Edit (item :: xs) (item :: ys) := by
  cases h with
  | insert before new after => exact .insert (item :: before) new after
  | delete before old after => exact .delete (item :: before) old after
  | substitute before old new after => exact .substitute (item :: before) old new after

theorem Edit.reverse (h : Edit xs ys) : Edit xs.reverse ys.reverse := by
  cases h with
  | insert before item after => simpa using Edit.insert after.reverse item before.reverse
  | delete before item after => simpa using Edit.delete after.reverse item before.reverse
  | substitute before old new after =>
    simpa using Edit.substitute after.reverse old new before.reverse

theorem Edits.trans {zs : List α} (h : Edits m xs ys) (h' : Edits n ys zs) :
    Edits (m + n) xs zs := by
  induction h with
  | none xs => exact (Nat.zero_add n).symm ▸ h'
  | more first _ ih => exact Nat.succ_add_eq_add_succ _ n ▸ .more first (ih h')

theorem Edits.symm (h : Edits n xs ys) : Edits n ys xs := by
  induction h with
  | none xs => exact .none xs
  | more first _ ih => exact ih.trans (.more first.symm (.none _))

theorem Edits.cons (h : Edits n xs ys) : Edits n (item :: xs) (item :: ys) := by
  induction h with
  | none xs => exact .none (item :: xs)
  | more first _ ih => exact .more (first.cons item) ih

theorem Edits.reverse (h : Edits n xs ys) : Edits n xs.reverse ys.reverse := by
  induction h with
  | none xs => exact .none xs.reverse
  | more first _ ih => exact .more first.reverse ih

theorem Edits.min (h : Edits m xs ys) (h' : Edits n xs ys) : Edits (min m n) xs ys := by
  rcases Nat.le_total m n with hle | hle
  · rwa [Nat.min_eq_left hle]
  · rwa [Nat.min_eq_right hle]

theorem edits_insertAll (ys : List α) : Edits ys.length [] ys := by
  induction ys with
  | nil => exact .none []
  | cons y ys ih => exact ih.trans (.more (.insert [] y ys) (.none _))

variable [DecidableEq α]

theorem backDistance_cons_cons (xs ys : List α) :
    backDistance (x :: xs) (y :: ys) =
      min (min (backDistance xs (y :: ys) + 1) (backDistance (x :: xs) ys + 1))
        (backDistance xs ys + if x = y then 0 else 1) := by
  rw [backDistance]

theorem backDistance_nil_left (ys : List α) : backDistance [] ys = ys.length := by
  rw [backDistance]

/-- The recursion is attained: each of its three ways begins with the edit it stands for. -/
theorem edits_backDistance (xs ys : List α) : Edits (backDistance xs ys) xs ys := by
  fun_induction backDistance xs ys with
  | case1 ys => exact edits_insertAll ys
  | case2 xs hne => exact (edits_insertAll xs).symm
  | case3 x xs y ys ihDelete ihInsert ihKeep =>
    have hdelete : Edits (backDistance xs (y :: ys) + 1) (x :: xs) (y :: ys) :=
      .more (.delete [] x xs) ihDelete
    have hinsert : Edits (backDistance (x :: xs) ys + 1) (x :: xs) (y :: ys) :=
      ihInsert.trans (.more (.insert [] y ys) (.none _))
    have hkeep : Edits (backDistance xs ys + if x = y then 0 else 1) (x :: xs) (y :: ys) := by
      split
      · next heq => exact heq ▸ ihKeep.cons x
      · exact (ihKeep.cons x).trans (.more (.substitute [] x y ys) (.none _))
    exact (hdelete.min hinsert).min hkeep

theorem backDistance_cons_left_le (xs zs : List α) :
    backDistance (x :: xs) zs ≤ backDistance xs zs + 1 := by
  cases zs with
  | nil => simp [backDistance_nil_right]
  | cons z zs => rw [backDistance_cons_cons]; omega

theorem backDistance_cons_right_le (xs zs : List α) :
    backDistance xs (z :: zs) ≤ backDistance xs zs + 1 := by
  cases xs with
  | nil => simp [backDistance_nil_left]
  | cons x xs => rw [backDistance_cons_cons]; omega

theorem backDistance_cons_cons_le (xs zs : List α) :
    backDistance (x :: xs) (z :: zs) ≤ backDistance xs zs + 1 := by
  rw [backDistance_cons_cons]
  split <;> omega

theorem backDistance_le_cons_left (xs zs : List α) :
    backDistance xs zs ≤ backDistance (x :: xs) zs + 1 := by
  induction zs with
  | nil => simp only [backDistance_nil_right, List.length_cons]; omega
  | cons z zs ih =>
    have hright := backDistance_cons_right_le z xs zs
    rw [backDistance_cons_cons]
    omega

theorem backDistance_substitute_le (xs zs : List α) :
    backDistance (x :: xs) zs ≤ backDistance (y :: xs) zs + 1 := by
  induction zs with
  | nil => simp [backDistance_nil_right]
  | cons z zs ih =>
    have hleft := backDistance_cons_left_le x xs (z :: zs)
    have hright := backDistance_cons_right_le z (x :: xs) zs
    have hboth := backDistance_cons_cons_le x z xs zs
    rw [backDistance_cons_cons y]
    omega

/-- What comes before the place of an edit leaves its effect on the distance as it is. -/
theorem backDistance_cons_le_cons (h : ∀ zs, backDistance xs zs ≤ backDistance ys zs + 1)
    (zs : List α) : backDistance (item :: xs) zs ≤ backDistance (item :: ys) zs + 1 := by
  induction zs with
  | nil => simpa [backDistance_nil_right] using h []
  | cons z zs ih =>
    have hdelete := h (z :: zs)
    have hkeep := h zs
    rw [backDistance_cons_cons, backDistance_cons_cons]
    omega

theorem backDistance_append_le (before : List α)
    (h : ∀ zs, backDistance xs zs ≤ backDistance ys zs + 1) (zs : List α) :
    backDistance (before ++ xs) zs ≤ backDistance (before ++ ys) zs + 1 := by
  induction before generalizing zs with
  | nil => exact h zs
  | cons item before ih => exact backDistance_cons_le_cons item ih zs

/-- One edit brings a list nearer to any other by at most one. -/
theorem Edit.backDistance_le (h : Edit xs ys) (zs : List α) :
    backDistance xs zs ≤ backDistance ys zs + 1 := by
  cases h with
  | insert before item after =>
    exact backDistance_append_le before (backDistance_le_cons_left item after) zs
  | delete before item after =>
    exact backDistance_append_le before (backDistance_cons_left_le item after) zs
  | substitute before old new after =>
    exact backDistance_append_le before (backDistance_substitute_le old new after) zs

/-- No script is shorter than the recursion says. -/
theorem Edits.backDistance_le (h : Edits n xs ys) : backDistance xs ys ≤ n := by
  induction h with
  | none xs => exact Nat.le_of_eq ((backDistance_eq_zero_iff xs xs).mpr rfl)
  | more first _ ih => exact Nat.le_trans (first.backDistance_le _) (Nat.succ_le_succ ih)

theorem edits_editDistance : Edits (editDistance source target) source target := by
  have h := (edits_backDistance source.reverse target.reverse).reverse
  rwa [List.reverse_reverse, List.reverse_reverse, ← editDistance_eq] at h

theorem Edits.editDistance_le {source target : List α} (h : Edits n source target) :
    editDistance source target ≤ n :=
  editDistance_eq source target ▸ h.reverse.backDistance_le

theorem editDistance_comm_le : editDistance source target ≤ editDistance target source :=
  (edits_editDistance target source).symm.editDistance_le

/-- The rows compute the least number of edits, which is a metric on lists. -/
theorem editDistance_isLevenshtein (source target : List α) :
    IsLeast {n | Edits n source target} (editDistance source target) ∧
      (editDistance source target = 0 ↔ source = target) ∧
      editDistance source target = editDistance target source ∧
      ∀ middle, editDistance source target ≤
        editDistance source middle + editDistance middle target := by
  refine ⟨⟨edits_editDistance source target, fun n hn => Edits.editDistance_le hn⟩,
    editDistance_eq_zero_iff source target,
    Nat.le_antisymm (editDistance_comm_le source target) (editDistance_comm_le target source), ?_⟩
  intro middle
  exact ((edits_editDistance source middle).trans
    (edits_editDistance middle target)).editDistance_le

end CodeEvolution.Text
