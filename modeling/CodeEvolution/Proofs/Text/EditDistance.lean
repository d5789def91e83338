import CodeEvolution.Text.EditDistance
/-!
# What the rows of the edit distance hold

The distance is given once more by recursion on the last items of the two lists, and the rows
are shown to hold it for all initial segments of the target. Lists are kept from the back, so
that the last item is at hand.
-/
namespace CodeEvolution.Text

variable {α : Type} [DecidableEq α] (item : α) (source xs seen target : List α)

/-- The edit distance of two lists given from the back. -/
def backDistance : List α → List α → Nat
  | [], ys => ys.length
  | xs, [] => xs.length
  | x :: xs, y :: ys =>
    min (min (backDistance xs (y :: ys) + 1) (backDistance (x :: xs) ys + 1))
      (backDistance xs ys + if x = y then 0 else 1)
termination_by xs ys => xs.length + ys.length

theorem backDistance_nil_right : backDistance xs [] = xs.length := by
  cases xs <;> simp [backDistance]

theorem backDistance_eq_zero_iff (ys : List α) : backDistance xs ys = 0 ↔ xs = ys := by
  fun_induction backDistance xs ys with
  | case1 ys => simp [eq_comm]
  | case2 xs hne => simp
  | case3 x xs y ys _ _ ih =>
    by_cases hxy : x = y
    · simp [hxy, ih]
    · simp [hxy]

/-- The distances from a list to the segments of the target that end behind each of its last
items; both lists are given from the back, and `seen` comes before the items. -/
def backRow (xs seen : List α) : List α → List Nat
  | [] => []
  | y :: rest => backDistance xs (y :: seen) :: backRow xs (y :: seen) rest

theorem rowTail_backRow :
    rowTail item (backDistance (item :: xs) seen) (backDistance xs seen) target
      (backRow xs seen target) = backRow (item :: xs) seen target := by
  induction target generalizing seen with
  | nil => rfl
  | cons y rest ih =>
    have hentry : min (min (backDistance xs (y :: seen) + 1) (backDistance (item :: xs) seen + 1))
        (backDistance xs seen + if item = y then 0 else 1) =
        backDistance (item :: xs) (y :: seen) := by rw [backDistance]
    simp only [backRow, rowTail]
    rw [hentry, ih (y :: seen)]

theorem nextRow_backRow :
    nextRow target (backDistance xs [] :: backRow xs [] target) item =
      backDistance (item :: xs) [] :: backRow (item :: xs) [] target := by
  have hfirst : backDistance xs [] + 1 = backDistance (item :: xs) [] := by
    simp [backDistance_nil_right]
  simp only [nextRow]
  rw [hfirst, rowTail_backRow]

theorem backRow_nil : backRow [] seen target = List.range' (seen.length + 1) target.length := by
  induction target generalizing seen with
  | nil => rfl
  | cons y rest ih => simp [backRow, backDistance, ih, List.range'_succ]

theorem foldl_nextRow :
    source.foldl (nextRow target) (backDistance xs [] :: backRow xs [] target) =
      backDistance (source.reverse ++ xs) [] :: backRow (source.reverse ++ xs) [] target := by
  induction source generalizing xs with
  | nil => rfl
  | cons item rest ih =>
    rw [List.foldl_cons, nextRow_backRow, ih]
    simp

theorem getLastD_backRow :
    (backDistance xs seen :: backRow xs seen target).getLastD 0 =
      backDistance xs (target.reverse ++ seen) := by
  induction target generalizing seen with
  | nil => rfl
  | cons y rest ih =>
    have h := ih (y :: seen)
    simp only [backRow, List.getLastD_cons] at h ⊢
    rw [h]
    simp

theorem distanceRow_eq :
    distanceRow source target =
      backDistance source.reverse [] :: backRow source.reverse [] target := by
  have hstart : List.range (target.length + 1) =
      backDistance ([] : List α) [] :: backRow [] [] target := by
    rw [backRow_nil, List.range_eq_range']
    simp [backDistance, List.range'_succ]
  rw [distanceRow, hstart, foldl_nextRow, List.append_nil]

theorem editDistance_eq :
    editDistance source target = backDistance source.reverse target.reverse := by
  rw [editDistance, distanceRow_eq, getLastD_backRow, List.append_nil]

/-- Only equal lists have distance zero. -/
theorem editDistance_eq_zero_iff : editDistance source target = 0 ↔ source = target := by
  rw [editDistance_eq, backDistance_eq_zero_iff, List.reverse_inj]

end CodeEvolution.Text
