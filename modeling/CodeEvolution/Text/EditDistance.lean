/-!
# Edit distance

The least number of insertions, deletions and substitutions of single items that turn one list
into another, computed row by row: row `i` holds the distances from the first `i` items of the
source to every initial segment of the target.
-/
namespace CodeEvolution.Text

variable {α : Type} [DecidableEq α]

/-- The entries of the next row after its first. `left` is the entry just written, `diagonal`
the entry above it. -/
def rowTail (item : α) (left diagonal : Nat) : List α → List Nat → List Nat
  | y :: target, up :: above =>
    let cost := if item = y then 0 else 1
    let entry := min (min (up + 1) (left + 1)) (diagonal + cost)
    entry :: rowTail item entry up target above
  | _, _ => []

def nextRow (target : List α) (row : List Nat) (item : α) : List Nat :=
  match row with
  | [] => []
  | first :: above => (first + 1) :: rowTail item (first + 1) first target above

def distanceRow (source target : List α) : List Nat :=
  source.foldl (nextRow target) (List.range (target.length + 1))

def editDistance (source target : List α) : Nat :=
  (distanceRow source target).getLastD 0

end CodeEvolution.Text
