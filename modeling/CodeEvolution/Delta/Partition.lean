/-!
# Pairing of two lists

Members of two lists are paired first come, first served: each member of the first list takes
the first free member of the second that matches it.
-/
namespace CodeEvolution

structure Partition (α : Type) where
  removed : List α
  added : List α
  common : List (α × α)
deriving Repr

namespace Partition

def takeFirst (p : α → Bool) : List α → Option (α × List α)
  | [] => none
  | a :: rest =>
    if p a then some (a, rest)
    else (takeFirst p rest).map fun found => (found.1, a :: found.2)

def of (same : α → α → Bool) : List α → List α → Partition α
  | [], afters => ⟨[], afters, []⟩
  | b :: rest, afters =>
    match takeFirst (same b) afters with
    | some (a, others) =>
      let tail := of same rest others
      { tail with common := (b, a) :: tail.common }
    | none =>
      let tail := of same rest afters
      { tail with removed := b :: tail.removed }

end Partition

def lastPosition [BEq κ] (key : κ) (keys : List κ) : Nat :=
  ((keys.zipIdx.filter fun entry => entry.1 == key).getLast?.map Prod.snd).getD 0

/-- A list sorted by the last positions of its keys in a list of keys; members of one key stay
in their order. -/
def sortByPosition [BEq κ] (keys : List κ) (key : α → κ) (items : List α) : List α :=
  items.mergeSort fun x y => decide (lastPosition (key x) keys ≤ lastPosition (key y) keys)

end CodeEvolution
