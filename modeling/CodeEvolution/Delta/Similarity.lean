import CodeEvolution.Model.Basic
import CodeEvolution.Number.Binary64
/-!
# Similarity of classes

Classes of different names are paired by the members they have in common, the most similar
first. A class that stands for a file is paired only with one that does, too.
-/
namespace CodeEvolution

/-- The share of common members in all members of two sets, given as lists without repetition;
zero for two empty sets. -/
def jaccard (a b : List String) : Binary64 :=
  let shared := (a.filter b.contains).length
  let all := a.length + (b.filter fun key => !a.contains key).length
  if all = 0 then .zero else .quotient shared all

structure SimilarPair where
  before : Nat
  after : Nat
  score : Binary64
deriving DecidableEq, Repr

namespace SimilarPair

def candidates (threshold : Binary64) (befores afters : List ModelClass) : List SimilarPair :=
  befores.zipIdx.flatMap fun b =>
    afters.zipIdx.filterMap fun a =>
      let score := jaccard b.1.memberKeys a.1.memberKeys
      if b.1.traits.isModule = a.1.traits.isModule ∧
          Binary64.zero.lt score = true ∧ threshold.le score = true then
        some ⟨b.2, a.2, score⟩
      else none

def take (taken : List SimilarPair) (pair : SimilarPair) : List SimilarPair :=
  if taken.any fun other => other.before == pair.before || other.after == pair.after then taken
  else taken ++ [pair]

def choose (threshold : Binary64) (befores afters : List ModelClass) : List SimilarPair :=
  let sorted := (candidates threshold befores afters).mergeSort fun x y => y.score.le x.score
  sorted.foldl take []

end SimilarPair

end CodeEvolution
