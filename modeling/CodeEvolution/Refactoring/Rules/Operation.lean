import CodeEvolution.Refactoring.Proposal
/-!
# Renamed and moved operations

A removed and an added operation with the same parameters are paired when enough of their
statements are linked; the pairs with the most links come first.
-/
namespace CodeEvolution.Inference

variable (inference : Inference)

/-- Pairs of operations with the same parameters that are not yet explained, aligned and sorted
by falling share of linked statements. -/
def alignedPairs (pairs : List (Operation × Operation)) : List OperationPair :=
  let free := pairs.filter fun p =>
    p.1.hasSameParameters p.2 && !inference.isClaimed (.ofRemovedOperation p.1) &&
      !inference.isClaimed (.ofAddedOperation p.2)
  (free.map fun p => inference.pairUp p.1 p.2).mergeSort fun x y =>
    y.alignment.ratio.le x.alignment.ratio

def ofOperationPair (change : OperationChange) (pair : OperationPair) : Proposal :=
  { required := [.ofRemovedOperation pair.before, .ofAddedOperation pair.after]
    refactoring := .ofOperation change (.of pair.before) (.of pair.after)
    matched := some pair }

def renamePairs (d : ClassDelta) : List (Operation × Operation) :=
  d.removedOperations.flatMap fun b =>
    (d.addedOperations.filter fun a => a.name != b.name).map fun a => (b, a)

def renameOperationProposals : List Proposal :=
  let pairs := inference.delta.commonClasses.flatMap fun d =>
    inference.alignedPairs (renamePairs d)
  (pairs.filter fun p => inference.config.operationMappingThreshold.le p.alignment.ratio).map
    (ofOperationPair .rename)

def movePairs : List (Operation × Operation) :=
  inference.delta.removedOperations.flatMap fun b =>
    let target := inference.delta.afterName b.className
    (inference.delta.addedOperations.filter fun a => a.className != target).map fun a => (b, a)

def moveOperationProposals : List Proposal :=
  let pairs := inference.alignedPairs inference.movePairs
  (pairs.filter fun p =>
    !p.alignment.ratio.lt inference.config.operationMappingThreshold).map fun p =>
      ofOperationPair (if p.before.name = p.after.name then .move else .moveAndRename) p

end CodeEvolution.Inference
