import CodeEvolution.Refactoring.Proposal
/-!
# Members pulled up and pushed down

A member removed from a class and added under its name to a supertype was pulled up, to a
subtype pushed down. Several classes may lose a member to one supertype, so pulling up requires
only the removal; pushing down requires only the addition.
-/
namespace CodeEvolution

inductive Direction where
  | up
  | down
deriving DecidableEq, Repr

variable (inference : Inference) (direction : Direction) (removed added : DeltaKey)

namespace Inference

def direction? (beforeClass afterClass : String) : Option Direction :=
  let source := inference.delta.afterName beforeClass
  if source = afterClass then none
  else if inference.delta.after.isSubtype source afterClass then some .up
  else if inference.delta.after.isSubtype afterClass source then some .down
  else none

def requiredKeys : List DeltaKey :=
  match direction with
  | .up => [removed]
  | .down => [added]

def claimedKeys : List DeltaKey :=
  match direction with
  | .up => [added]
  | .down => [removed]

def hierarchyAttribute? (before after : Attribute) : Option Proposal :=
  if before.name == after.name && before.type == after.type then
    (inference.direction? before.className after.className).map fun direction =>
      let removed := DeltaKey.ofRemovedAttribute before
      let added := DeltaKey.ofAddedAttribute after
      let change : AttributeChange := match direction with
        | .up => .pullUp
        | .down => .pushDown
      { required := requiredKeys direction removed added
        alsoClaimed := claimedKeys direction removed added
        refactoring := .ofAttribute change (.of before) (.of after) }
  else none

def bodiesAlike (pair : OperationPair) : Bool :=
  !(decide (0 < pair.before.body.statementCount) && decide (0 < pair.after.body.statementCount) &&
    pair.alignment.ratio.lt inference.config.operationMappingThreshold)

def hierarchyOperation? (before after : Operation) : Option Proposal :=
  if before.name == after.name && before.hasSameParameters after then
    match inference.direction? before.className after.className with
    | none => none
    | some direction =>
      let pair := inference.pairUp before after
      if inference.bodiesAlike pair then
        let removed := DeltaKey.ofRemovedOperation before
        let added := DeltaKey.ofAddedOperation after
        let change : OperationChange := match direction with
          | .up => .pullUp
          | .down => .pushDown
        some
          { required := requiredKeys direction removed added
            alsoClaimed := claimedKeys direction removed added
            refactoring := .ofOperation change (.of before) (.of after)
            matched := some pair }
      else none
  else none

def hierarchyProposals : List Proposal :=
  (inference.delta.removedAttributes.flatMap fun b =>
    inference.delta.addedAttributes.filterMap (inference.hierarchyAttribute? b)) ++
  (inference.delta.removedOperations.filter fun b =>
    !inference.isClaimed (.ofRemovedOperation b)).flatMap fun b =>
      inference.delta.addedOperations.filterMap (inference.hierarchyOperation? b)

end Inference

end CodeEvolution
