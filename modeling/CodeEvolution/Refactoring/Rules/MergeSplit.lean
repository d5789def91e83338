import CodeEvolution.Refactoring.Proposal
/-!
# Merged and split attributes and variables

Several removed members merge into an added one if each is related to it; a removed member is
split if it is related to several added ones. Two are related when a linked statement names the
one in the place of the other, or when the value of an attribute goes into that of the other.
-/
namespace CodeEvolution.Inference

variable (pairs : List OperationPair) (inference : Inference) (pair : OperationPair)
  (sort : VariableSort) (before after : Attribute)

/-- Whether the identifiers in the value of one attribute are some, but not all, of those in the
value of another. -/
def valueWithin (part whole : Attribute) : Bool :=
  match part.initializer?, whole.initializer? with
  | some p, some w =>
    let parts := Text.identifiers p
    let wholes := Text.identifiers w
    !parts.isEmpty && decide (parts.length < wholes.length) && parts.all wholes.contains
  | _, _ => false

def accessReplaced : Bool :=
  pairs.any fun pair => pair.replaces before.name after.name

def mergedAttribute? (removed : List Attribute) (after : Attribute) : Option Proposal :=
  let sources := removed.filter fun b => valueWithin b after || accessReplaced pairs b after
  if 2 ≤ sources.length then
    some
      { required := sources.map .ofRemovedAttribute ++ [.ofAddedAttribute after]
        refactoring := .mergeAttribute (sources.map .of) (.of after) }
  else none

def splitAttribute? (added : List Attribute) (before : Attribute) : Option Proposal :=
  let targets := added.filter fun a => valueWithin a before || accessReplaced pairs before a
  if 2 ≤ targets.length then
    some
      { required := .ofRemovedAttribute before :: targets.map .ofAddedAttribute
        refactoring := .splitAttribute (.of before) (targets.map .of) }
  else none

def ofClassAttributes (d : ClassDelta) : List Proposal :=
  let pairs := inference.pairsOfClass d.before.qualifiedName
  d.addedAttributes.filterMap (mergedAttribute? pairs d.removedAttributes) ++
    d.removedAttributes.filterMap (splitAttribute? pairs d.addedAttributes)

def mergedVariable? (removed : List Variable) (w : Variable) : Option Proposal :=
  let sources := removed.filter fun v => pair.replaces v.name w.name
  if 2 ≤ sources.length then
    some
      { required := pair.variableKeys sources [w]
        refactoring :=
          .mergeVariable sort (sources.map (VariableRef.of pair.before)) (.of pair.after w) }
  else none

def splitVariable? (added : List Variable) (v : Variable) : Option Proposal :=
  let targets := added.filter fun w => pair.replaces v.name w.name
  if 2 ≤ targets.length then
    some
      { required := pair.variableKeys [v] targets
        refactoring :=
          .splitVariable sort (.of pair.before v) (targets.map (VariableRef.of pair.after)) }
  else none

def isOfSort (v : Variable) : Bool :=
  match sort with
  | .parameter => v.isParameter
  | .localVariable => v.isLocal

def ofPairVariables : List Proposal :=
  let removed := pair.removedVariables.filter (isOfSort sort)
  let added := pair.addedVariables.filter (isOfSort sort)
  added.filterMap (mergedVariable? pair sort removed) ++
    removed.filterMap (splitVariable? pair sort added)

def mergeSplitProposals : List Proposal :=
  inference.delta.commonClasses.flatMap inference.ofClassAttributes ++
    inference.operationPairs.flatMap fun pair =>
      ofPairVariables pair .parameter ++ ofPairVariables pair .localVariable

end CodeEvolution.Inference
