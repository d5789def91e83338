import CodeEvolution.Refactoring.Proposal
/-!
# Moved, renamed and extracted attributes

A removed and an added attribute of one type are paired if statements that access one access the
other afterwards, or if they start with the same value and no other attribute competes. Classes
of one hierarchy are left to another rule. An attribute is extracted when it takes the place of
local variables that start with its value.
-/
namespace CodeEvolution.Inference

variable (inference : Inference) (before after : Attribute)

def accessMoved : Bool :=
  (inference.operationPairs.flatMap fun p => p.alignment.replacements).any fun r =>
    r.before != r.after && Text.lastIdentifier? r.before == some before.name &&
      Text.lastIdentifier? r.after == some after.name

def related (first second : String) : Bool :=
  inference.delta.after.isSubtype first second || inference.delta.after.isSubtype second first

def sameInitializer : Bool :=
  before.initializer?.isSome && before.initializer? == after.initializer?

def onlyOne (attributes : List Attribute) (p : Attribute → Bool) : Bool :=
  (attributes.filter p).length == 1

def attributeChange? : Option AttributeChange :=
  let evident := inference.accessMoved before after
  let removed := inference.delta.removedAttributes
  let added := inference.delta.addedAttributes
  if before.name = after.name then
    let unique := onlyOne removed (fun a => a.name == before.name) &&
      onlyOne added (fun a => a.name == after.name)
    if evident || (sameInitializer before after && unique) then some .move else none
  else if inference.delta.afterName before.className = after.className then
    let onlyChange := onlyOne removed (fun a => a.className == before.className) &&
      onlyOne added (fun a => a.className == after.className)
    if evident || (sameInitializer before after && onlyChange) then some .rename else none
  else if evident then some .moveAndRename
  else none

/-- Whether a removed and an added attribute may be one: of the same type and role, not of the
same name and class, and not of two classes of one hierarchy. -/
def mayBeOne : Bool :=
  let target := inference.delta.afterName before.className
  let sameClass := after.className == target
  before.type == after.type && before.role == after.role &&
    !(before.name == after.name && sameClass) &&
    (sameClass || !inference.related target after.className)

def ofAttributePair? : Option Proposal :=
  (inference.attributeChange? before after).map fun change =>
    { required := [.ofRemovedAttribute before, .ofAddedAttribute after]
      refactoring := .ofAttribute change (.of before) (.of after) }

def moveAttributeProposals : List Proposal :=
  let pairs := inference.delta.removedAttributes.flatMap fun b =>
    (inference.delta.addedAttributes.filter (inference.mayBeOne b)).map fun a => (b, a)
  (pairs.filter fun p => p.1.name == p.2.name).filterMap
      (fun p => inference.ofAttributePair? p.1 p.2) ++
    (pairs.filter fun p => p.1.name != p.2.name).filterMap
      fun p => inference.ofAttributePair? p.1 p.2

def replacedLocals (pair : OperationPair) (a : Attribute) (value : String) : List Variable :=
  let members := (Language.receiversOfPath pair.before.sourceFile).map fun receiver =>
    receiver ++ "." ++ a.name
  pair.removedVariables.filter fun v =>
    v.isLocal && v.initializer == some value &&
      pair.alignment.replacements.any fun r =>
        r.kind == .variableToField && r.before == v.name && members.contains r.after

def extractedAttribute? (pairs : List OperationPair) (a : Attribute) : Option Proposal :=
  match a.initializer? with
  | none => none
  | some value =>
    let introduced := pairs.flatMap fun pair =>
      (replacedLocals pair a value).map fun v => (pair.before, v)
    if introduced.isEmpty then none
    else
      some
        { required := .ofAddedAttribute a ::
            introduced.map fun p => .ofBeforeVariable p.1 p.2
          refactoring := .extractAttribute (.of a) (introduced.map fun p => .of p.1 p.2) }

def extractAttributeProposals : List Proposal :=
  inference.delta.commonClasses.flatMap fun d =>
    d.addedAttributes.filterMap
      (extractedAttribute? (inference.pairsOfClass d.before.qualifiedName))

end CodeEvolution.Inference
