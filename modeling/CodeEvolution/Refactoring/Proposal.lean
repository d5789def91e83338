import CodeEvolution.Delta.Basic
import CodeEvolution.Refactoring.Basic
import CodeEvolution.Refactoring.DeltaKey
/-!
# Proposals

A rule proposes refactorings, each with the deltas that it explains. A proposal is taken only if
none of the deltas it requires has been explained before; the deltas it merely claims are then
explained as well.
-/
namespace CodeEvolution

structure Proposal where
  required : List DeltaKey
  alsoClaimed : List DeltaKey := []
  refactoring : Refactoring
  matched : Option OperationPair := none
deriving Repr

structure Emission where
  rule : Rule
  proposal : Proposal
deriving Repr

structure Inference where
  delta : ModelDelta
  config : Config
  emitted : List Emission := []
deriving Repr

variable (inference : Inference) (pair : OperationPair)

namespace Inference

def claimed : List DeltaKey :=
  inference.emitted.flatMap fun e => e.proposal.required ++ e.proposal.alsoClaimed

def isClaimed (key : DeltaKey) : Bool :=
  inference.claimed.contains key

def operationPairs (inference : Inference) : List OperationPair :=
  inference.delta.operationPairs ++ inference.emitted.filterMap fun e => e.proposal.matched

def pairsOfClass (className : String) : List OperationPair :=
  inference.operationPairs.filter fun p => p.before.className == className

def pairUp (before after : Operation) : OperationPair :=
  .ofOperations inference.config (Language.receiversOfPath before.sourceFile) before after

end Inference

def Body.variablesAt (body : Body) (ids : List Nat) : List Variable :=
  ids.filterMap fun id => body.declarations[id]?

namespace OperationPair

def removedVariables : List Variable :=
  pair.before.body.variablesAt pair.alignment.variableDelta.removed

def addedVariables : List Variable :=
  pair.after.body.variablesAt pair.alignment.variableDelta.added

def renamedVariables : List (Variable × Variable) :=
  pair.alignment.variableDelta.renamed.filterMap fun ids =>
    match pair.before.body.declarations[ids.1]?, pair.after.body.declarations[ids.2]? with
    | some v, some w => some (v, w)
    | _, _ => none

def variableKeys (before after : List Variable) : List DeltaKey :=
  before.map (DeltaKey.ofBeforeVariable pair.before) ++
    after.map (DeltaKey.ofAfterVariable pair.after)

def replaces (before after : String) : Bool :=
  pair.alignment.replacements.any fun r =>
    (Text.identifiers r.before).contains before && (Text.identifiers r.after).contains after

end OperationPair

namespace Variable

def isLocal (v : Variable) : Bool :=
  v.role == .localVariable

end Variable

/-- The arguments of the first call of an operation in another, made through no receiver, the
implicit one or the name of the class. -/
def Operation.callArguments? (caller callee : Operation) : Option (List String) :=
  let receivers := Language.receiversOfPath caller.sourceFile
  let className := Text.simpleName callee.className
  let isCall (i : Invocation) : Bool :=
    i.name == callee.name &&
      match i.receiver? with
      | none => true
      | some receiver => receivers.contains receiver || receiver == className
  ((caller.body.fragments.flatMap fun f => f.facts.invocations).find? isCall).map
    Invocation.arguments

end CodeEvolution
