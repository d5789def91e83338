import CodeEvolution.Refactoring.Proposal
/-!
# Extracted and inlined operations

An operation was extracted from another when the other calls it only afterwards, and statements
that the other lost are found in its body. Inlining is the reverse.
-/
namespace CodeEvolution.Inference

variable (inference : Inference) (pair : OperationPair)

def coversEnough (target : Operation) (linked : Nat) : Bool :=
  let total := target.body.statementCount
  total != 0 && !(Binary64.quotient linked total).lt inference.config.extractOperationThreshold

def countStatements (body : Body) (ids : List Nat) : Nat :=
  (ids.filter fun id =>
    match body.get? id with
    | some f => f.isStatement
    | none => false).length

def extraction? (added : Operation) : Option Proposal :=
  if inference.isClaimed (.ofAddedOperation added) ||
      (pair.before.callArguments? added).isSome then none
  else
    match pair.after.callArguments? added with
    | none => none
    | some arguments =>
      let alignment := Comparison.align
        { before := pair.before.body
          after := added.body
          beforeScope := some
            (pair.alignment.unmappedBeforeLeaves ++ pair.alignment.unmappedBeforeComposites)
          binding := .extracted added.parameterNames arguments
          receivers := Language.receiversOfPath pair.before.sourceFile
          maxReplacements := inference.config.maxReplacements }
      if inference.coversEnough added
          (countStatements added.body (alignment.links.map Link.after)) then
        some
          { required := [.extraction pair.before.key added.key]
            alsoClaimed := [.ofAddedOperation added]
            refactoring := .extractOperation (.of added) (.of pair.before) (.of pair.after) }
      else none

def inlining? (removed : Operation) : Option Proposal :=
  if inference.isClaimed (.ofRemovedOperation removed) ||
      (pair.after.callArguments? removed).isSome then none
  else
    match pair.before.callArguments? removed with
    | none => none
    | some arguments =>
      let alignment := Comparison.align
        { before := removed.body
          after := pair.after.body
          afterScope := some
            (pair.alignment.unmappedAfterLeaves ++ pair.alignment.unmappedAfterComposites)
          binding := .inlined removed.parameterNames arguments
          receivers := Language.receiversOfPath removed.sourceFile
          maxReplacements := inference.config.maxReplacements }
      if inference.coversEnough removed
          (countStatements removed.body (alignment.links.map Link.before)) then
        some
          { required := [.inlining removed.key pair.before.key]
            alsoClaimed := [.ofRemovedOperation removed]
            refactoring := .inlineOperation (.of removed) (.of pair.before) (.of pair.after) }
      else none

def addedBeside : List Operation :=
  match inference.delta.pairOfAfter? pair.after.className with
  | some d => d.addedOperations
  | none => []

def removedBeside : List Operation :=
  match inference.delta.pairOfBefore? pair.before.className with
  | some d => d.removedOperations
  | none => []

def extractInlineOperationProposals : List Proposal :=
  inference.operationPairs.flatMap fun pair =>
    (inference.addedBeside pair).filterMap (inference.extraction? pair) ++
      (inference.removedBeside pair).filterMap (inference.inlining? pair)

end CodeEvolution.Inference
