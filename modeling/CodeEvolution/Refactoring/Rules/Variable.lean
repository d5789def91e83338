import CodeEvolution.Refactoring.Proposal
/-!
# Local variables

Local variables that became attributes, were extracted or inlined, and variables that were
renamed, in every pair of operations.
-/
namespace CodeEvolution.Inference

variable (inference : Inference) (pair : OperationPair) (v : Variable)

def memberReplacing? : Option String :=
  (pair.alignment.replacements.find? fun r =>
    r.kind == .variableToField && r.before == v.name).map Replacement.after

def accessedAttribute? (operation : Operation) (access : String) : Option Attribute :=
  match Text.splitFirstPoint? access with
  | none => none
  | some (receiver, name) =>
    if (Language.receiversOfPath operation.sourceFile).contains receiver then
      (inference.delta.after.class? operation.className).bind fun c => c.attribute? name
    else none

def replacedByAttribute? : Option Proposal :=
  if v.isLocal then
    ((memberReplacing? pair v).bind (inference.accessedAttribute? pair.after)).map fun a =>
      { required := pair.variableKeys [v] []
        refactoring := .replaceVariableWithAttribute (.of pair.before v) (.of a) }
  else none

def replaceVariableProposals : List Proposal :=
  inference.operationPairs.flatMap fun pair =>
    pair.removedVariables.filterMap (inference.replacedByAttribute? pair)

def extractedVariable? : Option Proposal :=
  if v.isLocal && pair.alignment.replacements.any fun r =>
      r.kind == .extractVariable && r.after == v.name then
    v.initializer.map fun expression =>
      { required := pair.variableKeys [] [v]
        refactoring := .extractVariable (.of pair.after v) expression }
  else none

def inlinedVariable? : Option Proposal :=
  if v.isLocal && pair.alignment.replacements.any fun r =>
      r.kind == .inlineVariable && r.before == v.name then
    v.initializer.map fun expression =>
      { required := pair.variableKeys [v] []
        refactoring := .inlineVariable (.of pair.before v) expression }
  else none

def extractInlineVariableProposals : List Proposal :=
  inference.operationPairs.flatMap fun pair =>
    pair.addedVariables.filterMap (extractedVariable? pair) ++
      pair.removedVariables.filterMap (inlinedVariable? pair)

def variableSort? : Option VariableSort :=
  match v.role with
  | .parameter => some .parameter
  | .localVariable => some .localVariable
  | _ => none

def renamedVariable? (w : Variable) : Option Proposal :=
  (variableSort? v).map fun sort =>
    { required := pair.variableKeys [v] [w]
      refactoring := .renameVariable sort (.of pair.before v) (.of pair.after w) }

def renameVariableProposals : List Proposal :=
  inference.operationPairs.flatMap fun pair =>
    pair.renamedVariables.filterMap fun p => renamedVariable? pair p.1 p.2

end CodeEvolution.Inference
