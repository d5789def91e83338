import CodeEvolution.Refactoring.Proposal
/-!
# Parameters

Local variables that became parameters, and parameters that were added or removed.
-/
namespace CodeEvolution.Inference

/-- Whether a parameter takes the place of a local variable: it has its name, and its value or,
where one of them has none, its type. -/
def takesOver (v parameter : Variable) : Bool :=
  v.name == parameter.name &&
    match v.initializer, parameter.initializer with
    | some value, some default => value == default
    | _, _ => !parameter.type.isUntyped && v.type == parameter.type

def parameterized? (pair : OperationPair) (v : Variable) : Option Proposal :=
  if v.isLocal then
    (pair.addedVariables.find? fun w => w.isParameter && takesOver v w).map fun w =>
      { required := pair.variableKeys [v] [w]
        refactoring := .parameterizeVariable (.of pair.before v) (.of pair.after w) }
  else none

def parameterizeProposals (inference : Inference) : List Proposal :=
  inference.operationPairs.flatMap fun pair =>
    pair.removedVariables.filterMap (parameterized? pair)

def ofPairParameters (pair : OperationPair) : List Proposal :=
  ((pair.removedVariables.filter Variable.isParameter).map fun v =>
    { required := pair.variableKeys [v] []
      refactoring :=
        .removeParameter (.of pair.before v) (.of pair.before) (.of pair.after) }) ++
  (pair.addedVariables.filter Variable.isParameter).map fun w =>
    { required := pair.variableKeys [] [w]
      refactoring := .addParameter (.of pair.after w) (.of pair.before) (.of pair.after) }

def addRemoveParameterProposals (inference : Inference) : List Proposal :=
  inference.operationPairs.flatMap ofPairParameters

end CodeEvolution.Inference
