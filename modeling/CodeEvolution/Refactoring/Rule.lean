/-!
# Rules

The families of refactorings that are looked for, in the order in which they are tried unless
another order is configured.
-/
namespace CodeEvolution

inductive Rule where
  | classRenameMove
  | renameOperation
  | extractInlineOperation
  | moveRenameAttribute
  | extractAttribute
  | replaceVariableWithAttribute
  | extractInlineVariable
  | renameVariable
  | mergeSplit
  | pullUpPushDown
  | moveOperation
  | decorators
  | parameterizeVariable
  | addRemoveParameter
deriving DecidableEq, Repr, Inhabited

namespace Rule

def defaultOrder : List Rule :=
  [.classRenameMove, .renameOperation, .extractInlineOperation, .moveRenameAttribute,
    .extractAttribute, .replaceVariableWithAttribute, .extractInlineVariable, .renameVariable,
    .mergeSplit, .pullUpPushDown, .moveOperation, .decorators, .parameterizeVariable,
    .addRemoveParameter]

def name : Rule → String
  | .classRenameMove => "class-rename-move"
  | .renameOperation => "rename-operation"
  | .extractInlineOperation => "extract-inline-operation"
  | .moveRenameAttribute => "move-rename-attribute"
  | .extractAttribute => "extract-attribute"
  | .replaceVariableWithAttribute => "replace-variable-with-attribute"
  | .extractInlineVariable => "extract-inline-variable"
  | .renameVariable => "rename-variable"
  | .mergeSplit => "merge-split"
  | .pullUpPushDown => "pull-up-push-down"
  | .moveOperation => "move-operation"
  | .decorators => "annotations"
  | .parameterizeVariable => "parameterize-variable"
  | .addRemoveParameter => "add-remove-parameter"

def ofName? (text : String) : Option Rule :=
  defaultOrder.find? fun rule => rule.name == text

end Rule

end CodeEvolution
