import CodeEvolution.Refactoring.Rules.Attribute
import CodeEvolution.Refactoring.Rules.Class
import CodeEvolution.Refactoring.Rules.Decorators
import CodeEvolution.Refactoring.Rules.Extraction
import CodeEvolution.Refactoring.Rules.Hierarchy
import CodeEvolution.Refactoring.Rules.MergeSplit
import CodeEvolution.Refactoring.Rules.Operation
import CodeEvolution.Refactoring.Rules.Parameter
import CodeEvolution.Refactoring.Rules.Variable
/-!
# Inference of refactorings

The rules are tried in order, and each sees what the rules before it have taken. Of the
proposals of a rule, one is taken if none of the deltas it requires is explained yet. Removed and
added classes, operations and attributes that no refactoring explains are reported as such.
-/
namespace CodeEvolution

variable (rule : Rule) (inference : Inference)

def Rule.proposals : List Proposal :=
  match rule with
  | .classRenameMove => inference.classProposals
  | .renameOperation => inference.renameOperationProposals
  | .extractInlineOperation => inference.extractInlineOperationProposals
  | .moveRenameAttribute => inference.moveAttributeProposals
  | .extractAttribute => inference.extractAttributeProposals
  | .replaceVariableWithAttribute => inference.replaceVariableProposals
  | .extractInlineVariable => inference.extractInlineVariableProposals
  | .renameVariable => inference.renameVariableProposals
  | .mergeSplit => inference.mergeSplitProposals
  | .pullUpPushDown => inference.hierarchyProposals
  | .moveOperation => inference.moveOperationProposals
  | .decorators => inference.decoratorProposals
  | .parameterizeVariable => inference.parameterizeProposals
  | .addRemoveParameter => inference.addRemoveParameterProposals

namespace Inference

def offer (proposal : Proposal) : Inference :=
  if proposal.required.any inference.isClaimed then inference
  else { inference with emitted := inference.emitted ++ [⟨rule, proposal⟩] }

def apply (rule : Rule) : Inference :=
  (rule.proposals inference).foldl (offer rule) inference

def run (config : Config) (delta : ModelDelta) : Inference :=
  config.ruleOrder.foldl apply { delta, config }

def refactorings : List Refactoring :=
  inference.emitted.map fun e => e.proposal.refactoring

def events : List Event :=
  inference.emitted.map fun e =>
    .refactoringDetected e.rule.name e.proposal.refactoring.description

def openKeys (delta : ModelDelta) : List DeltaKey :=
  delta.removedClasses.map (fun c => .removedClass c.qualifiedName) ++
    delta.addedClasses.map (fun c => .addedClass c.qualifiedName) ++
    delta.removedOperations.map .ofRemovedOperation ++
    delta.addedOperations.map .ofAddedOperation ++
    delta.removedAttributes.map .ofRemovedAttribute ++
    delta.addedAttributes.map .ofAddedAttribute

def unexplained : List DeltaKey :=
  (openKeys inference.delta).filter fun key => !inference.isClaimed key

end Inference

end CodeEvolution
