import CodeEvolution.Refactoring.Proposal
/-!
# Renamed and moved classes

Every pair of classes found by similarity is a renamed class, a moved class, or both.
-/
namespace CodeEvolution

def ClassChange.between? (before after : ModelClass) : Option ClassChange :=
  match before.name != after.name, before.package != after.package with
  | true, false => some .rename
  | false, true => some .move
  | true, true => some .moveAndRename
  | false, false => none

namespace Inference

def ofClassPair? (d : ClassDelta) : Option Proposal :=
  (ClassChange.between? d.before d.after).map fun change =>
    { required := [.classPair d.before.qualifiedName d.after.qualifiedName]
      refactoring := .ofClass change (.of d.before) (.of d.after) }

def classProposals (inference : Inference) : List Proposal :=
  (inference.delta.commonClasses.filter ClassDelta.isRenamedOrMoved).filterMap ofClassPair?

end Inference

end CodeEvolution
