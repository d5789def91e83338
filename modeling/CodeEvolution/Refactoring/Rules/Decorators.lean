import CodeEvolution.Refactoring.Proposal
/-!
# Decorators of classes and operations

Decorators are compared by their full names; one whose arguments differ was modified.
-/
namespace CodeEvolution

namespace DecoratorChange

def ofBefore? (after : List Decorator) (d : Decorator) : Option (String × DecoratorChange) :=
  match after.find? fun e => e.name == d.name with
  | none => some (d.name, .removed (.of d))
  | some e =>
    if e.arguments = d.arguments then none else some (d.name, .modified (.of d) (.of e))

def ofAfter? (before : List Decorator) (e : Decorator) : Option (String × DecoratorChange) :=
  if before.any fun d => d.name == e.name then none else some (e.name, .added (.of e))

def between (before after : List Decorator) : List (String × DecoratorChange) :=
  before.filterMap (ofBefore? after) ++ after.filterMap (ofAfter? before)

def side (change : DecoratorChange) (before after : α) : α :=
  match change with
  | .removed _ => before
  | _ => after

end DecoratorChange

namespace Inference

def ofClassDecorators (d : ClassDelta) : List Proposal :=
  (DecoratorChange.between d.before.decorators d.after.decorators).map fun change =>
    { required := [.classDecorator d.before.qualifiedName change.1]
      refactoring := .ofClassDecorator change.2 (.of (change.2.side d.before d.after)) }

def ofMethodDecorators (pair : OperationPair) : List Proposal :=
  (DecoratorChange.between pair.before.decorators pair.after.decorators).map fun change =>
    { required := [.methodDecorator pair.before.key change.1]
      refactoring := .ofMethodDecorator change.2 (.of (change.2.side pair.before pair.after)) }

def decoratorProposals (inference : Inference) : List Proposal :=
  inference.delta.commonClasses.flatMap ofClassDecorators ++
    inference.operationPairs.flatMap ofMethodDecorators

end Inference

end CodeEvolution
