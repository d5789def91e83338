import CodeEvolution.Number.Binary64
/-!
# Events

What an observer of a run sees, in the order in which it happens.
-/
namespace CodeEvolution

inductive Event where
  | fileParsed (file : String) (classes : Nat)
  | fileSkipped (file reason : String)
  | nodeSkipped (file : String) (line : Nat) (label : String)
  | cacheHit (file : String)
  | classesMatched (before after : String) (score : Binary64)
  | refactoringDetected (rule description : String)
deriving DecidableEq, Repr

end CodeEvolution
