import CodeEvolution.Number.Decimal
/-!
# Failures

What can go wrong while a snapshot or a configuration is read. Failures that concern one file
leave that file out of its snapshot; the others end the run.
-/
namespace CodeEvolution

inductive Failure where
  | parse (file : String) (line : Nat) (message : String)
  | unsupportedLanguage (file : String)
  | unsettled (file : String)
  | invalidConfig (message : String)
  | malformedDocument
  | unreadable
  | notFound (path : String)
  | malformedPattern
deriving DecidableEq, Repr

namespace Failure

def message : Failure → String
  | .parse file line text =>
    "Parse error in " ++ file ++ " at line " ++ Decimal.ofNat (line + 1) ++ ": " ++ text
  | .unsupportedLanguage file => "No language front-end for file: " ++ file
  | .unsettled file => "Internal error: no rule settles a construct of " ++ file
  | .invalidConfig text => "Internal error: " ++ text
  | .malformedDocument => "YAML parsing error"
  | .unreadable => "IO error"
  | .notFound path => "File not found: " ++ path
  | .malformedPattern => "Glob error"

def isFileLocal : Failure → Bool
  | .parse _ _ _ => true
  | .unsupportedLanguage _ => true
  | .unsettled _ => true
  | _ => false

end Failure

end CodeEvolution
