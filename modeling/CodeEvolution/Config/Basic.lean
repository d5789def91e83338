import CodeEvolution.Failure
import CodeEvolution.Refactoring.Rule
/-!
# Configuration

Limits, thresholds and the order of the rules. A configuration that was read from a document is
validated; the thresholds are shares and lie between zero and one.
-/
namespace CodeEvolution

structure Config where
  maxFileSize : Nat := 50 * 1024 * 1024
  maxConcurrency : Nat := 10
  /-- The number of file models kept; zero stands for the default. -/
  modelCacheSize : Nat := 1000
  patterns : List String := ["**/*.py", "**/*.java"]
  classSimilarityThreshold : Binary64 := .half
  operationMappingThreshold : Binary64 := .half
  extractOperationThreshold : Binary64 := .half
  maxReplacements : Nat := 4
  ruleOrder : List Rule := Rule.defaultOrder
deriving DecidableEq, Repr

namespace Config

def checkShare (name : String) (value : Binary64) : Except Failure Unit :=
  if Binary64.zero.le value && value.le .one then .ok ()
  else .error
    (.invalidConfig (name ++ " must be between 0 and 1, got " ++ Decimal.shortest value))

def repeatedRule? : List Rule → List Rule → Option Rule
  | _, [] => none
  | seen, rule :: rest => if seen.contains rule then some rule else repeatedRule? (rule :: seen) rest

def validate (config : Config) : Except Failure Unit := do
  checkShare "classSimilarityThreshold" config.classSimilarityThreshold
  checkShare "operationMappingThreshold" config.operationMappingThreshold
  checkShare "extractOperationThreshold" config.extractOperationThreshold
  if config.maxConcurrency = 0 then
    .error (.invalidConfig "maxConcurrency must be at least 1")
  match repeatedRule? [] config.ruleOrder with
  | some rule => .error (.invalidConfig ("rule " ++ rule.name ++ " appears twice in ruleOrder"))
  | none => .ok ()

end Config

end CodeEvolution
