import CodeEvolution.Body.Basic
import CodeEvolution.Text.EditDistance
import CodeEvolution.Text.Substitution
import CodeEvolution.Text.Token
/-!
# Replacements

A difference between two fragments of one kind is explained by a short list of typed
substitutions that turn the tokens of one text into those of the other. Substitutions are
proposed from the facts of the two fragments and chosen greedily: every round takes the one that
brings the texts closest, the earliest of several, and only if it brings them closer.
-/
namespace CodeEvolution

inductive ReplacementKind where
  | ternaryBranch
  | parameterToArgument
  | variableToField
  | fieldToVariable
  | extractVariable
  | inlineVariable
  | invocationName
  | invocationQualifier
  | fieldAccessQualifier
  | fieldAccessName
  | variableName
  | variableToExpression
  | expressionToVariable
  | literal
  | argument
deriving DecidableEq, Repr

def ReplacementKind.text : ReplacementKind → String
  | .ternaryBranch => "ternary branch"
  | .parameterToArgument => "parameter to argument"
  | .variableToField => "variable to field"
  | .fieldToVariable => "field to variable"
  | .extractVariable => "extract variable"
  | .inlineVariable => "inline variable"
  | .invocationName => "invocation name"
  | .invocationQualifier => "invocation qualifier"
  | .fieldAccessQualifier => "field access qualifier"
  | .fieldAccessName => "field access name"
  | .variableName => "variable name"
  | .variableToExpression => "variable to expression"
  | .expressionToVariable => "expression to variable"
  | .literal => "literal"
  | .argument => "argument"

structure Replacement where
  kind : ReplacementKind
  before : String
  after : String
deriving DecidableEq, Repr

abbrev ArgumentBinding := List (String × String)

namespace ArgumentBinding

variable (parameters arguments : List String)

def extracted : ArgumentBinding :=
  (arguments.zip parameters).filter fun p => p.1 != p.2

def inlined : ArgumentBinding :=
  (parameters.zip arguments).filter fun p => p.1 != p.2

end ArgumentBinding

structure Comparison where
  before : Body
  after : Body
  beforeScope : Option (List Nat) := none
  afterScope : Option (List Nat) := none
  binding : ArgumentBinding := []
  receivers : List String
  maxReplacements : Nat
deriving Repr

variable (comparison : Comparison) (goal arguments : List String) (before after : Fragment)

namespace Replacement

def sameTexts (r s : Replacement) : Bool :=
  r.before == s.before && r.after == s.after

def distinct : List Replacement → List Replacement
  | [] => []
  | r :: rest => r :: (distinct rest).filter fun s => !r.sameTexts s

def isProper (r : Replacement) : Bool :=
  r.before != "" && r.before != r.after

def pairs (kind : ReplacementKind) (befores afters : List String) : List Replacement :=
  befores.flatMap fun b => afters.map fun a => ⟨kind, b, a⟩

def ternaryBranches (before after : Facts) : List Replacement :=
  (before.choices.flatMap fun c =>
    [⟨.ternaryBranch, c.text, c.whenTrue⟩, ⟨.ternaryBranch, c.text, c.whenFalse⟩]) ++
  after.choices.flatMap fun c =>
    [⟨.ternaryBranch, c.whenTrue, c.text⟩, ⟨.ternaryBranch, c.whenFalse, c.text⟩]

def boundTexts : List Replacement :=
  (comparison.binding.filter fun p => Text.containsWord before.text p.1).map fun p =>
    ⟨.parameterToArgument, p.1, p.2⟩

def ownMembers (receivers : List String) (facts other : Facts) : List String :=
  ((facts.accesses.filter fun access => receivers.contains access.receiver).filter
    fun access => !other.accessesMember access.receiver access.name).map MemberAccess.text

def extractedVariables : List Replacement :=
  (comparison.after.declarations.filter fun v => v.role == .localVariable).filterMap fun v =>
    match v.initializer with
    | none => none
    | some value =>
      if after.facts.mentions v.name && !before.facts.mentions v.name &&
          Text.contains before.text value then
        some ⟨.extractVariable, value, v.name⟩
      else none

def inlinedVariables : List Replacement :=
  (comparison.before.declarations.filter fun v => v.role == .localVariable).filterMap fun v =>
    match v.initializer with
    | none => none
    | some value =>
      if before.facts.mentions v.name && !after.facts.mentions v.name &&
          Text.contains after.text value then
        some ⟨.inlineVariable, v.name, value⟩
      else none

def ofInvocations? (i j : Invocation) : Option Replacement :=
  if i.receiver? = j.receiver? ∧ i.arguments = j.arguments ∧ i.name ≠ j.name then
    some ⟨.invocationName, i.text, j.text⟩
  else if i.name = j.name ∧ i.arguments = j.arguments ∧ i.receiver? ≠ j.receiver? then
    some ⟨.invocationQualifier, i.text, j.text⟩
  else none

def ofAccesses? (f g : MemberAccess) : Option Replacement :=
  if f.name = g.name ∧ f.receiver ≠ g.receiver then
    some ⟨.fieldAccessQualifier, f.text, g.text⟩
  else if f.receiver = g.receiver ∧ f.name ≠ g.name then
    some ⟨.fieldAccessName, f.text, g.text⟩
  else none

def without (texts others : List String) : List String :=
  texts.filter fun text => !others.contains text

def proposals : List Replacement :=
  let fb := before.facts
  let fa := after.facts
  let removed := without fb.names fa.names
  let added := without fa.names fb.names
  let all :=
    ternaryBranches fb fa ++
    boundTexts comparison before ++
    pairs .variableToField removed (ownMembers comparison.receivers fa fb) ++
    pairs .fieldToVariable (ownMembers comparison.receivers fb fa) added ++
    extractedVariables comparison before after ++
    inlinedVariables comparison before after ++
    (fb.invocations.flatMap fun i => fa.invocations.filterMap (ofInvocations? i)) ++
    (fb.accesses.flatMap fun f => fa.accesses.filterMap (ofAccesses? f)) ++
    pairs .variableName removed added ++
    pairs .variableToExpression removed
      (fa.expressions.filter fun text => !Text.contains before.text text) ++
    pairs .expressionToVariable
      (fb.expressions.filter fun text => !Text.contains after.text text) added ++
    pairs .literal (without fb.literals fa.literals) (without fa.literals fb.literals) ++
    pairs .argument (without fb.arguments fa.arguments) (without fa.arguments fb.arguments)
  distinct (all.filter isProper)

structure Move where
  replacement : Replacement
  text : String
  distance : Nat
deriving Repr

def distanceTo (text : String) : Nat :=
  Text.editDistance (Text.tokenize text) goal

def move? (current : String) (r : Replacement) : Option Move :=
  (Text.replaceIdentifier? current r.before r.after).map fun text =>
    ⟨r, text, distanceTo goal text⟩

def closest : List Move → Option Move
  | [] => none
  | move :: rest =>
    match closest rest with
    | none => some move
    | some other => if other.distance < move.distance then some other else some move

def bestMove? (proposed : List Replacement) (goal : List String) (current : String) :
    Option Move :=
  closest ((proposed.filterMap (move? goal current)).filter fun move =>
    decide (move.distance < distanceTo goal current))

/-- At most `budget` replacements that lead from a text to the goal, each of which comes
closer. -/
def search (proposed : List Replacement) (goal : List String) :
    Nat → String → Option (List Replacement)
  | 0, current => if distanceTo goal current = 0 then some [] else none
  | budget + 1, current =>
    if distanceTo goal current = 0 then some []
    else
      match bestMove? proposed goal current with
      | none => none
      | some move => (search proposed goal budget move.text).map (move.replacement :: ·)

def find? : Option (List Replacement) :=
  if before.kind ≠ after.kind ∨ before.text = after.text then none
  else
    search (proposals comparison before after) (Text.tokenize after.text)
      comparison.maxReplacements before.text

end Replacement

end CodeEvolution
