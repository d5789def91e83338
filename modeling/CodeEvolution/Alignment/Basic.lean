import CodeEvolution.Alignment.VariableDelta
import CodeEvolution.Number.Binary64
/-!
# Alignment of two bodies

Statements of two bodies are linked in phases, so that sure links are settled before weaker ones
compete for the same statements: simple statements and then composites of equal text, then those
that replacements explain, and last composites that stand in the same place. Inside a phase the
candidates are taken by rising cost, and a statement is linked at most once. The controlling
expressions of linked composites are linked by position.
-/
namespace CodeEvolution

structure Alignment where
  /-- In the order of the first body, each composite followed by its controlling expressions. -/
  links : List Link
  unmappedBeforeLeaves : List Nat
  unmappedAfterLeaves : List Nat
  unmappedBeforeComposites : List Nat
  unmappedAfterComposites : List Nat
  /-- Twice the number of linked statements over the number of all statements. -/
  ratio : Binary64
  variableDelta : VariableDelta
deriving Repr

variable (alignment : Alignment) (c : Comparison) (body : Body) (links : List Link)
  (f b a : Fragment)

namespace Alignment

def ofBefore? (before : Nat) : Option Link :=
  alignment.links.find? fun link => link.before == before

def ofAfter? (after : Nat) : Option Link :=
  alignment.links.find? fun link => link.after == after

def replacements (alignment : Alignment) : List Replacement :=
  alignment.links.flatMap Link.replacements

def hasReplacement (kind : ReplacementKind) (before after : String) : Bool :=
  alignment.replacements.any fun r => r.kind == kind && r.before == before && r.after == after

def isIdentical : Bool :=
  alignment.unmappedBeforeLeaves.isEmpty && alignment.unmappedAfterLeaves.isEmpty &&
    alignment.unmappedBeforeComposites.isEmpty && alignment.unmappedAfterComposites.isEmpty &&
    alignment.links.all fun link => link.kind == .exact

end Alignment

structure Sides where
  before : List Fragment
  after : List Fragment
deriving Repr

/-- A possible link with what it costs: the number of replacements, then the lack of linked
statements inside, the distance in depth, the distance in position, and the two positions. -/
structure Candidate where
  link : Link
  cost : List Nat
deriving Repr

namespace Comparison

def inScope (scope : Option (List Nat)) (fragments : List Fragment) : List Fragment :=
  match scope with
  | none => fragments
  | some ids => fragments.filter fun f => ids.contains f.id

def leaves (c : Comparison) : Sides :=
  ⟨inScope c.beforeScope c.before.leaves, inScope c.afterScope c.after.leaves⟩

def composites (c : Comparison) : Sides :=
  ⟨inScope c.beforeScope c.before.composites, inScope c.afterScope c.after.composites⟩

def beforeLinked : Bool :=
  links.any fun link => link.before == f.id

def afterLinked : Bool :=
  links.any fun link => link.after == f.id

def sharedInside : Nat :=
  let inside := c.after.descendants a
  ((c.before.descendants b).filter fun d =>
    match links.find? fun link => link.before == d.id with
    | some link => inside.any fun e => e.id == link.after
    | none => false).length

def gap (m n : Nat) : Nat :=
  (m - n) + (n - m)

def cost (penalty : Nat) (b a : Fragment) : List Nat :=
  let shared := if b.isComposite then c.sharedInside links b a else 0
  [penalty, c.before.fragments.length - shared, gap b.depth a.depth, gap b.index a.index,
    b.id, a.id]

def costLe : List Nat → List Nat → Bool
  | [], _ => true
  | _ :: _, [] => false
  | m :: ms, n :: ns => if m = n then costLe ms ns else decide (m < n)

abbrev Criterion := Fragment → Fragment → Option (LinkKind × List Replacement)

def candidates (sides : Sides) (criterion : Criterion) : List Candidate :=
  (sides.before.filter fun b => !beforeLinked links b).flatMap fun b =>
    (sides.after.filter fun a => !afterLinked links a).filterMap fun a =>
      if b.kind = a.kind then
        (criterion b a).map fun found =>
          ⟨⟨b.id, a.id, found.1, found.2⟩, c.cost links found.2.length b a⟩
      else none

def take (candidate : Candidate) : List Link :=
  if links.any fun link =>
      link.before == candidate.link.before || link.after == candidate.link.after then links
  else links ++ [candidate.link]

def phase (criterion : List Link → Criterion) (links : List Link) (sides : Sides) : List Link :=
  let sorted := (c.candidates links sides (criterion links)).mergeSort fun x y =>
    costLe x.cost y.cost
  sorted.foldl take links

def exactly (_ : List Link) : Criterion := fun b a =>
  if b.text = a.text then some (.exact, []) else none

def byReplacement (_ : List Link) : Criterion := fun b a =>
  (Replacement.find? c b a).map fun replacements => (.replaced, replacements)

def holder? : Option Fragment :=
  (body.ancestors f).find? fun g => !g.isBlock

def holdersLinked : Bool :=
  match holder? c.before b, holder? c.after a with
  | none, none => true
  | some g, some h => VariableDelta.areLinked links g.id h.id
  | _, _ => false

/-- Composites nested in the same way that share a linked statement or stand at the same
position inside linked ones. -/
def byPlace : Criterion := fun b a =>
  if c.before.ancestorKinds b = c.after.ancestorKinds a ∧
      (0 < c.sharedInside links b a ∨
        (b.parent.isSome && a.parent.isSome && c.holdersLinked links b a) ∧ b.index = a.index)
  then some (.structural, []) else none

def statementLinks : List Link :=
  let exactLeaves := c.phase exactly [] c.leaves
  let exactAll := c.phase exactly exactLeaves c.composites
  let replacedLeaves := c.phase c.byReplacement exactAll c.leaves
  let replacedAll := c.phase c.byReplacement replacedLeaves c.composites
  c.phase c.byPlace replacedAll c.composites

def expressionLink : Link :=
  if b.text = a.text then ⟨b.id, a.id, .exact, []⟩
  else
    match Replacement.find? c b a with
    | some replacements => ⟨b.id, a.id, .replaced, replacements⟩
    | none => ⟨b.id, a.id, .structural, []⟩

def controls (id : Nat) : List Fragment :=
  match body.get? id with
  | some f => f.expressions.filterMap body.get?
  | none => []

def withControls (link : Link) : List Link :=
  link :: ((controls c.before link.before).zip (controls c.after link.after)).map fun p =>
    c.expressionLink p.1 p.2

def unlinked (linked : List Nat) (fragments : List Fragment) : List Nat :=
  (fragments.map Fragment.id).filter fun id => !linked.contains id

def align : Alignment :=
  let statements := c.statementLinks.mergeSort fun x y => decide (x.before ≤ y.before)
  let links := statements.flatMap c.withControls
  let linkedBefore := links.map Link.before
  let linkedAfter := links.map Link.after
  let total := c.leaves.before.length + c.composites.before.length + c.leaves.after.length +
    c.composites.after.length
  { links
    unmappedBeforeLeaves := unlinked linkedBefore c.leaves.before
    unmappedAfterLeaves := unlinked linkedAfter c.leaves.after
    unmappedBeforeComposites := unlinked linkedBefore c.composites.before
    unmappedAfterComposites := unlinked linkedAfter c.composites.after
    ratio := if total = 0 then .one else .quotient (2 * statements.length) total
    variableDelta := .ofLinks c links }

end Comparison

end CodeEvolution
