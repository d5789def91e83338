import CodeEvolution.Alignment.Replacement
/-!
# Variables of two aligned bodies

Parameters and local variables of two bodies are paired: by name where their declaring
statements are linked, by name where the name is unambiguous on both sides, and otherwise by a
replacement of one name by the other in a link between statements that refer to them.
-/
namespace CodeEvolution

inductive LinkKind where
  | exact
  | replaced
  | structural
deriving DecidableEq, Repr

def LinkKind.name : LinkKind → String
  | .exact => "exact"
  | .replaced => "replacement"
  | .structural => "structural"

structure Link where
  before : Nat
  after : Nat
  kind : LinkKind
  replacements : List Replacement := []
deriving DecidableEq, Repr

structure VariableDelta where
  removed : List Nat := []
  added : List Nat := []
  common : List (Nat × Nat) := []
  replaced : List (Nat × Nat) := []
  renamed : List (Nat × Nat) := []
deriving DecidableEq, Repr

namespace VariableDelta

def afterOf? (delta : VariableDelta) (id : Nat) : Option Nat :=
  ((delta.common ++ delta.replaced ++ delta.renamed).find? fun p => p.1 == id).map Prod.snd

abbrev Numbered := Variable × Nat

def isTracked (v : Variable) : Bool :=
  v.role == .localVariable || v.role == .parameter

def tracked (body : Body) : List Numbered :=
  body.declarations.zipIdx.filter fun v => isTracked v.1

abbrev Pair := Numbered × Numbered

variable (comparison : Comparison) (p : Pair) (links : List Link) (afters : List Numbered)
  (pairs : List Pair) (v : Numbered)

def beforePaired : Bool :=
  pairs.any fun p => p.1.2 == v.2

def afterPaired : Bool :=
  pairs.any fun p => p.2.2 == v.2

def areLinked (before after : Nat) : Bool :=
  ((links.find? fun link => link.before == before).map Link.after) == some after

/-- Whether the declarations of two variables correspond: their statements are linked, or they
are parameters. -/
def declaredTogether (v w : Variable) : Bool :=
  match v.statement, w.statement with
  | some s, some t => areLinked links s t
  | _, _ => v.role == .parameter

/-- The pairs after a variable has been paired with a free one of its name and role, declared in
the same place. -/
def pairByPlace : List Pair :=
  match afters.find? fun w =>
      !afterPaired pairs w && w.1.name == v.1.name && w.1.role == v.1.role &&
        declaredTogether links v.1 w.1 with
  | some w => pairs ++ [(v, w)]
  | none => pairs

/-- The pairs after a variable has been paired with the only one of its name, if it is itself
the only one of its name on its side. -/
def pairByName (befores afters : List Numbered) (pairs : List Pair) (v : Numbered) :
    List Pair :=
  if beforePaired pairs v then pairs
  else
    match befores.filter fun u => u.1.name == v.1.name,
        afters.filter fun w => w.1.name == v.1.name with
    | [_], [w] =>
      if !afterPaired pairs w && w.1.role == v.1.role then pairs ++ [(v, w)] else pairs
    | _, _ => pairs

def references (body : Body) (v : Numbered) : List Nat :=
  body.references[v.2]?.getD []

def isRenaming (w : Numbered) (link : Link) : Bool :=
  (references comparison.before v).contains link.before &&
    (references comparison.after w).contains link.after &&
    link.replacements.any fun r =>
      r.kind == .variableName && r.before == v.1.name && r.after == w.1.name

/-- The pairs after a variable has been paired with a free one of its role and another name that
a link names in its place. -/
def pairByRenaming : List Pair :=
  if beforePaired pairs v then pairs
  else
    match afters.find? fun w =>
        !afterPaired pairs w && w.1.role == v.1.role && w.1.name != v.1.name &&
          links.any (isRenaming comparison v w) with
    | some w => pairs ++ [(v, w)]
    | none => pairs

def numbers : Nat × Nat :=
  (p.1.2, p.2.2)

def sameValue : Bool :=
  p.1.1.initializer == p.2.1.initializer

def ofLinks : VariableDelta :=
  let befores := tracked comparison.before
  let afters := tracked comparison.after
  let placed := befores.foldl (pairByPlace links afters) []
  let named := befores.foldl (pairByName befores afters) placed
  let all := befores.foldl (pairByRenaming comparison links afters) named
  { removed := (befores.filter fun v => !beforePaired all v).map Prod.snd
    added := (afters.filter fun w => !afterPaired all w).map Prod.snd
    common := (named.filter sameValue).map numbers
    replaced := (named.filter fun p => !sameValue p).map numbers
    renamed := (all.drop named.length).map numbers }

end VariableDelta

end CodeEvolution
