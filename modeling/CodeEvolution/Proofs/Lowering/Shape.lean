import CodeEvolution.CompilationUnit
import CodeEvolution.Proofs.Lowering.Settled.JavaStatement
import CodeEvolution.Proofs.Lowering.Settled.PythonStatement
import CodeEvolution.Proofs.Samples
/-!
# The shape of lowered files

Three facts about the tree of a file, whatever its grammar tree holds: it is there, unless a Java
file holds what the grammar calls a local class; each of its nodes has the children that its kind
asks for; and if the nodes of the grammar tree lie inside their parents and in order, so that a
missing part has a definite place, each of its nodes lies inside its parent.
-/
namespace CodeEvolution

open Syntax (Tree)

variable (language : Language) (tree : Tree)

namespace Lowering

variable {silent nested : Prop} {tree : Tree} {bound bound' : Nat}

theorem Python.settles_tie (hbound : tree.depth ≤ bound + 1) (hbound' : tree.depth ≤ bound' + 1)
    (hnested : nested → tree.isNested = true) :
    Settles ⟨silent, nested, tie Python.step bound, tie Python.step bound'⟩ tree :=
  Lowering.settles_tie (fun _ h => Python.settledAt_tie h) hbound hbound' (fun _ _ => trivial)
    hnested

theorem Java.settles_tie (hbound : tree.depth ≤ bound + 1) (hbound' : tree.depth ≤ bound' + 1)
    (hlocal : ∀ x : Tree, x.IsBelow tree → x.kind = Java.localClass → silent)
    (hnested : nested → tree.isNested = true) :
    Settles ⟨silent, nested, tie Java.step bound, tie Java.step bound'⟩ tree :=
  Lowering.settles_tie Java.settledAt_tie hbound hbound' hlocal hnested

end Lowering

namespace CompilationUnit

open Lowering

/-- A node that the rules for Java statements and declarations hand to each other. -/
def HoldsLocalClass (language : Language) (tree : Tree) : Prop :=
  language = .java ∧ ∃ x ∈ tree.preorder, x.kind = Java.localClass

theorem settled_lower :
    Settled (HoldsLocalClass language tree) (Node.Suits (tree.isNested = true) tree.span)
      (lower language tree) (lower language tree) := by
  cases language with
  | python =>
    have h : Settles ⟨HoldsLocalClass .python tree, tree.isNested = true,
        tie Python.step tree.depth, tie Python.step tree.depth⟩ tree :=
      Python.settles_tie (Nat.le_succ _) (Nat.le_succ _) id
    exact h.statements.bind fun nodes hnodes => .answer (h.collect rfl hnodes)
  | java =>
    have h : Settles ⟨HoldsLocalClass .java tree, tree.isNested = true,
        tie Java.step tree.depth, tie Java.step tree.depth⟩ tree :=
      Java.settles_tie (Nat.le_succ _) (Nat.le_succ _)
        (fun x hx hkind => ⟨rfl, x, hx.mem_preorder, hkind⟩) id
    refine (settled_mapM_all fun x hx => ?_).bind fun nodes hnodes => .answer (h.collect rfl hnodes)
    have hx := Tree.isBelow_of_statements hx
    exact (h.settledAt hx).declaration.imp fun node hnode => h.widen hx hnode

end CompilationUnit

namespace Samples

/-- A file of nodes of the given kinds from which everything is missing. -/
def missing (kinds : List String) : Tree :=
  node "file" 0 9 [] (kinds.map fun kind => node kind 4 4 [] [])

def hollow : Tree :=
  missing ["if_statement", "for_statement", "enhanced_for_statement", "while_statement",
    "switch_expression", "try_statement", "method_declaration", "class_declaration"]

/-- `for (T x : y) if (z) { } else ;` -/
def loop : Tree :=
  node "program" 0 32 []
    [node "enhanced_for_statement" 0 32 []
      [token "(" 4, node "type_identifier" 5 6 ["type"] [], node "identifier" 7 8 ["name"] [],
        token ":" 9, node "identifier" 11 12 ["value"] [], token ")" 12,
        node "if_statement" 14 32 ["body"]
          [node "parenthesized_expression" 17 20 ["condition"]
              [token "(" 17, node "identifier" 18 19 [] [], token ")" 19],
            node "block" 21 24 ["consequence"] [], node ";" 30 31 ["alternative"] []]]]

end Samples

namespace CompilationUnit

open Lowering

/-- Every node of a lowered file has the children that its kind asks for. -/
theorem lower_isLaidOut (language : Language) (tree : Tree) (root : Node)
    (h : lower language tree = some root) :
    ∀ node ∈ root.preorder, node.isLaidOut = true :=
  ((settled_lower language tree).of_eq_some h).laidOut

/-- Constructs from which everything is missing are laid out with empty slots. -/
theorem lower_isLaidOut_hollow :
    ∃ root, lower .java Samples.hollow = some root ∧
      root.children.map (·.children.length) = [3, 4, 4, 3, 1, 4, 2, 1] ∧
      ∀ node ∈ root.preorder, node.isLaidOut = true := by
  have hlengths : (lower .java Samples.hollow).map
      (fun root => root.children.map (·.children.length)) = some [3, 4, 4, 3, 1, 4, 2, 1] := by
    decide +kernel
  obtain ⟨root, hroot, hlengths⟩ := Option.map_eq_some_iff.1 hlengths
  exact ⟨root, hroot, hlengths, lower_isLaidOut .java Samples.hollow root hroot⟩

/-- Every node of a lowered file lies inside its parent, if the nodes of the grammar tree lie
inside theirs and in order. -/
theorem lower_spans_nest (language : Language) (tree : Tree) (root : Node)
    (hnested : tree.isNested = true) (h : lower language tree = some root) :
    ∀ node ∈ root.preorder, ∀ child ∈ node.children, node.span.contains child.span = true := by
  intro node hnode child hchild
  have hencloses := ((settled_lower language tree).of_eq_some h).encloses hnested
  exact (hencloses node hnode child hchild).contains

/-- In a loop over a collection the variable spans its type and its name. -/
theorem lower_spans_nest_loop :
    Samples.loop.isNested = true ∧ ∃ root, lower .java Samples.loop = some root ∧
      root.preorder.map (fun node => (node.span.startOffset, node.span.endOffset)) =
        [(0, 32), (0, 32), (5, 8), (5, 6), (8, 8), (11, 12), (14, 32), (14, 32), (18, 19), (21, 24),
          (30, 31), (30, 31), (32, 32)] ∧
      ∀ node ∈ root.preorder, ∀ child ∈ node.children, node.span.contains child.span = true := by
  have hnested : Samples.loop.isNested = true := by decide +kernel
  have hspans : (lower .java Samples.loop).map (fun root =>
      root.preorder.map fun node => (node.span.startOffset, node.span.endOffset)) = some
        [(0, 32), (0, 32), (5, 8), (5, 6), (8, 8), (11, 12), (14, 32), (14, 32), (18, 19), (21, 24),
          (30, 31), (30, 31), (32, 32)] := by
    decide +kernel
  obtain ⟨root, hroot, hspans⟩ := Option.map_eq_some_iff.1 hspans
  exact ⟨hnested, root, hroot, hspans, lower_spans_nest .java Samples.loop root hnested hroot⟩

/-- A file without a local class is lowered, whatever kinds of nodes it holds. -/
theorem lower_returns (h : language = .java → ∀ x ∈ tree.preorder, x.kind ≠ Java.localClass) :
    ∃ root, lower language tree = some root := by
  cases hlower : lower language tree with
  | some root => exact ⟨root, rfl⟩
  | none =>
    obtain ⟨hjava, x, hx, hkind⟩ := (settled_lower language tree).of_eq_none hlower
    exact absurd hkind (h hjava x hx)

/-- The rules for statements and declarations hand a local class to each other without end. -/
theorem lower_local_class : lower .java (Samples.missing [Java.localClass]) = none := by
  decide +kernel

end CompilationUnit

end CodeEvolution
