import CodeEvolution.Proofs.Lowering.Comments.Python
import CodeEvolution.Proofs.Lowering.JavaRules
import CodeEvolution.Proofs.Lowering.Shape
/-!
# Comments and code

The code of a file is its tree without the comments in statement lists. Main result: deleting
comments from the grammar tree of a file leaves its code and the canonical text of every node of it
as they are, whichever comments are deleted from a Python file, and in a Java file as long as none
of them is taken for code. Comments are named children in Java: where a rule takes the first child
or every child of a node for code, it takes a comment for code that stands there.
-/
namespace CodeEvolution

open Syntax (Tree Deletion)

namespace Lowering

variable {tree : Tree} {bound : Nat}

theorem Python.lower_eq_tie (h : tree.depth ≤ bound + 1) :
    Python.lower tree = do
      return nodeOf .compilationUnit tree (← Python.statements (tie Python.step bound) tree) := by
  have hsettles : Settles ⟨False, False, tie Python.step tree.depth, tie Python.step bound⟩ tree :=
    Python.settles_tie (Nat.le_succ _) h False.elim
  exact congrArg (· >>= fun nodes => some (nodeOf .compilationUnit tree nodes))
    hsettles.statements.eq

theorem Java.lower_eq_tie (h : tree.depth ≤ bound + 1) :
    Java.lower tree = do
      return nodeOf .compilationUnit tree
        (← tree.statements.mapM (tie Java.step bound).declaration) := by
  have hsettles : Settles ⟨True, False, tie Java.step tree.depth, tie Java.step bound⟩ tree :=
    Java.settles_tie (Nat.le_succ _) h (fun _ _ _ => trivial) False.elim
  have hmembers : Settled True (fun nodes => ∀ node ∈ nodes, True)
      (tree.statements.mapM (tie Java.step tree.depth).declaration)
      (tree.statements.mapM (tie Java.step bound).declaration) :=
    settled_mapM_all fun x hx =>
      (hsettles.settledAt (Tree.isBelow_of_statements hx)).declaration.imp fun _ _ => trivial
  rw [← hmembers.eq]
  rfl

end Lowering

namespace CompilationUnit

open Lowering

def commentKinds : Language → List String
  | .python => Python.commentKinds
  | .java => Java.commentKinds

/-- The comments that the lowering of a file takes for code, or that change the code around
them. -/
def takenForCode (language : Language) (tree : Tree) : List Tree :=
  match language with
  | .python => []
  | .java =>
    (tree.statements.flatMap
      (takenFor Java.commentKinds Java.takenReadings tree.depth .declaration)).filter
        (Tree.isCommentOf Java.commentKinds)

theorem keeps_of_takenForCode {tree : Tree} {d : Deletion Java.commentKinds}
    (h : ∀ x ∈ takenForCode .java tree, d.drops x = false) :
    ∀ member ∈ tree.statements,
      ∀ x ∈ takenFor Java.commentKinds Java.takenReadings tree.depth .declaration member,
        d.keeps x = true := by
  intro member hmember x hx
  rcases d.keeps_or_drops x with hkeeps | hdrops
  · exact hkeeps
  · have htaken : x ∈ takenForCode .java tree :=
      List.mem_filter.2 ⟨List.mem_flatMap.2 ⟨member, hmember, hx⟩, d.isComment hdrops⟩
    rw [h x htaken] at hdrops
    cases hdrops

theorem keeps_lower {language : Language} {tree : Tree} {d : Deletion (commentKinds language)}
    (htaken : ∀ x ∈ takenForCode language tree, d.drops x = false) :
    Keeps Node.Like (lower language tree) (lower language (tree.without d)) := by
  have hdepth : (tree.without d).depth ≤ tree.depth + 1 :=
    Nat.le_succ_of_le (Tree.without_depth_le d tree)
  cases language with
  | python =>
    show Keeps Node.Like (Python.lower tree) (Python.lower (tree.without d))
    have hquiets := Python.quiets_tie d tree.depth
    rw [Python.lower_eq_tie hdepth, Python.statements, Tree.without_statements]
    exact keeps_statements rfl (fun x _ => hquiets.outcome .statement x)
      (hquiets.hushes .statement rfl)
  | java =>
    show Keeps Node.Like (Java.lower tree) (Java.lower (tree.without d))
    rw [Java.lower_eq_tie hdepth, Tree.without_statements]
    refine keeps_statements rfl (fun x hx => ?_)
      (Java.sparing_step.hushes_tie d tree.depth .declaration rfl)
    exact Java.sparing_step.keeps_tie (keeps_of_takenForCode htaken x hx)

/-- Comments that are not taken for code can be deleted from a file: its code and the canonical
texts in it stay the same. -/
theorem lower_without (language : Language) (tree : Tree) (root : Node)
    (d : Deletion (commentKinds language))
    (htaken : ∀ x ∈ takenForCode language tree, d.drops x = false)
    (h : lower language tree = some root) :
    ∃ bare, lower language (tree.without d) = some bare ∧
      bare.uncommented.spanless = root.uncommented.spanless ∧
      bare.code.map Node.render = root.code.map Node.render := by
  obtain ⟨bare, hbare, hlike⟩ := keeps_lower htaken root h
  refine ⟨bare, hbare, hlike.symm, ?_⟩
  rw [Node.map_render_code, Node.map_render_code]
  exact (Node.Same.map_render_preorder_eq hlike).symm

end CompilationUnit

namespace CommentedReturn

open Samples (outline)

def tree : Tree :=
  (outline "program" 0 29 []
    [outline "block" 0 29 []
      [outline "block_comment" 2 9 [] [],
        outline "return_statement" 10 27 []
          [outline "block_comment" 17 24 [] [], outline "identifier" 25 26 [] []]]]).resolve
    (.ofText "\x7b /* a */ return /* b */ x; \x7d")

def dropping (offset : Nat) : Deletion Lowering.Java.commentKinds :=
  .ofChoice _ fun x => x.span.startOffset == offset

end CommentedReturn

namespace CompilationUnit

open CommentedReturn (tree dropping)

/-- A comment in a block can be deleted, another one being taken for a value. -/
theorem lower_without_block_comment :
    (takenForCode .java tree).map Tree.text = ["/* b */"] ∧
      ∃ root bare, lower .java tree = some root ∧
        lower .java (tree.without (dropping 2)) = some bare ∧
        root.preorder.map Node.render = ["module", "\x7b", "/* a */", "return /* b */", "/* b */"] ∧
        bare.code.map Node.render = ["module", "\x7b", "return /* b */", "/* b */"] := by
  have htaken : ∀ x ∈ takenForCode .java tree, (dropping 2).drops x = false := by decide +kernel
  have htexts : (lower .java tree).map (fun root => (root.preorder.map Node.render,
      root.code.map Node.render)) =
        some (["module", "\x7b", "/* a */", "return /* b */", "/* b */"],
          ["module", "\x7b", "return /* b */", "/* b */"]) := by
    decide +kernel
  obtain ⟨root, hroot, htexts⟩ := Option.map_eq_some_iff.1 htexts
  rw [Prod.mk.injEq] at htexts
  obtain ⟨bare, hbare, -, hcode⟩ := lower_without .java tree root (dropping 2) htaken hroot
  exact ⟨by decide +kernel, root, bare, hroot, hbare, htexts.1, hcode.trans htexts.2⟩

/-- Without the comment that is taken for a value, the value is another one. -/
theorem lower_without_value_comment :
    (lower .java tree).map (fun root => root.code.map Node.render) =
        some ["module", "\x7b", "return /* b */", "/* b */"] ∧
      (lower .java (tree.without (dropping 17))).map (fun root => root.code.map Node.render) =
        some ["module", "\x7b", "return x", "x"] := by
  decide +kernel

end CompilationUnit

end CodeEvolution
