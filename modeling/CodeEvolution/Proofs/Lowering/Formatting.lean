import CodeEvolution.CompilationUnit
import CodeEvolution.Proofs.Lowering.JavaRules
import CodeEvolution.Proofs.Lowering.PythonStatement
import CodeEvolution.Proofs.Samples
/-!
# Formatting and canonical texts

The canonical texts of a file are those of the nodes it is lowered to. Where a node is put
together from its children, formatting leaves no trace in them. But the lowering takes over the
text of some nodes as it stands in the file, blanks and all: of every construct without a rule, of
types, of names of decorators. Main result: two reformattings of one file from which the same such
texts are taken over are lowered to the same tree but for spans, so their canonical texts are the
same node by node. With a blank put into a text taken over they are not.
-/
namespace CodeEvolution

open Syntax (Tree)

namespace Lowering

theorem forall₂_meets_tie {step : Calls → Calls} {readings : Readings}
    (hreads : Reads step readings) (use : Use) {s t : Tree} (hst : s.Reformats t)
    (h : s.statements.flatMap (kept readings s.depth use) =
      t.statements.flatMap (kept readings t.depth use)) :
    List.Forall₂ (use.Meets (tie step s.depth)) s.statements t.statements := by
  rw [← Tree.depth_eq_of_reformats s t hst] at h
  have hkept : List.Forall₂ (fun c d => kept readings s.depth use c = kept readings s.depth use d)
      s.statements t.statements :=
    (rel_of_flatMap (hst.statements.imp fun _ _ hcd => length_kept_eq readings s.depth use hcd)
      (List.forall₂_eq_eq_eq ▸ h)).imp fun _ _ hcd => List.forall₂_eq_eq_eq ▸ hcd
  exact (rel_and hst.statements hkept).imp fun _ _ hcd => meets_tie hreads _ use hcd.1 hcd.2

end Lowering

namespace CompilationUnit

open Lowering

/-- The texts of nodes with children that the lowering of a file takes over, in the order in
which it meets them. -/
def keptTexts (language : Language) (tree : Tree) : List String :=
  match language with
  | .python => tree.statements.flatMap (kept Python.readings tree.depth .statement)
  | .java => tree.statements.flatMap (kept Java.readings tree.depth .declaration)

theorem rel_lower {language : Language} {s t : Tree} (hst : s.Reformats t)
    (hkept : keptTexts language s = keptTexts language t) :
    Option.Rel Node.Same (lower language s) (lower language t) := by
  have hdepth := Tree.depth_eq_of_reformats s t hst
  cases language with
  | python =>
    have hparts := forall₂_meets_tie Python.reads_step .statement hst hkept
    rw [lower, lower, Python.lower, Python.lower, ← hdepth]
    exact rel_bind (rel_mapM hparts) fun _ _ hnodes => .some (.of_children hnodes)
  | java =>
    have hparts := forall₂_meets_tie Java.reads_step .declaration hst hkept
    rw [lower, lower, Java.lower, Java.lower, ← hdepth]
    exact rel_bind (rel_mapM hparts) fun _ _ hnodes => .some (.of_children hnodes)

theorem map_eq_of_same {α : Type} {f : Node → α} {x y : Option Node}
    (h : Option.Rel Node.Same x y) (hf : ∀ m n, Node.Same m n → f m = f n) :
    x.map f = y.map f := by
  cases h with
  | none => rfl
  | some hmn => exact congrArg some (hf _ _ hmn)

/-- Formatting changes a lowered file only through the texts taken over from its nodes with
children. -/
theorem lower_reformatted (language : Language) (s t : Tree) (h : s.reformats t = true)
    (hkept : keptTexts language s = keptTexts language t) :
    (lower language s).map Node.spanless = (lower language t).map Node.spanless ∧
      (lower language s).map (fun root => root.preorder.map Node.render) =
        (lower language t).map (fun root => root.preorder.map Node.render) := by
  have hsame := rel_lower h hkept
  exact ⟨map_eq_of_same hsame fun _ _ hmn => hmn,
    map_eq_of_same hsame fun _ _ hmn => hmn.map_render_preorder_eq⟩

end CompilationUnit

namespace SpacedSlice

def blanks (count : Nat) : String :=
  String.ofList (List.replicate count ' ')

/-- A sum with a slice in it, with blanks around its operators and around the colon. -/
def text (gap inner : Nat) : String :=
  "x" ++ blanks gap ++ "=" ++ blanks gap ++ "y[1" ++ blanks inner ++ ":" ++ blanks inner ++ "2]" ++
    blanks gap ++ "+" ++ blanks gap ++ "z"

open Samples (outline mark)

def slice (start inner : Nat) : Syntax.Outline :=
  outline "slice" start (start + 3 + 2 * inner) ["subscript"]
    [outline "integer" start (start + 1) [] [], mark ":" (start + 1 + inner) [],
      outline "integer" (start + 2 + 2 * inner) (start + 3 + 2 * inner) [] []]

def sum (start gap inner : Nat) : Syntax.Outline :=
  outline "binary_operator" start (start + 8 + 2 * inner + 2 * gap) ["right"]
    [outline "subscript" start (start + 6 + 2 * inner) ["left"]
      [outline "identifier" start (start + 1) ["value"] [], mark "[" (start + 1) [],
        slice (start + 2) inner, mark "]" (start + 5 + 2 * inner) []],
      mark "+" (start + 6 + 2 * inner + gap) ["operator"],
      outline "identifier" (start + 7 + 2 * inner + 2 * gap) (start + 8 + 2 * inner + 2 * gap)
        ["right"] []]

def tree (gap inner : Nat) : Tree :=
  let stop := 10 + 4 * gap + 2 * inner
  (outline "module" 0 stop []
    [outline "expression_statement" 0 stop []
      [outline "assignment" 0 stop []
        [outline "identifier" 0 1 ["left"] [], mark "=" (1 + gap) [],
          sum (2 + 2 * gap) gap inner]]]).resolve (.ofText (text gap inner))

end SpacedSlice

namespace CompilationUnit

open SpacedSlice (tree)

/-- Blanks around operators change no text, as the slice is the only text taken over. -/
theorem lower_reformatted_spaced_operators :
    (tree 0 0).reformats (tree 1 0) = true ∧
      keptTexts .python (tree 0 0) = ["1:2"] ∧ keptTexts .python (tree 1 0) = ["1:2"] ∧
      (lower .python (tree 1 0)).map (fun root => root.preorder.map Node.render) =
        some ["module", "x = y[1:2] + z", "x", "", "y[1:2] + z", "y[1:2]", "y", "1:2", "1", "2",
          "z"] := by
  have hreformats : (tree 0 0).reformats (tree 1 0) = true := by decide +kernel
  have hfirst : keptTexts .python (tree 0 0) = ["1:2"] := by decide +kernel
  have hsecond : keptTexts .python (tree 1 0) = ["1:2"] := by decide +kernel
  have htexts := (lower_reformatted .python _ _ hreformats (hfirst.trans hsecond.symm)).2
  refine ⟨hreformats, hfirst, hsecond, ?_⟩
  rw [← htexts]
  decide +kernel

/-- Blanks around the colon of a slice change the texts of the slice and of the nodes above it. -/
theorem lower_spaced_slice :
    (tree 0 0).reformats (tree 0 1) = true ∧
      (lower .python (tree 0 0)).map (fun root => root.preorder.map Node.render) ≠
        (lower .python (tree 0 1)).map (fun root => root.preorder.map Node.render) := by
  decide +kernel

end CompilationUnit

end CodeEvolution
