import CodeEvolution.Proofs.Lowering.Ordered.JavaStatement
import CodeEvolution.Proofs.Lowering.Ordered.PythonStatement
import CodeEvolution.Proofs.Lowering.Shape
/-!
# The order of siblings

The children of a node of a lowered file, taken as the source has them, lie one after the other,
empty slots included. As the layouts list them they do not: the condition comes first in every
conditional expression and in every loop, and the type of a method last but one.
-/
namespace CodeEvolution

open Syntax (Tree)
open Lowering (isGrammatical)

namespace Lowering

variable {tree : Tree} {bound : Nat}

theorem Python.orders_tie (hbound : tree.depth ≤ bound + 1)
    (h : isGrammatical .python tree = true) : Orders .python (tie Python.step bound) tree :=
  Lowering.orders_tie (fun hdepth hnested => Python.settles_tie hdepth hdepth fun _ => hnested)
    Python.ordersAt_tie hbound h

theorem Java.orders_tie (hbound : tree.depth ≤ bound + 1)
    (h : isGrammatical .java tree = true) : Orders .java (tie Java.step bound) tree :=
  Lowering.orders_tie (fun hdepth hnested =>
    Java.settles_tie hdepth hdepth (fun _ _ _ => trivial) fun _ => hnested)
    Java.ordersAt_tie hbound h

end Lowering

namespace CompilationUnit

open Lowering

theorem fits_lower {language : Language} {tree : Tree} (h : isGrammatical language tree = true) :
    Yields (Fits language tree.span) (lower language tree) := by
  cases language with
  | python =>
    have h := Python.orders_tie (Nat.le_succ _) h
    exact h.statements.bind fun _ hnodes => yields_node rfl hnodes
  | java =>
    have h := Java.orders_tie (Nat.le_succ _) h
    refine (row_mapM (Tree.inOrder_statements h.isNested) fun x hx => ?_).bind fun _ hnodes =>
      yields_node rfl hnodes
    exact (h.ordersAt (Tree.isBelow_of_statements hx)).declaration

end CompilationUnit

namespace Node

/-- Each node starts no earlier than all nodes before it end. -/
def AreAscending (nodes : List Node) : Prop :=
  nodes.Pairwise fun earlier later => earlier.span.endOffset ≤ later.span.startOffset

instance (nodes : List Node) : Decidable (AreAscending nodes) :=
  inferInstanceAs (Decidable (List.Pairwise _ _))

end Node

namespace Samples

/-- `a if c else b` -/
def choice : Tree :=
  node "module" 0 13 []
    [node "expression_statement" 0 13 []
      [node "conditional_expression" 0 13 []
        [node "identifier" 0 1 [] [], node "identifier" 5 6 [] [], node "identifier" 12 13 [] []]]]

/-- `T f(U x) { do { } while (c); }` -/
def repetition : Tree :=
  node "program" 0 30 []
    [node "method_declaration" 0 30 []
      [node "type_identifier" 0 1 ["type"] [], node "identifier" 2 3 ["name"] [],
        node "formal_parameters" 3 8 ["parameters"]
          [token "(" 3,
            node "formal_parameter" 4 7 []
              [node "type_identifier" 4 5 ["type"] [], node "identifier" 6 7 ["name"] []],
            token ")" 7],
        node "block" 9 30 ["body"]
          [token "\x7b" 9,
            node "do_statement" 11 28 []
              [node "block" 14 17 ["body"] [token "\x7b" 14, token "\x7d" 16],
                node "parenthesized_expression" 24 27 ["condition"]
                  [token "(" 24, node "identifier" 25 26 [] [], token ")" 26],
                token ";" 27],
            token "\x7d" 29]]]

/-- The layouts that are not the order of the source, each in a file and with the label of its
node. -/
def reordered : List (Language × Tree × String) :=
  [(.python, choice, "ternary"), (.java, repetition, "while"),
    (.java, repetition, "method_declaration")]

/-- The pairs of children that stray, each in a file and with the label of its node:
`try { } catch (E e) { }`, `for (int i;;i++) { }`, `P { }`, `raise from e` and
`switch (x) { case 1: /**/ case 2: }`. -/
def misplaced : List (Language × Tree × String) :=
  [(.java, node "program" 0 23 []
      [node "try_statement" 0 23 []
        [node "block" 4 7 ["body"] [],
          node "catch_clause" 8 23 []
            [node "catch_formal_parameter" 15 18 []
              [node "catch_type" 15 16 [] [node "type_identifier" 15 16 [] []],
                node "identifier" 17 18 ["name"] []],
              node "block" 20 23 ["body"] []]]], "catch"),
    (.java, node "program" 0 20 []
      [node "for_statement" 0 20 []
        [node "local_variable_declaration" 5 11 []
          [node "integral_type" 5 8 ["type"] [],
            node "variable_declarator" 9 10 [] [node "identifier" 9 10 ["name"] []]],
          token ";" 11, node "update_expression" 12 15 [] [node "identifier" 12 13 [] []],
          token ")" 15, node "block" 17 20 ["body"] []]], "for"),
    (.java, node "program" 0 5 []
      [node "compact_constructor_declaration" 0 5 []
        [node "identifier" 0 1 ["name"] [], node "block" 2 5 ["body"] []]], "method_declaration"),
    (.python, node "module" 0 12 []
      [node "raise_statement" 0 12 [] [node "identifier" 11 12 ["cause"] []]], "throw"),
    (.java, node "program" 0 35 []
      [node "switch_expression" 0 35 []
        [node "parenthesized_expression" 7 10 ["condition"] [node "identifier" 8 9 [] []],
          node "switch_block" 11 35 ["body"]
            [node "switch_block_statement_group" 13 33 []
              [node "switch_label" 13 19 [] [node "decimal_integer_literal" 18 19 [] []],
                node "block_comment" 21 25 [] [],
                node "switch_label" 26 32 [] [node "decimal_integer_literal" 31 32 [] []]]]]],
      "case")]

end Samples

namespace CompilationUnit

/-- Of any two children of a node of a lowered file, taken as the source has them, the first ends
before the second starts, or one of them strays. -/
theorem lower_siblings_in_order (language : Language) (tree : Tree) (root : Node)
    (hgrammar : isGrammatical language tree = true) (h : lower language tree = some root) :
    ∀ node ∈ root.preorder, (node.written language).Perm node.children ∧
      (node.written language).Pairwise fun earlier later =>
        earlier.span.endOffset ≤ later.span.startOffset ∨
          node.strays language earlier later = true := by
  intro node hnode
  have hroot := ((fits_lower hgrammar).of_eq_some h).bounds (List.mem_singleton_self root)
  exact ⟨Node.written_perm language node, hroot.2.2.2 node hnode⟩

/-- A method and a loop whose children are out of order and in order as the source has them. -/
theorem lower_siblings_in_order_repetition :
    isGrammatical .java Samples.repetition = true ∧ ∃ root,
      lower .java Samples.repetition = some root ∧
      (root.preorder.filter fun node => !decide (Node.AreAscending node.children)).length = 2 ∧
      ∀ node ∈ root.preorder, (node.written .java).Perm node.children ∧
        (node.written .java).Pairwise fun earlier later =>
          earlier.span.endOffset ≤ later.span.startOffset ∨
            node.strays .java earlier later = true := by
  have hgrammar : isGrammatical .java Samples.repetition = true := by decide +kernel
  have hcount : (lower .java Samples.repetition).map (fun root =>
      (root.preorder.filter fun node => !decide (Node.AreAscending node.children)).length) =
        some 2 := by
    decide +kernel
  obtain ⟨root, hroot, hcount⟩ := Option.map_eq_some_iff.1 hcount
  exact ⟨hgrammar, root, hroot, hcount,
    lower_siblings_in_order .java Samples.repetition root hgrammar hroot⟩

/-- Whether some node of the label has children that, in some order, do not ascend. -/
def isOutOfOrder (order : Language → Node → List Node) (sample : Language × Tree × String) : Bool :=
  isGrammatical sample.1 sample.2.1 && (lower sample.1 sample.2.1).any fun root =>
    root.preorder.any fun node =>
      node.kind.label == sample.2.2 && !decide (Node.AreAscending (order sample.1 node))

theorem exists_of_isOutOfOrder {order : Language → Node → List Node}
    {sample : Language × Tree × String} (h : isOutOfOrder order sample = true) :
    isGrammatical sample.1 sample.2.1 = true ∧ ∃ root, lower sample.1 sample.2.1 = some root ∧
      ∃ node ∈ root.preorder, node.kind.label = sample.2.2 ∧
        ¬Node.AreAscending (order sample.1 node) := by
  obtain ⟨hgrammar, hany⟩ := Bool.and_eq_true_iff.1 h
  obtain ⟨root, hroot, hany⟩ := (Option.any_eq_true ..).1 hany
  obtain ⟨node, hnode, hfails⟩ := List.any_eq_true.1 hany
  exact ⟨hgrammar, root, hroot, node, hnode, by simpa using hfails⟩

/-- Three layouts are not in the order of the source, and in five files of the grammars two
children of a node are out of order also as the source has them. -/
theorem lower_siblings_out_of_order :
    (∀ sample ∈ Samples.reordered, isGrammatical sample.1 sample.2.1 = true ∧
      ∃ root, lower sample.1 sample.2.1 = some root ∧ ∃ node ∈ root.preorder,
        node.kind.label = sample.2.2 ∧ ¬Node.AreAscending node.children) ∧
    ∀ sample ∈ Samples.misplaced, isGrammatical sample.1 sample.2.1 = true ∧
      ∃ root, lower sample.1 sample.2.1 = some root ∧ ∃ node ∈ root.preorder,
        node.kind.label = sample.2.2 ∧ ¬Node.AreAscending (node.written sample.1) := by
  have hreordered : Samples.reordered.all (isOutOfOrder fun _ => Node.children) = true := by
    decide +kernel
  have hmisplaced : Samples.misplaced.all
      (isOutOfOrder fun language => Node.written language) = true := by
    decide +kernel
  exact ⟨fun sample hsample => exists_of_isOutOfOrder (List.all_eq_true.1 hreordered _ hsample),
    fun sample hsample => exists_of_isOutOfOrder (List.all_eq_true.1 hmisplaced _ hsample)⟩

end CompilationUnit

end CodeEvolution
