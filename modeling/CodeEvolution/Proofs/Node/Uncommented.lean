import CodeEvolution.Proofs.Body.Slots
import CodeEvolution.Proofs.Node.Spanless
/-!
# Trees without the comments in their statement lists

The statement lists are the children of blocks and of whole files. Two trees hold the same code if
they are the same but for spans once the comments in statement lists are left out. As a block and a
file are written out by their kind alone, leaving comments out changes no canonical text.
-/
namespace CodeEvolution

variable {kind : NodeKind} {ms ns : List Node} (node : Node) {m n : Node} {a b : Span}
  (nodes : List Node)

def NodeKind.isStatementList (kind : NodeKind) : Bool :=
  kind == .block || kind == .compilationUnit

namespace Node

mutual

/-- A node without the comments in the statement lists at and below it. -/
def uncommented : Node → Node
  | ⟨kind, span, children⟩ => ⟨kind, span, uncommentedAll kind.isStatementList children⟩

def uncommentedAll (isList : Bool) : List Node → List Node
  | [] => []
  | node :: rest =>
    if isList && node.kind.isComment then uncommentedAll isList rest
    else uncommented node :: uncommentedAll isList rest

end

/-- The children that are code: in a statement list all but comments. -/
def codeIn (kind : NodeKind) (children : List Node) : List Node :=
  children.filter fun node => !(kind.isStatementList && node.kind.isComment)

mutual

def code : Node → List Node
  | ⟨kind, span, children⟩ => ⟨kind, span, children⟩ :: codeAll kind.isStatementList children

def codeAll (isList : Bool) : List Node → List Node
  | [] => []
  | node :: rest =>
    if isList && node.kind.isComment then codeAll isList rest else code node ++ codeAll isList rest

end

theorem uncommentedAll_eq (isList : Bool) (nodes : List Node) :
    uncommentedAll isList nodes =
      (nodes.filter fun node => !(isList && node.kind.isComment)).map uncommented := by
  induction nodes with
  | nil => rfl
  | cons node rest ih =>
    rw [uncommentedAll, ih, List.filter_cons]
    cases isList && node.kind.isComment <;> simp

theorem uncommented_eq :
    node.uncommented =
      ⟨node.kind, node.span, (codeIn node.kind node.children).map uncommented⟩ := by
  obtain ⟨kind, span, children⟩ := node
  rw [uncommented, uncommentedAll_eq, codeIn]

@[simp]
theorem uncommented_kind : node.uncommented.kind = node.kind := by
  rw [uncommented_eq]

theorem uncommentedAll_false : uncommentedAll false nodes = nodes.map uncommented := by
  simp [uncommentedAll_eq]

/-! ## Texts -/

mutual

theorem render_uncommented : (node : Node) → node.uncommented.render = node.render
  | ⟨kind, span, []⟩ => by
    cases kind <;> simp [uncommented, uncommentedAll, render, renderAll]
  | ⟨kind, span, child :: rest⟩ => by
    have htexts : renderAll (uncommentedAll false (child :: rest)) = renderAll (child :: rest) := by
      simp only [uncommentedAll, Bool.false_and, Bool.false_eq_true, if_false, renderAll,
        render_uncommented child, renderAll_uncommented rest]
    have hdeclarators := declaratorTexts_uncommented rest
    cases hlist : kind.isStatementList with
    | true =>
      -- what a block or a file holds is not written out
      rcases (by simpa [NodeKind.isStatementList] using hlist :
        kind = .block ∨ kind = .compilationUnit) with rfl | rfl <;>
        simp [uncommented, render, statementText]
    | false =>
      cases kind with
      | variableDeclaration modifiers =>
        simp only [uncommented, hlist, uncommentedAll, Bool.false_and, Bool.false_eq_true, if_false,
          render, isAbsent_map uncommented_kind, render_uncommented child, hdeclarators]
      | _ =>
        simp only [uncommented, hlist, render, htexts]
        rw [uncommentedAll_false, statementText_map uncommented_kind]

theorem renderAll_uncommented : (nodes : List Node) →
    renderAll (uncommentedAll false nodes) = renderAll nodes
  | [] => rfl
  | node :: rest => by
    simp only [uncommentedAll, Bool.false_and, Bool.false_eq_true, if_false, renderAll,
      render_uncommented node, renderAll_uncommented rest]

theorem declaratorTexts_uncommented : (nodes : List Node) →
    declaratorTexts (uncommentedAll false nodes) = declaratorTexts nodes
  | [] => rfl
  | ⟨kind, span, children⟩ :: rest => by
    have htexts := renderAll_uncommented children
    have hrest := declaratorTexts_uncommented rest
    cases kind with
    | «variable» name sort =>
      have hlist : (NodeKind.variable name sort).isStatementList = false := rfl
      simp only [uncommentedAll, Bool.false_and, Bool.false_eq_true, if_false, uncommented, hlist,
        declaratorTexts, htexts, hrest]
      rw [uncommentedAll_false, presentText?_map uncommented_kind]
    | _ =>
      simpa only [uncommentedAll, Bool.false_and, Bool.false_eq_true, if_false, uncommented,
        declaratorTexts] using hrest

end

mutual

theorem preorder_uncommented : (node : Node) →
    node.uncommented.preorder = node.code.map uncommented
  | ⟨kind, span, children⟩ => by
    rw [uncommented, preorder, preorderAll_uncommented _ children, code, List.map_cons, uncommented]

theorem preorderAll_uncommented : (isList : Bool) → (nodes : List Node) →
    preorderAll (uncommentedAll isList nodes) = (codeAll isList nodes).map uncommented
  | _, [] => rfl
  | isList, node :: rest => by
    rw [uncommentedAll, codeAll]
    split
    · exact preorderAll_uncommented isList rest
    · rw [preorderAll, preorder_uncommented node, preorderAll_uncommented isList rest,
        List.map_append]

end

theorem map_render_code : node.code.map render = node.uncommented.preorder.map render := by
  rw [preorder_uncommented, List.map_map]
  exact List.map_congr_left fun below _ => (render_uncommented below).symm

/-! ## Nodes that hold the same code -/

/-- Nodes that are the same but for spans and for comments in statement lists. -/
def Like (m n : Node) : Prop :=
  m.uncommented.Same n.uncommented

theorem Like.kind_eq (h : m.Like n) : m.kind = n.kind := by
  have hkind := congrArg Node.kind (show m.uncommented.spanless = n.uncommented.spanless from h)
  simpa using hkind

theorem Like.render_eq (h : m.Like n) : m.render = n.render := by
  rw [← render_uncommented m, ← render_uncommented n]
  exact Same.render_eq h

theorem like_of_code (h : List.Forall₂ Like (codeIn kind ms) (codeIn kind ns)) :
    Like ⟨kind, a, ms⟩ ⟨kind, b, ns⟩ := by
  rw [Like, uncommented_eq, uncommented_eq]
  refine Same.of_children ?_
  rw [List.forall₂_map_left_iff, List.forall₂_map_right_iff]
  exact h

theorem forall₂_codeIn (h : List.Forall₂ Like ms ns) :
    List.Forall₂ Like (codeIn kind ms) (codeIn kind ns) := by
  induction h with
  | nil => exact .nil
  | cons hmn _ ih =>
    rw [codeIn, codeIn, List.filter_cons, List.filter_cons, hmn.kind_eq]
    split
    · exact .cons hmn ih
    · exact ih

theorem like_of_children (h : List.Forall₂ Like ms ns) : Like ⟨kind, a, ms⟩ ⟨kind, b, ns⟩ :=
  like_of_code (forall₂_codeIn h)

end Node

end CodeEvolution
