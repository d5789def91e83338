import CodeEvolution.Node.Render
import Mathlib.Data.List.Forall2
/-!
# Nodes without their spans

Two nodes are the same but for their spans if they have the same kind and their children are the
same but for their spans. The canonical text of a node is then a matter of the node without its
spans, and so is the list of the canonical texts of all nodes below it.
-/
namespace CodeEvolution.Node

mutual

def spanless : Node → Node
  | ⟨kind, _, children⟩ => ⟨kind, default, spanlessAll children⟩

def spanlessAll : List Node → List Node
  | [] => []
  | node :: rest => spanless node :: spanlessAll rest

end

theorem spanlessAll_eq_map (nodes : List Node) : spanlessAll nodes = nodes.map spanless := by
  induction nodes with
  | nil => rfl
  | cons node rest ih => simp [spanlessAll, ih]

theorem spanless_eq (node : Node) :
    node.spanless = ⟨node.kind, default, node.children.map spanless⟩ := by
  obtain ⟨kind, span, children⟩ := node
  rw [spanless, spanlessAll_eq_map]

@[simp]
theorem spanless_kind (node : Node) : node.spanless.kind = node.kind := by
  rw [spanless_eq]

/-! ## Texts depend on the kinds of children alone -/

def isWithItem (node : Node) : Bool :=
  match node.kind with
  | .withItem => true
  | _ => false

section Texts

variable {f : Node → Node} (hf : ∀ node : Node, (f node).kind = node.kind)

include hf

variable (node : Node) (kind : NodeKind) (nodes : List Node) (texts : List String) (index : Nat)

theorem isAbsent_map : (f node).isAbsent = node.isAbsent := by
  simp [isAbsent, hf]

theorem isVariable_map : (f node).isVariable = node.isVariable := by
  simp [isVariable, hf]

omit hf in
theorem map_snd_filter_zip_map (keeps : Node → Bool)
    (hkeeps : ∀ node : Node, keeps (f node) = keeps node) (nodes : List Node)
    (texts : List String) :
    (((nodes.map f).zip texts).filter fun child => keeps child.1).map Prod.snd =
      ((nodes.zip texts).filter fun child => keeps child.1).map Prod.snd := by
  induction nodes generalizing texts with
  | nil => rfl
  | cons node rest ih =>
    cases texts with
    | nil => rfl
    | cons text texts =>
      simp only [List.map_cons, List.zip_cons_cons, List.filter_cons, hkeeps]
      split <;> simp [ih]

theorem joinPresent_map (separator : String) (nodes : List Node) (texts : List String) :
    joinPresent separator (nodes.map f) texts = joinPresent separator nodes texts := by
  rw [joinPresent, joinPresent,
    map_snd_filter_zip_map (fun node => !node.isAbsent) (by simp [isAbsent_map hf])]

theorem presentText?_map :
    presentText? (nodes.map f) texts index = presentText? nodes texts index := by
  simp only [presentText?, List.getElem?_map]
  cases nodes[index]? <;> cases texts[index]? <;> simp [isAbsent_map hf]

theorem presentText_map :
    presentText (nodes.map f) texts index = presentText nodes texts index := by
  rw [presentText, presentText?_map hf, presentText]

theorem applied_map (name opening closing : String) (nodes : List Node) (texts : List String) :
    applied name opening closing (nodes.map f) texts =
      applied name opening closing nodes texts := by
  simp [applied, joinPresent_map hf]

theorem expressionText_map :
    expressionText kind (nodes.map f) texts = expressionText kind nodes texts := by
  cases kind with
  | invocation name =>
    simp only [expressionText, presentText?_map hf, ← List.map_drop, joinPresent_map hf]
  | _ =>
    simp [expressionText, presentText?_map hf, presentText_map hf, joinPresent_map hf,
      applied_map hf]

theorem statementText_map :
    statementText kind (nodes.map f) texts = statementText kind nodes texts := by
  cases kind with
  | forLoop style => cases style <;> simp [statementText, presentText_map hf]
  | withStatement =>
    exact congrArg (fun items => "with " ++ String.intercalate ", " items)
      (map_snd_filter_zip_map isWithItem (fun node => by simp [isWithItem, hf]) nodes texts)
  | methodDeclaration head =>
    simp only [statementText]
    rw [map_snd_filter_zip_map isVariable (isVariable_map hf)]
  | _ =>
    simp [statementText, expressionText_map hf, presentText?_map hf, presentText_map hf,
      joinPresent_map hf, applied_map hf]

end Texts

mutual

theorem render_spanless : (node : Node) → node.spanless.render = node.render
  | ⟨kind, span, []⟩ => by
    cases kind <;> simp [spanless, spanlessAll, render, renderAll]
  | ⟨kind, span, child :: rest⟩ => by
    have htexts : renderAll (spanlessAll (child :: rest)) = renderAll (child :: rest) := by
      simp only [spanlessAll, renderAll, render_spanless child, renderAll_spanless rest]
    have hdeclarators := declaratorTexts_spanless rest
    cases kind with
    | variableDeclaration modifiers =>
      simp only [spanless, spanlessAll, render, isAbsent_map spanless_kind, render_spanless child,
        hdeclarators]
    | _ =>
      simp only [spanless, render, htexts]
      rw [spanlessAll_eq_map, statementText_map spanless_kind]

theorem renderAll_spanless : (nodes : List Node) →
    renderAll (spanlessAll nodes) = renderAll nodes
  | [] => rfl
  | node :: rest => by
    simp only [spanlessAll, renderAll, render_spanless node, renderAll_spanless rest]

theorem declaratorTexts_spanless : (nodes : List Node) →
    declaratorTexts (spanlessAll nodes) = declaratorTexts nodes
  | [] => rfl
  | ⟨kind, span, children⟩ :: rest => by
    have htexts := renderAll_spanless children
    have hrest := declaratorTexts_spanless rest
    cases kind with
    | «variable» name sort =>
      simp only [spanlessAll, spanless, declaratorTexts, htexts, hrest]
      rw [spanlessAll_eq_map, presentText?_map spanless_kind]
    | _ => simpa only [spanlessAll, spanless, declaratorTexts] using hrest

end

mutual

theorem preorder_spanless : (node : Node) → node.spanless.preorder = node.preorder.map spanless
  | ⟨kind, span, children⟩ => by
    simp only [spanless, preorder, List.map_cons, preorderAll_spanless children]

theorem preorderAll_spanless : (nodes : List Node) →
    preorderAll (spanlessAll nodes) = (preorderAll nodes).map spanless
  | [] => rfl
  | node :: rest => by
    simp only [spanlessAll, preorderAll, preorder_spanless node, preorderAll_spanless rest,
      List.map_append]

end

/-- Nodes that differ in their spans alone. -/
def Same (m n : Node) : Prop :=
  m.spanless = n.spanless

theorem Same.of_kind_eq {k k' : NodeKind} {a b : Span} {ms ns : List Node} (hkind : k = k')
    (h : List.Forall₂ Same ms ns) : Same ⟨k, a, ms⟩ ⟨k', b, ns⟩ := by
  have hmap : ms.map spanless = ns.map spanless := by
    induction h with
    | nil => rfl
    | cons hnode _ ih => exact congrArg₂ List.cons hnode ih
  rw [Same, spanless_eq, spanless_eq, hmap, hkind]

theorem Same.of_children {kind : NodeKind} {a b : Span} {ms ns : List Node}
    (h : List.Forall₂ Same ms ns) : Same ⟨kind, a, ms⟩ ⟨kind, b, ns⟩ :=
  .of_kind_eq rfl h

theorem Same.render_eq {m n : Node} (h : Same m n) : m.render = n.render := by
  rw [← render_spanless m, h, render_spanless n]

theorem Same.map_render_preorder_eq {m n : Node} (h : Same m n) :
    m.preorder.map render = n.preorder.map render := by
  have hforget : ∀ node : Node, node.preorder.map render = node.spanless.preorder.map render := by
    intro node
    rw [preorder_spanless, List.map_map]
    exact List.map_congr_left fun below _ => (render_spanless below).symm
  rw [hforget m, h, ← hforget n]

end CodeEvolution.Node
