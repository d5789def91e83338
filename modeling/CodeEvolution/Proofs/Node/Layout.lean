import CodeEvolution.Proofs.Syntax.Nesting
import CodeEvolution.Node.Basic
/-!
# Layouts of nodes

The layout of a kind lists what its children have to be: one child of some kind, or any number of
them. A layout is matched against the kinds of the children from left to right. A node suits a
span if every node at or below it is laid out as its kind has it, and, on trees whose nodes lie in
order, if the node lies inside the span and every node below it inside its parent.
-/
namespace CodeEvolution

variable {node : Node} {kinds : List NodeKind} {P : Node → Prop}

namespace NodeKind

def isTypeRef : NodeKind → Bool
  | .typeRef _ => true
  | _ => false

def isTypeSlot (kind : NodeKind) : Bool :=
  kind.isTypeRef || kind == .absent

def isCase : NodeKind → Bool
  | .caseClause _ => true
  | _ => false

def isVariable : NodeKind → Bool
  | .variable _ _ => true
  | _ => false

def isDecorator : NodeKind → Bool
  | .decorator _ => true
  | _ => false

end NodeKind

/-- A stretch of a layout: one child, or any number of children, of kinds that pass a test. -/
inductive LayoutPart where
  | one (test : NodeKind → Bool)
  | many (test : NodeKind → Bool)

namespace LayoutPart

def any : LayoutPart := .one fun _ => true

def anyNumber : LayoutPart := .many fun _ => true

def exactly (kind : NodeKind) : LayoutPart := .one (· == kind)

/-- A child of such a kind or the marker of an empty slot. -/
def optional (test : NodeKind → Bool) : LayoutPart := .one fun kind => test kind || kind == .absent

def admitsMany (test : NodeKind → Bool) (next : List NodeKind → Bool) : List NodeKind → Bool
  | [] => next []
  | kind :: kinds => next (kind :: kinds) || (test kind && admitsMany test next kinds)

def admits : List LayoutPart → List NodeKind → Bool
  | [], kinds => kinds.isEmpty
  | .one _ :: _, [] => false
  | .one test :: rest, kind :: kinds => test kind && admits rest kinds
  | .many test :: rest, kinds => admitsMany test (admits rest) kinds

section Admits

variable {kind other : NodeKind} {kinds : List NodeKind} {test : NodeKind → Bool}
  {rest : List LayoutPart}

@[simp] theorem admits_nil : admits [] kinds = kinds.isEmpty := by
  rw [admits]

@[simp] theorem admits_one_cons :
    admits (.one test :: rest) (kind :: kinds) = (test kind && admits rest kinds) := by
  rw [admits]

@[simp] theorem admits_any_cons : admits (any :: rest) (kind :: kinds) = admits rest kinds := by
  simp [any]

@[simp] theorem admits_exactly_cons :
    admits (exactly other :: rest) (kind :: kinds) = (kind == other && admits rest kinds) := by
  simp [exactly]

@[simp] theorem admits_optional_cons :
    admits (optional test :: rest) (kind :: kinds) =
      ((test kind || kind == .absent) && admits rest kinds) := by
  simp [optional]

end Admits

theorem admits_many_append {test : NodeKind → Bool} {rest : List LayoutPart}
    {first last : List NodeKind} (hfirst : ∀ kind ∈ first, test kind = true)
    (hlast : admits rest last = true) : admits (.many test :: rest) (first ++ last) = true := by
  rw [admits]
  induction first with
  | nil =>
    rw [List.nil_append]
    cases last with
    | nil => exact hlast
    | cons kind kinds => rw [admitsMany, hlast, Bool.true_or]
  | cons kind kinds ih =>
    have hkinds := ih fun k hk => hfirst k (List.mem_cons_of_mem _ hk)
    rw [List.cons_append, admitsMany, hkinds, hfirst kind (List.mem_cons_self ..)]
    simp

theorem admits_many {test : NodeKind → Bool} (h : ∀ kind ∈ kinds, test kind = true) :
    admits [.many test] kinds = true := by
  have hall : admits [.many test] (kinds ++ []) = true := admits_many_append h rfl
  rwa [List.append_nil] at hall

@[simp] theorem admits_anyNumber (kinds : List NodeKind) : admits [anyNumber] kinds = true :=
  admits_many fun _ _ => rfl

def test : LayoutPart → NodeKind → Bool
  | .one test => test
  | .many test => test

theorem test_of_admitsMany {test : NodeKind → Bool} {next : List NodeKind → Bool} {kind : NodeKind}
    (h : admitsMany test next kinds = true) (hkind : kind ∈ kinds) :
    test kind = true ∨ ∃ rest, next rest = true ∧ kind ∈ rest := by
  induction kinds with
  | nil => exact absurd hkind List.not_mem_nil
  | cons first rest ih =>
    rw [admitsMany, Bool.or_eq_true, Bool.and_eq_true] at h
    rcases h with h | ⟨hfirst, hrest⟩
    · exact Or.inr ⟨_, h, hkind⟩
    · rcases List.mem_cons.mp hkind with rfl | hkind
      · exact Or.inl hfirst
      · exact ih hrest hkind

theorem exists_test_of_admits {parts : List LayoutPart} {kind : NodeKind}
    (h : admits parts kinds = true) (hkind : kind ∈ kinds) :
    ∃ part ∈ parts, part.test kind = true := by
  induction parts generalizing kinds with
  | nil =>
    rw [admits_nil, List.isEmpty_iff] at h
    rw [h] at hkind
    exact absurd hkind List.not_mem_nil
  | cons part rest ih =>
    have hrest : ∀ {kinds}, admits rest kinds = true → kind ∈ kinds →
        ∃ other ∈ part :: rest, other.test kind = true := by
      intro kinds hadmits hmem
      obtain ⟨other, hother, htest⟩ := ih hadmits hmem
      exact ⟨other, List.mem_cons_of_mem _ hother, htest⟩
    cases part with
    | one test =>
      cases kinds with
      | nil => exact absurd hkind List.not_mem_nil
      | cons first kinds =>
        rw [admits_one_cons, Bool.and_eq_true] at h
        rcases List.mem_cons.mp hkind with rfl | hkind
        · exact ⟨_, List.mem_cons_self, h.1⟩
        · exact hrest h.2 hkind
    | many test =>
      rw [admits] at h
      rcases test_of_admitsMany h hkind with htest | ⟨others, hadmits, hmem⟩
      · exact ⟨_, List.mem_cons_self, htest⟩
      · exact hrest hadmits hmem

end LayoutPart

open LayoutPart in
def NodeKind.layout : NodeKind → List LayoutPart
  | .compilationUnit => [anyNumber]
  | .block => [anyNumber]
  | .conditional =>
    [any, exactly .block, optional fun kind => kind == .block || kind == .conditional]
  | .whileLoop _ => [any, exactly .block, optional (· == .elseClause)]
  | .forLoop .each => [any, any, exactly .block, optional (· == .elseClause)]
  | .forLoop .classic => [exactly .expressionList, any, exactly .expressionList, exactly .block]
  | .switch => [any, many isCase]
  | .caseClause _ => [exactly .expressionList, any, exactly .block]
  | .tryStatement =>
    [exactly .expressionList, exactly .block, many (· == .catchClause),
      optional (· == .elseClause), optional (· == .finallyClause)]
  | .catchClause => [exactly .expressionList, any, exactly .block]
  | .finallyClause => [exactly .block]
  | .elseClause => [exactly .block]
  | .returnStatement => [any]
  | .throwStatement => [any, any]
  | .assertStatement => [any, any]
  | .yield _ => [any]
  | .deletion => [anyNumber]
  | .withStatement => [many (· == .withItem), exactly .block]
  | .withItem => [any, any]
  | .assignment _ => [any, one isTypeSlot, any]
  | .variableDeclaration _ => [one isTypeSlot, many isVariable]
  | .expressionStatement => [any]
  | .synchronized => [any, exactly .block]
  | .invocation _ => [any, anyNumber]
  | .creation _ => [anyNumber]
  | .fieldAccess _ => [any]
  | .binary _ => [any, any]
  | .unary _ _ => [any]
  | .ternary => [any, any, any]
  | .subscript => [any, any]
  | .collection _ => [anyNumber]
  | .pair => [any, any]
  | .keywordArgument _ => [any]
  | .lambda => [many isVariable, any]
  | .parenthesized => [any]
  | .expressionList => [anyNumber]
  | .decorator _ => [anyNumber]
  | .typeDeclaration _ => [many isDecorator, many isVariable, exactly .block]
  | .methodDeclaration _ =>
    [many isDecorator, many isVariable, one isTypeSlot, optional (· == .block)]
  | .variable _ _ => [one isTypeSlot, any]
  | .enumConstant _ => [anyNumber]
  | .typeRef _ => [many isTypeRef]
  | .asyncStatement => [any]
  | .other _ _ => [anyNumber]
  -- statements of one keyword, names, literals, comments and empty slots have no children
  | _ => []

namespace Node

def isLaidOut (node : Node) : Bool :=
  LayoutPart.admits node.kind.layout (node.children.map Node.kind)

def Encloses (node : Node) : Prop :=
  ∀ child ∈ node.children, child.span.Within node.span

/-! ## Properties of all nodes of a tree -/

def Everywhere (P : Node → Prop) (node : Node) : Prop :=
  ∀ below ∈ node.preorder, P below

theorem mem_preorderAll {nodes : List Node} :
    node ∈ preorderAll nodes ↔ ∃ root ∈ nodes, node ∈ root.preorder := by
  induction nodes with
  | nil => simp [preorderAll]
  | cons root rest ih => simp [preorderAll, ih]

theorem everywhere_iff :
    node.Everywhere P ↔ P node ∧ ∀ child ∈ node.children, child.Everywhere P := by
  obtain ⟨kind, span, children⟩ := node
  simp only [Everywhere, preorder, List.forall_mem_cons, mem_preorderAll]
  grind

theorem Everywhere.self (h : node.Everywhere P) : P node :=
  (everywhere_iff.mp h).1

theorem Everywhere.child {below : Node} (h : node.Everywhere P) (hbelow : below ∈ node.children) :
    below.Everywhere P :=
  (everywhere_iff.mp h).2 below hbelow

/-! ## Nodes that suit a span -/

/-- All nodes at or below `node` are laid out, and, when `nested` holds, lie inside their
parents, the topmost one inside `span`. -/
structure Suits (nested : Prop) (span : Span) (node : Node) : Prop where
  laidOut : node.Everywhere fun below => below.isLaidOut = true
  within : nested → node.span.Within span
  encloses : nested → node.Everywhere Encloses

variable {nested : Prop} {s t : Span} {node : Node} {kind : NodeKind} {children : List Node}

theorem Suits.mono (h : node.Suits nested s) (hst : nested → s.Within t) : node.Suits nested t :=
  ⟨h.laidOut, fun hn => (h.within hn).trans (hst hn), h.encloses⟩

theorem Suits.narrow (h : node.Suits nested t) (hs : nested → node.span.Within s) :
    node.Suits nested s :=
  ⟨h.laidOut, hs, h.encloses⟩

theorem suits_of_children (hlayout : isLaidOut ⟨kind, s, children⟩ = true)
    (hspan : nested → s.Within t) (h : ∀ child ∈ children, child.Suits nested s) :
    Suits nested t ⟨kind, s, children⟩ where
  laidOut := everywhere_iff.2 ⟨hlayout, fun child hchild => (h child hchild).laidOut⟩
  within := hspan
  encloses hn := everywhere_iff.2
    ⟨fun child hchild => (h child hchild).within hn,
      fun child hchild => (h child hchild).encloses hn⟩

theorem suits_leaf (hlayout : kind.layout = [] ∨ kind.layout = [LayoutPart.anyNumber])
    (hspan : nested → s.Within t) : (leaf kind s).Suits nested t := by
  refine suits_of_children ?_ hspan (by simp)
  rw [isLaidOut]
  rcases hlayout with h | h <;> rw [h] <;> rfl

@[simp] theorem absentAt_kind (span : Span) : (absentAt span).kind = .absent := rfl

theorem suits_absentAt (hspan : nested → s.Within t) : (absentAt s).Suits nested t :=
  suits_leaf (.inl rfl) hspan

theorem Suits.absentAfter (h : node.Suits nested t) :
    (absentAt node.span.endPoint).Suits nested t :=
  suits_absentAt fun hn => (h.within hn).endPoint

end Node

end CodeEvolution
