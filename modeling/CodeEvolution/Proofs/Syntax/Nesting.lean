import CodeEvolution.Syntax.Tree
import Mathlib.Data.List.Basic
import Mathlib.Logic.Relation
/-!
# Parts of syntax trees

Whatever a rule picks from a node stands below it: it is less deep, and in a tree whose nodes lie
inside their parents and one after the other it covers part of the bytes of the node.
-/
namespace CodeEvolution

namespace Span

/-- `s` does not end before it starts, and lies inside `t`. -/
def Within (s t : Span) : Prop :=
  t.startOffset ≤ s.startOffset ∧ s.startOffset ≤ s.endOffset ∧ s.endOffset ≤ t.endOffset

variable {r s t : Span}

theorem Within.trans (h : r.Within s) (h' : s.Within t) : r.Within t := by
  unfold Within at *
  omega

theorem Within.contains (h : s.Within t) : t.contains s = true := by
  simp [Span.contains, h.1, h.2.2]

theorem Within.endPoint (h : s.Within t) : s.endPoint.Within t :=
  ⟨Nat.le_trans h.1 h.2.1, .refl, h.2.2⟩

theorem Within.startPoint (h : s.Within t) : s.startPoint.Within t :=
  ⟨h.1, .refl, Nat.le_trans h.2.1 h.2.2⟩

theorem Within.through (hr : r.Within t) (hs : s.Within t) (h : r.startOffset ≤ s.endOffset) :
    (r.through s).Within t := by
  unfold Within Span.through at *
  exact ⟨hr.1, h, hs.2.2⟩

theorem within_through {spans : List Span} {first last : Span} (hspans : ∀ s ∈ spans, s.Within t)
    (hordered : spans.Pairwise fun r s => r.endOffset ≤ s.startOffset)
    (hfirst : spans.head? = some first) (hlast : spans.getLast? = some last) :
    (first.through last).Within t ∧ ∀ s ∈ spans, s.Within (first.through last) := by
  have hstart : ∀ s ∈ spans, first.startOffset ≤ s.startOffset := by
    obtain ⟨rest, rfl⟩ := List.head?_eq_some_iff.1 hfirst
    intro s hs
    cases hs with
    | head => exact .refl
    | tail _ hs =>
      have hle := List.rel_of_pairwise_cons hordered hs
      have hproper := (hspans first (List.mem_cons_self ..)).2.1
      omega
  have hstop : ∀ s ∈ spans, s.endOffset ≤ last.endOffset := by
    obtain ⟨rest, rfl⟩ := List.getLast?_eq_some_iff.1 hlast
    intro s hs
    rcases List.mem_append.1 hs with hs | hs
    · have hle := (List.pairwise_append.1 hordered).2.2 s hs last (by simp)
      have hproper := (hspans last (by simp)).2.1
      omega
    · exact Nat.le_of_eq (by rw [List.mem_singleton.1 hs])
  have hfirst := List.mem_of_head? hfirst
  have hlast := List.mem_of_getLast? hlast
  refine ⟨(hspans first hfirst).through (hspans last hlast) ?_, fun s hs => ?_⟩
  · exact Nat.le_trans (hstart last hlast) (hspans last hlast).2.1
  · exact ⟨hstart s hs, (hspans s hs).2.1, hstop s hs⟩

end Span

namespace Syntax.Tree

/-! ## Below a node -/

/-- `x` is a child of `t`, or below a child of it. -/
def IsBelow (x t : Tree) : Prop :=
  Relation.TransGen (fun child parent => child ∈ parent.children) x t

variable {x y t : Tree} {xs : List Tree}

theorem isBelow_of_mem (h : x ∈ t.children) : x.IsBelow t :=
  .single h

theorem IsBelow.trans (h : x.IsBelow y) (h' : y.IsBelow t) : x.IsBelow t :=
  Relation.TransGen.trans h h'

theorem isBelow_of_named (h : x ∈ t.named) : x.IsBelow t :=
  isBelow_of_mem (List.mem_filter.1 h).1

theorem isBelow_of_statements (h : x ∈ t.statements) : x.IsBelow t :=
  isBelow_of_mem (List.mem_filter.1 h).1

theorem isBelow_of_namedOf {kind : String} (h : x ∈ t.namedOf kind) : x.IsBelow t :=
  isBelow_of_named (List.mem_filter.1 h).1

theorem isBelow_of_field? {name : String} (h : x ∈ t.field? name) : x.IsBelow t :=
  isBelow_of_mem (List.mem_of_find?_eq_some h)

mutual

def preorder : Tree → List Tree
  | ⟨kind, isNamed, isMissing, span, text, fields, children⟩ =>
    ⟨kind, isNamed, isMissing, span, text, fields, children⟩ :: preorderAll children

def preorderAll : List Tree → List Tree
  | [] => []
  | tree :: rest => preorder tree ++ preorderAll rest

end

theorem preorder_eq (t : Tree) : t.preorder = t :: preorderAll t.children := by
  obtain ⟨_, _, _, _, _, _, children⟩ := t
  rw [preorder]

theorem mem_preorderAll_of_mem (hy : y ∈ xs) (hx : x ∈ y.preorder) : x ∈ preorderAll xs := by
  induction xs with
  | nil => cases hy
  | cons z zs ih =>
    rw [preorderAll, List.mem_append]
    cases hy with
    | head => exact .inl hx
    | tail _ hy => exact .inr (ih hy)

theorem IsBelow.mem_preorder (h : x.IsBelow t) : x ∈ t.preorder := by
  induction h with
  | single hx =>
    rw [preorder_eq]
    exact .tail _ (mem_preorderAll_of_mem hx (by simp [preorder_eq]))
  | tail _ hy ih =>
    rw [preorder_eq]
    exact .tail _ (mem_preorderAll_of_mem hy ih)

/-! ## Depth -/

theorem depth_le_depthAll (h : x ∈ xs) : x.depth ≤ depthAll xs := by
  induction xs with
  | nil => cases h
  | cons y ys ih =>
    rw [depthAll]
    cases h with
    | head => omega
    | tail _ h => have := ih h; omega

theorem depth_eq (t : Tree) : t.depth = depthAll t.children + 1 := by
  obtain ⟨_, _, _, _, _, _, children⟩ := t
  rw [depth]

theorem IsBelow.depth_lt (h : x.IsBelow t) : x.depth < t.depth := by
  have hchild : ∀ {c p : Tree}, c ∈ p.children → c.depth < p.depth := by
    intro c p hc
    have := depth_le_depthAll hc
    rw [depth_eq p]
    omega
  induction h with
  | single h => exact hchild h
  | tail _ h ih => exact Nat.lt_trans ih (hchild h)

/-! ## Trees whose nodes lie in order -/

/-- Whether trees lie between two offsets, one after the other. -/
def inOrder (start stop : Nat) : List Tree → Bool
  | [] => decide (start ≤ stop)
  | tree :: rest =>
    decide (start ≤ tree.span.startOffset) &&
      decide (tree.span.startOffset ≤ tree.span.endOffset) &&
      inOrder tree.span.endOffset stop rest

def typeFirst (tree : Tree) : Bool :=
  match tree.field? "type", tree.field? "name" with
  | some type, some name =>
    tree.kind != "enhanced_for_statement" || decide (type.span.endOffset ≤ name.span.startOffset)
  | _, _ => true

mutual

/-- Whether all nodes of a tree lie inside their parents and in the order of the source, and
loop variables are declared as the grammar has it. -/
def isNested : Tree → Bool
  | ⟨kind, isNamed, isMissing, span, text, fields, children⟩ =>
    inOrder span.startOffset span.endOffset children &&
      typeFirst ⟨kind, isNamed, isMissing, span, text, fields, children⟩ &&
      areNested children

def areNested : List Tree → Bool
  | [] => true
  | tree :: rest => isNested tree && areNested rest

end

theorem areNested_iff {trees : List Tree} :
    areNested trees = true ↔ ∀ tree ∈ trees, tree.isNested = true := by
  induction trees with
  | nil => simp [areNested]
  | cons tree rest ih => simp [areNested, ih]

theorem isNested_iff :
    t.isNested = true ↔ inOrder t.span.startOffset t.span.endOffset t.children = true ∧
      t.typeFirst = true ∧ ∀ child ∈ t.children, child.isNested = true := by
  obtain ⟨kind, isNamed, isMissing, span, text, fields, children⟩ := t
  rw [isNested, Bool.and_eq_true, Bool.and_eq_true, areNested_iff, and_assoc]

section InOrder

variable {start stop : Nat}

theorem le_of_inOrder (h : inOrder start stop xs = true) : start ≤ stop := by
  induction xs generalizing start with
  | nil => simpa [inOrder] using h
  | cons x xs ih =>
    simp only [inOrder, Bool.and_eq_true, decide_eq_true_eq] at h
    have := ih h.2
    omega

theorem bounds_of_inOrder (h : inOrder start stop xs = true) (hx : x ∈ xs) :
    start ≤ x.span.startOffset ∧ x.span.startOffset ≤ x.span.endOffset ∧
      x.span.endOffset ≤ stop := by
  induction xs generalizing start with
  | nil => cases hx
  | cons y ys ih =>
    simp only [inOrder, Bool.and_eq_true, decide_eq_true_eq] at h
    cases hx with
    | head => exact ⟨h.1.1, h.1.2, le_of_inOrder h.2⟩
    | tail _ hx => have := ih h.2 hx; omega

theorem pairwise_of_inOrder (h : inOrder start stop xs = true) :
    xs.Pairwise fun x y => x.span.endOffset ≤ y.span.startOffset := by
  induction xs generalizing start with
  | nil => exact .nil
  | cons x xs ih =>
    simp only [inOrder, Bool.and_eq_true, decide_eq_true_eq] at h
    exact .cons (fun y hy => (bounds_of_inOrder h.2 hy).1) (ih h.2)

end InOrder

theorem within_self (h : t.isNested = true) : t.span.Within t.span :=
  ⟨.refl, le_of_inOrder (isNested_iff.1 h).1, .refl⟩

theorem within_of_mem (h : t.isNested = true) (hx : x ∈ t.children) : x.span.Within t.span :=
  bounds_of_inOrder (isNested_iff.1 h).1 hx

theorem children_pairwise (h : t.isNested = true) :
    t.children.Pairwise fun x y => x.span.endOffset ≤ y.span.startOffset :=
  pairwise_of_inOrder (isNested_iff.1 h).1

theorem IsBelow.isNested_and_within (h : x.IsBelow t) (ht : t.isNested = true) :
    x.isNested = true ∧ x.span.Within t.span := by
  induction h with
  | single hx => exact ⟨(isNested_iff.1 ht).2.2 x hx, within_of_mem ht hx⟩
  | tail _ hy ih =>
    obtain ⟨hnested, hwithin⟩ := ih ((isNested_iff.1 ht).2.2 _ hy)
    exact ⟨hnested, hwithin.trans (within_of_mem ht hy)⟩

theorem within_through (h : t.isNested = true) (hxs : xs.Sublist t.children) {first last : Tree}
    (hfirst : xs.head? = some first) (hlast : xs.getLast? = some last) :
    (first.span.through last.span).Within t.span ∧
      ∀ x ∈ xs, x.span.Within (first.span.through last.span) := by
  have hwithin : ∀ s ∈ xs.map Tree.span, s.Within t.span :=
    List.forall_mem_map.2 fun x hx => within_of_mem h (hxs.subset hx)
  have hordered : (xs.map Tree.span).Pairwise fun r s => r.endOffset ≤ s.startOffset :=
    List.pairwise_map.2 ((children_pairwise h).sublist hxs)
  have hspans := Span.within_through hwithin hordered
    (by rw [List.head?_map, hfirst, Option.map_some])
    (by rw [List.getLast?_map, hlast, Option.map_some])
  exact ⟨hspans.1, fun x hx => hspans.2 _ (List.mem_map_of_mem hx)⟩

end Syntax.Tree

end CodeEvolution
