import CodeEvolution.Syntax.Tree
import Mathlib.Data.List.Basic
/-!
# Deleting comments from syntax trees

A comment is a named node of one of the comment kinds of a grammar that stands under no field and
has no children. A deletion picks some of the comments; without them a tree has the same nodes in
the same order, and what a rule looks up in a node by field, by token or by another kind is still
there.
-/
namespace CodeEvolution.Syntax

variable {kinds : List String} {tree : Tree}

def Tree.isCommentOf (kinds : List String) (tree : Tree) : Bool :=
  kinds.contains tree.kind && tree.isNamed && tree.fields.isEmpty && tree.children.isEmpty

theorem Tree.kind_mem_of_isCommentOf (h : tree.isCommentOf kinds = true) : tree.kind ∈ kinds := by
  simp only [isCommentOf, Bool.and_eq_true] at h
  simpa using h.1.1.1

theorem Tree.children_of_isCommentOf (h : tree.isCommentOf kinds = true) : tree.children = [] := by
  simp only [isCommentOf, Bool.and_eq_true] at h
  simpa using h.2

/-- A choice of comments to delete. -/
structure Deletion (kinds : List String) where
  drops : Tree → Bool
  isComment {x : Tree} : drops x = true → x.isCommentOf kinds = true

def Deletion.ofChoice (kinds : List String) (chosen : Tree → Bool) : Deletion kinds where
  drops x := x.isCommentOf kinds && chosen x
  isComment h := (Bool.and_eq_true_iff.1 h).1

namespace Deletion

variable {kinds : List String} (d : Deletion kinds) {x : Tree}

def keeps (x : Tree) : Bool := !d.drops x

theorem keeps_of_not_comment (h : x.isCommentOf kinds = false) : d.keeps x = true := by
  rw [keeps, Bool.not_eq_true', ← Bool.not_eq_true]
  intro hdrops
  rw [d.isComment hdrops] at h
  cases h

theorem keeps_of_kind (h : kinds.contains x.kind = false) : d.keeps x = true :=
  d.keeps_of_not_comment (by simp only [Tree.isCommentOf, h, Bool.false_and])

theorem keeps_of_token (h : x.isNamed = false) : d.keeps x = true :=
  d.keeps_of_not_comment (by simp only [Tree.isCommentOf, h, Bool.and_false, Bool.false_and])

theorem keeps_of_field {name : String} (h : x.fields.contains name = true) : d.keeps x = true := by
  refine d.keeps_of_not_comment ?_
  cases hfields : x.fields with
  | nil => simp [hfields] at h
  | cons => simp [Tree.isCommentOf, hfields]

theorem kind_of_drops (h : d.drops x = true) : x.kind ∈ kinds :=
  Tree.kind_mem_of_isCommentOf (d.isComment h)

theorem isNamed_of_drops (h : d.drops x = true) : x.isNamed = true := by
  have hx := d.isComment h
  simp only [Tree.isCommentOf, Bool.and_eq_true] at hx
  exact hx.1.1.2

theorem keeps_or_drops (x : Tree) : d.keeps x = true ∨ d.drops x = true := by
  cases h : d.drops x <;> simp [keeps, h]

end Deletion

namespace Tree

variable {kinds : List String}

mutual

def without (d : Deletion kinds) : Tree → Tree
  | ⟨kind, isNamed, isMissing, span, text, fields, children⟩ =>
    ⟨kind, isNamed, isMissing, span, text, fields, withoutAll d children⟩

def withoutAll (d : Deletion kinds) : List Tree → List Tree
  | [] => []
  | tree :: rest => if d.drops tree then withoutAll d rest else without d tree :: withoutAll d rest

end

variable (d : Deletion kinds) (t : Tree)

theorem withoutAll_eq (trees : List Tree) :
    withoutAll d trees = (trees.filter d.keeps).map (without d) := by
  induction trees with
  | nil => rfl
  | cons tree rest ih =>
    rw [withoutAll, ih, List.filter_cons, Deletion.keeps]
    cases d.drops tree <;> simp

@[simp] theorem without_kind : (t.without d).kind = t.kind := by
  cases t; rw [without]

@[simp] theorem without_isNamed : (t.without d).isNamed = t.isNamed := by
  cases t; rw [without]

@[simp] theorem without_span : (t.without d).span = t.span := by
  cases t; rw [without]

@[simp] theorem without_text : (t.without d).text = t.text := by
  cases t; rw [without]

@[simp] theorem without_fields : (t.without d).fields = t.fields := by
  cases t; rw [without]

theorem without_of_isCommentOf {t : Tree} (h : t.isCommentOf kinds = true) : t.without d = t := by
  obtain ⟨kind, isNamed, isMissing, span, text, fields, children⟩ := t
  obtain rfl : children = [] := children_of_isCommentOf h
  rw [without, withoutAll]

theorem without_children :
    (t.without d).children = (t.children.filter d.keeps).map (without d) := by
  cases t; rw [without, withoutAll_eq]

/-! ## Looking up children -/

section Lists

variable {d} {xs : List Tree} {p : Tree → Bool}

theorem filter_without (hp : ∀ x : Tree, p (x.without d) = p x) :
    ((xs.filter d.keeps).map (without d)).filter p =
      ((xs.filter p).filter d.keeps).map (without d) := by
  rw [List.filter_map, List.filter_filter, List.filter_filter]
  congr 2
  funext x
  rw [Function.comp, hp, Bool.and_comm]

theorem filter_keeps (h : ∀ x ∈ xs, d.keeps x = true) : xs.filter d.keeps = xs :=
  List.filter_eq_self.2 h

theorem filter_without_of_keeps (hp : ∀ x : Tree, p (x.without d) = p x)
    (hkeeps : ∀ x ∈ xs.filter p, d.keeps x = true) :
    ((xs.filter d.keeps).map (without d)).filter p = (xs.filter p).map (without d) := by
  rw [filter_without hp, filter_keeps hkeeps]

theorem flatMap_without {α : Type} {f g : Tree → List α}
    (hkept : ∀ x ∈ xs, d.keeps x = true → f (x.without d) = g x)
    (hdropped : ∀ x ∈ xs, d.drops x = true → g x = []) :
    ((xs.filter d.keeps).map (without d)).flatMap f = xs.flatMap g := by
  induction xs with
  | nil => rfl
  | cons x rest ih =>
    rw [List.forall_mem_cons] at hkept hdropped
    rw [List.filter_cons, List.flatMap_cons]
    rcases d.keeps_or_drops x with hx | hx
    · rw [if_pos hx, List.map_cons, List.flatMap_cons, hkept.1 hx, ih hkept.2 hdropped.2]
    · rw [if_neg (by simp [Deletion.keeps, hx]), hdropped.1 hx, ih hkept.2 hdropped.2]
      rfl

theorem any_without (hp : ∀ x : Tree, p (x.without d) = p x)
    (hdropped : ∀ x : Tree, d.drops x = true → p x = false) :
    ((xs.filter d.keeps).map (without d)).any p = xs.any p := by
  rw [List.any_map, List.any_filter]
  congr 1
  funext x
  rw [Function.comp, hp]
  rcases d.keeps_or_drops x with hx | hx
  · rw [hx, Bool.true_and]
  · rw [hdropped x hx, Bool.and_false]

theorem head?_without (hkeeps : ∀ x ∈ xs.head?, d.keeps x = true) :
    ((xs.filter d.keeps).map (without d)).head? = xs.head?.map (without d) := by
  cases xs with
  | nil => rfl
  | cons x xs => rw [List.filter_cons, if_pos (hkeeps x rfl)]; rfl

theorem getLast?_without (hkeeps : ∀ x ∈ xs.getLast?, d.keeps x = true) :
    ((xs.filter d.keeps).map (without d)).getLast? = xs.getLast?.map (without d) := by
  rcases List.eq_nil_or_concat xs with rfl | ⟨init, last, rfl⟩
  · rfl
  · rw [List.concat_eq_append] at hkeeps ⊢
    have hlast : d.keeps last = true := hkeeps last (by simp)
    simp [List.filter_append, hlast]

theorem getElem?_without (hfirst : ∀ x ∈ xs[0]?, d.keeps x = true)
    (hsecond : ∀ x ∈ xs[1]?, d.keeps x = true) :
    ((xs.filter d.keeps).map (without d))[0]? = xs[0]?.map (without d) ∧
      ((xs.filter d.keeps).map (without d))[1]? = xs[1]?.map (without d) := by
  rcases xs with _ | ⟨first, _ | ⟨second, rest⟩⟩
  · exact ⟨rfl, rfl⟩
  · have hfirst : d.keeps first = true := hfirst first rfl
    simp [hfirst]
  · have hfirst : d.keeps first = true := hfirst first rfl
    have hsecond : d.keeps second = true := hsecond second rfl
    simp [hfirst, hsecond]

theorem find?_without (hp : ∀ x : Tree, p (x.without d) = p x)
    (hkeeps : ∀ x ∈ xs.find? p, d.keeps x = true) :
    ((xs.filter d.keeps).map (without d)).find? p = (xs.find? p).map (without d) := by
  rw [← List.head?_filter] at hkeeps ⊢
  rw [filter_without hp, head?_without hkeeps, List.head?_filter]

end Lists

theorem without_named : (t.without d).named = (t.named.filter d.keeps).map (without d) := by
  rw [named, without_children, filter_without (by simp)]
  rfl

theorem without_statements :
    (t.without d).statements = (t.statements.filter d.keeps).map (without d) := by
  rw [statements, without_children, filter_without (by simp)]
  rfl

@[simp] theorem without_field? (name : String) :
    (t.without d).field? name = (t.field? name).map (without d) := by
  rw [field?, without_children, find?_without (by simp), ← field?]
  intro x hx
  have hfield := List.find?_some (Option.mem_def.1 hx)
  exact d.keeps_of_field hfield

theorem without_tokens :
    ((t.without d).children.filter fun child => !child.isNamed) =
      (t.children.filter fun child => !child.isNamed).map (without d) := by
  rw [without_children, filter_without_of_keeps (by simp)]
  intro x hx
  exact d.keeps_of_token (by simpa using (List.mem_filter.1 hx).2)

@[simp] theorem without_hasToken (token : String) :
    (t.without d).hasToken token = t.hasToken token := by
  have hany : ∀ tree : Tree, tree.hasToken token =
      (tree.children.filter fun child => !child.isNamed).any fun child => child.kind == token := by
    intro tree
    rw [hasToken, List.any_filter]
  rw [hany, hany, without_tokens, List.any_map]
  congr 1
  funext x
  simp

@[simp] theorem without_sameRangeAs (x : Tree) (y : Option Tree) :
    (x.without d).sameRangeAs (y.map (without d)) = x.sameRangeAs y := by
  cases y <;> simp [sameRangeAs, sameRange]

/-! ## Depth -/

mutual

theorem without_depth_le : (t : Tree) → (t.without d).depth ≤ t.depth
  | ⟨_, _, _, _, _, _, children⟩ => by
    rw [without, depth, depth]
    exact Nat.succ_le_succ (withoutAll_depthAll_le children)

theorem withoutAll_depthAll_le : (trees : List Tree) →
    depthAll (withoutAll d trees) ≤ depthAll trees
  | [] => .refl
  | tree :: rest => by
    have htree := without_depth_le tree
    have hrest := withoutAll_depthAll_le rest
    rw [withoutAll, depthAll]
    split
    · omega
    · rw [depthAll]
      omega

end

end Tree

end CodeEvolution.Syntax
