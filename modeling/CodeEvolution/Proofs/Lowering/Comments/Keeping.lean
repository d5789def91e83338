import CodeEvolution.Proofs.Lowering.Agreement
/-!
# What lowering keeps when comments are deleted

A rule keeps the code of a tree if every answer it gives for the tree has a counterpart for the
tree without some comments, a node that holds the same code. Statement lists are the places where a
comment may be missing; everywhere else the parts correspond one by one.
-/
namespace CodeEvolution.Lowering

open Syntax (Tree Deletion)

variable {kind : NodeKind} {trees : List Tree} {kinds : List String} (d : Deletion kinds)
  (step : Calls → Calls)

/-- Every answer on the left has a counterpart on the right. -/
def Keeps {α β : Type} (R : α → β → Prop) (x : Option α) (y : Option β) : Prop :=
  ∀ a, x = some a → ∃ b, y = some b ∧ R a b

section Keeps

variable {α β γ δ : Type} {R : α → β → Prop} {Q : γ → δ → Prop} {x : Option α} {y : Option β}

theorem Keeps.answer {a : α} {b : β} (h : R a b) : Keeps R (some a) (some b) := by
  intro a' ha
  cases ha
  exact ⟨b, rfl, h⟩

theorem Keeps.of_none : Keeps R none y := by
  intro a ha
  cases ha

theorem Keeps.bind {f : α → Option γ} {g : β → Option δ} (h : Keeps R x y)
    (hfg : ∀ a b, R a b → Keeps Q (f a) (g b)) : Keeps Q (x >>= f) (y >>= g) := by
  cases x with
  | none => exact .of_none
  | some a =>
    obtain ⟨b, rfl, hab⟩ := h a rfl
    exact hfg a b hab

end Keeps

/-! ## Lists -/

section Lists

variable {kinds : List String} {d : Deletion kinds} {call call' : Tree → Option Node}

/-- In a statement list the chosen comments are missing. -/
theorem keeps_codeIn (hlist : kind.isStatementList = true)
    (hcode : ∀ x ∈ trees, d.keeps x = true → Keeps Node.Like (call x) (call' (x.without d)))
    (hcomment : ∀ x ∈ trees, d.drops x = true → ∀ m, call x = some m → m.kind.isComment = true) :
    Keeps (fun ms ns => List.Forall₂ Node.Like (Node.codeIn kind ms) (Node.codeIn kind ns))
      (trees.mapM call) (((trees.filter d.keeps).map (Tree.without d)).mapM call') := by
  induction trees with
  | nil => exact .answer .nil
  | cons x rest ih =>
    have hrest := ih (fun y hy => hcode y (List.mem_cons_of_mem _ hy))
      fun y hy => hcomment y (List.mem_cons_of_mem _ hy)
    rw [List.mapM_cons, List.filter_cons]
    split
    · rename_i hkeeps
      rw [List.map_cons, List.mapM_cons]
      refine (hcode x (List.mem_cons_self ..) hkeeps).bind fun m n hmn => ?_
      refine hrest.bind fun ms ns hrest => .answer ?_
      rw [Node.codeIn, Node.codeIn, List.filter_cons, List.filter_cons, hmn.kind_eq]
      split
      · exact .cons hmn hrest
      · exact hrest
    · rename_i hdrops
      intro nodes hnodes
      obtain ⟨m, hm, hnodes⟩ := Option.bind_eq_some_iff.1 hnodes
      obtain ⟨ms, hms, hnodes⟩ := Option.bind_eq_some_iff.1 hnodes
      cases hnodes
      obtain ⟨ns, hns, hrest⟩ := hrest ms hms
      refine ⟨ns, hns, ?_⟩
      have hcomment := hcomment x (List.mem_cons_self ..)
        (by simpa [Deletion.keeps] using hdrops) m hm
      have hskip : Node.codeIn kind (m :: ms) = Node.codeIn kind ms := by
        simp [Node.codeIn, hlist, hcomment]
      simpa only [hskip] using hrest

theorem keeps_statements (hlist : kind.isStatementList = true) {a b : Span}
    (hcode : ∀ x ∈ trees, Keeps Node.Like (call x) (call' (x.without d)))
    (hcomment : ∀ x : Tree, d.drops x = true → ∀ m, call x = some m → m.kind.isComment = true) :
    Keeps Node.Like (do return ⟨kind, a, ← trees.mapM call⟩)
      (do return ⟨kind, b, ← ((trees.filter d.keeps).map (Tree.without d)).mapM call'⟩) :=
  (keeps_codeIn hlist (fun x hx _ => hcode x hx) fun x _ => hcomment x).bind fun _ _ hcode =>
    .answer (Node.like_of_code hcode)

end Lists

/-- Deleted comments are lowered to comments. -/
def Hushes {kinds : List String} (d : Deletion kinds) (calls : Calls) : Prop :=
  ∀ use : Use, use.isCode = false → ∀ x : Tree, d.drops x = true →
    ∀ m, calls.of use x = some m → m.kind.isComment = true

theorem hushes_zero : Hushes d (tie step 0) := by
  intro use _ x _ m hm
  cases use <;> cases hm

/-- Calls that answer nothing keep the code of every node. -/
theorem keeps_zero (use : Use) (x : Tree) :
    use.Agrees (tie step 0) (tie step 0) (Keeps Node.Like) x (x.without d) := by
  cases use with
  | source view => exact congrArg view (Tree.without_text d x).symm
  | _ => exact .of_none

end CodeEvolution.Lowering
