import CodeEvolution.Proofs.Syntax.Nesting
/-!
# Trees one after the other

Trees that lie in order between two offsets can be cut anywhere, thinned out, and replaced by
parts of themselves.
-/
namespace CodeEvolution.Syntax.Tree

variable {start stop start' stop' : Nat} {x t first last : Tree} {xs ys : List Tree}

theorem inOrder_cons : inOrder start stop (x :: xs) = true ↔
    start ≤ x.span.startOffset ∧ x.span.startOffset ≤ x.span.endOffset ∧
      inOrder x.span.endOffset stop xs = true := by
  simp [inOrder, and_assoc]

theorem inOrder_mono (h : inOrder start stop xs = true) (hstart : start' ≤ start)
    (hstop : stop ≤ stop') : inOrder start' stop' xs = true := by
  induction xs generalizing start start' with
  | nil =>
    simp only [inOrder, decide_eq_true_eq] at h ⊢
    omega
  | cons x xs ih =>
    rw [inOrder_cons] at h ⊢
    exact ⟨by omega, h.2.1, ih h.2.2 .refl⟩

theorem inOrder_append : inOrder start stop (xs ++ ys) = true ↔
    ∃ cut, inOrder start cut xs = true ∧ inOrder cut stop ys = true := by
  induction xs generalizing start with
  | nil =>
    refine ⟨fun h => ⟨start, by simp [inOrder], h⟩, fun ⟨cut, hxs, hys⟩ => ?_⟩
    exact inOrder_mono hys (le_of_inOrder hxs) .refl
  | cons x xs ih =>
    simp only [List.cons_append, inOrder_cons, ih]
    grind

theorem inOrder_sublist (hxs : xs.Sublist ys) (h : inOrder start stop ys = true) :
    inOrder start stop xs = true := by
  induction hxs generalizing start with
  | slnil => exact h
  | cons y _ ih =>
    rw [inOrder_cons] at h
    exact ih (inOrder_mono h.2.2 (by omega) .refl)
  | cons_cons y _ ih =>
    rw [inOrder_cons] at h ⊢
    exact ⟨h.1, h.2.1, ih h.2.2⟩

theorem inOrder_flatMap {f : Tree → List Tree} (h : inOrder start stop xs = true)
    (hf : ∀ x ∈ xs, inOrder x.span.startOffset x.span.endOffset (f x) = true) :
    inOrder start stop (xs.flatMap f) = true := by
  induction xs generalizing start with
  | nil => exact h
  | cons x xs ih =>
    rw [inOrder_cons] at h
    rw [List.flatMap_cons, inOrder_append]
    refine ⟨x.span.endOffset, ?_, ih h.2.2 fun y hy => hf y (List.mem_cons_of_mem _ hy)⟩
    exact inOrder_mono (hf x (List.mem_cons_self ..)) h.1 .refl

theorem inOrder_upToLast (h : inOrder start stop xs = true) (hlast : xs.getLast? = some last) :
    inOrder start last.span.endOffset xs = true ∧ last.span.endOffset ≤ stop := by
  obtain ⟨before, rfl⟩ := List.getLast?_eq_some_iff.1 hlast
  obtain ⟨cut, hbefore, hcut⟩ := inOrder_append.1 h
  rw [inOrder_cons] at hcut
  refine ⟨inOrder_append.2 ⟨cut, hbefore, inOrder_cons.2 ⟨hcut.1, hcut.2.1, ?_⟩⟩,
    le_of_inOrder hcut.2.2⟩
  simp [inOrder]

theorem inOrder_tight (h : inOrder start stop xs = true) (hfirst : xs.head? = some first)
    (hlast : xs.getLast? = some last) :
    inOrder first.span.startOffset last.span.endOffset xs = true ∧
      start ≤ first.span.startOffset ∧ last.span.endOffset ≤ stop := by
  obtain ⟨hends, hstop⟩ := inOrder_upToLast h hlast
  refine ⟨?_, (bounds_of_inOrder h (List.mem_of_head? hfirst)).1, hstop⟩
  obtain ⟨rest, rfl⟩ := List.head?_eq_some_iff.1 hfirst
  rw [inOrder_cons] at hends ⊢
  exact ⟨.refl, hends.2⟩

theorem inOrder_singleton : inOrder start stop [x] = true ↔
    start ≤ x.span.startOffset ∧ x.span.startOffset ≤ x.span.endOffset ∧
      x.span.endOffset ≤ stop := by
  simp [inOrder, and_assoc]

theorem inOrder_head? (h : inOrder start stop xs = true) :
    inOrder start stop xs.head?.toList = true := by
  refine inOrder_sublist ?_ h
  cases xs <;> simp

theorem inOrder_getLast? (h : inOrder start stop xs = true) :
    inOrder start stop xs.getLast?.toList = true := by
  refine inOrder_sublist ?_ h
  cases hlast : xs.getLast? with
  | none => exact List.nil_sublist _
  | some last => exact List.singleton_sublist.2 (List.mem_of_getLast? hlast)

theorem inOrder_children (h : t.isNested = true) :
    inOrder t.span.startOffset t.span.endOffset t.children = true :=
  (isNested_iff.1 h).1

theorem inOrder_named (h : t.isNested = true) :
    inOrder t.span.startOffset t.span.endOffset t.named = true :=
  inOrder_sublist List.filter_sublist (inOrder_children h)

theorem inOrder_statements (h : t.isNested = true) :
    inOrder t.span.startOffset t.span.endOffset t.statements = true :=
  inOrder_sublist List.filter_sublist (inOrder_children h)

theorem inOrder_namedOf (kind : String) (h : t.isNested = true) :
    inOrder t.span.startOffset t.span.endOffset (t.namedOf kind) = true :=
  inOrder_sublist List.filter_sublist (inOrder_named h)

theorem inOrder_flatMap_named (h : inOrder start stop xs = true)
    (hxs : ∀ x ∈ xs, x.isNested = true) : inOrder start stop (xs.flatMap named) = true :=
  inOrder_flatMap h fun x hx => inOrder_named (hxs x hx)

theorem inOrder_of_isBelow (h : t.isNested = true) {tree : Option Tree}
    (htree : ∀ x ∈ tree, x.IsBelow t) :
    inOrder t.span.startOffset t.span.endOffset tree.toList = true := by
  cases tree with
  | none => exact inOrder_sublist (List.nil_sublist _) (inOrder_children h)
  | some x => exact inOrder_singleton.2 ((htree x rfl).isNested_and_within h).2

theorem IsBelow.preorder_subset (h : x.IsBelow t) : x.preorder ⊆ t.preorder := by
  induction h with
  | single hx =>
    intro y hy
    rw [preorder_eq]
    exact .tail _ (mem_preorderAll_of_mem hx hy)
  | tail _ hparent ih =>
    intro y hy
    rw [preorder_eq]
    exact .tail _ (mem_preorderAll_of_mem hparent (ih hy))

end CodeEvolution.Syntax.Tree
