import CodeEvolution.Syntax.Tree
import Mathlib.Data.List.Forall2
/-!
# Reformatted syntax trees

Reformatting a file moves its tokens and leaves the tokens alone. Two trees are reformattings of
one another if they have the same nodes with the same kinds, flags and fields, the same texts
where a node has no children, and the same children that share a range of bytes. The texts of
nodes with children may differ in any way. Whatever picks children by kind, flag, field, position
or range picks corresponding children in both.
-/
namespace CodeEvolution

/-! ## Corresponding members of lists -/

section Corresponding

variable {α β : Type} {R : α → β → Prop} {xs : List α} {ys : List β} {p : α → Bool} {q : β → Bool}
  {x : Option α} {y : Option β}

theorem rel_toList_iff : List.Forall₂ R x.toList y.toList ↔ Option.Rel R x y := by
  constructor
  · intro h
    cases x <;> cases y <;> cases h
    · exact .none
    · exact .some ‹R _ _›
  · rintro (h | _)
    · exact .cons h .nil
    · exact .nil

theorem rel_or {x' : Option α} {y' : Option β} (h : Option.Rel R x y) (h' : Option.Rel R x' y') :
    Option.Rel R (x.or x') (y.or y') := by
  cases h with
  | none => exact h'
  | some hxy => exact .some hxy

theorem rel_getD {a : α} {b : β} (h : Option.Rel R x y) (hab : R a b) :
    R (x.getD a) (y.getD b) := by
  cases h with
  | none => exact hab
  | some hxy => exact hxy

section

variable (h : List.Forall₂ R xs ys)

include h

theorem rel_getElem? (i : Nat) : Option.Rel R xs[i]? ys[i]? := by
  induction h generalizing i with
  | nil => exact .none
  | cons hxy _ ih =>
    cases i with
    | zero => exact .some hxy
    | succ i => simpa only [List.getElem?_cons_succ] using ih i

theorem rel_head? : Option.Rel R xs.head? ys.head? := by
  simpa only [List.head?_eq_getElem?] using rel_getElem? h 0

theorem rel_getLast? : Option.Rel R xs.getLast? ys.getLast? := by
  rw [List.getLast?_eq_getElem?, List.getLast?_eq_getElem?, h.length_eq]
  exact rel_getElem? h _

theorem rel_filter (hpq : ∀ x y, R x y → p x = q y) : List.Forall₂ R (xs.filter p) (ys.filter q) :=
  List.rel_filter (fun x y hxy => Bool.eq_iff_iff.1 (hpq x y hxy)) h

theorem rel_filter_and (hpq : ∀ x y, R x y → p x = q y) :
    List.Forall₂ (fun x y => R x y ∧ p x = true) (xs.filter p) (ys.filter q) := by
  have hfiltered := rel_filter h hpq
  rw [List.forall₂_iff_zip] at hfiltered ⊢
  refine ⟨hfiltered.1, fun hxy => ⟨hfiltered.2 hxy, ?_⟩⟩
  exact (List.mem_filter.1 (List.of_mem_zip hxy).1).2

theorem rel_find? (hpq : ∀ x y, R x y → p x = q y) : Option.Rel R (xs.find? p) (ys.find? q) := by
  simpa only [List.head?_filter] using rel_head? (rel_filter h hpq)

theorem any_eq_of_rel (hpq : ∀ x y, R x y → p x = q y) : xs.any p = ys.any q := by
  induction h with
  | nil => rfl
  | cons hxy _ ih => rw [List.any_cons, List.any_cons, hpq _ _ hxy, ih]

theorem map_eq_of_rel {γ : Type} {f : α → γ} {g : β → γ}
    (hfg : ∀ x y, R x y → f x = g y) : xs.map f = ys.map g := by
  induction h with
  | nil => rfl
  | cons hxy _ ih => rw [List.map_cons, List.map_cons, hfg _ _ hxy, ih]

theorem flatMap_eq_of_rel {γ : Type} {f : α → List γ} {g : β → List γ}
    (hfg : ∀ x y, R x y → f x = g y) : xs.flatMap f = ys.flatMap g := by
  rw [List.flatMap, List.flatMap, map_eq_of_rel h hfg]

theorem rel_and {P : α → β → Prop} (h' : List.Forall₂ P xs ys) :
    List.Forall₂ (fun x y => R x y ∧ P x y) xs ys := by
  rw [List.forall₂_iff_zip] at h h' ⊢
  exact ⟨h.1, fun hxy => ⟨h.2 hxy, h'.2 hxy⟩⟩

theorem rel_and_mem_zip : List.Forall₂ (fun x y => R x y ∧ (x, y) ∈ xs.zip ys) xs ys := by
  rw [List.forall₂_iff_zip] at h ⊢
  exact ⟨h.1, fun hmem => ⟨h.2 hmem, hmem⟩⟩

end

theorem length_flatMap_eq_of_rel {γ δ : Type} {f : α → List γ} {g : β → List δ}
    (h : List.Forall₂ (fun x y => (f x).length = (g y).length) xs ys) :
    (xs.flatMap f).length = (ys.flatMap g).length := by
  induction h with
  | nil => rfl
  | cons hxy _ ih =>
    rw [List.flatMap_cons, List.flatMap_cons, List.length_append, List.length_append, hxy, ih]

theorem rel_of_flatMap {γ δ : Type} {P : γ → δ → Prop} {f : α → List γ} {g : β → List δ}
    (hlength : List.Forall₂ (fun x y => (f x).length = (g y).length) xs ys)
    (h : List.Forall₂ P (xs.flatMap f) (ys.flatMap g)) :
    List.Forall₂ (fun x y => List.Forall₂ P (f x) (g y)) xs ys := by
  induction hlength with
  | nil => exact .nil
  | @cons x y xs ys hxy _ ih =>
    rw [List.flatMap_cons, List.flatMap_cons] at h
    have hhead := List.forall₂_take (f x).length h
    have htail := List.forall₂_drop (f x).length h
    rw [List.take_left, hxy, List.take_left] at hhead
    rw [List.drop_left, hxy, List.drop_left] at htail
    exact .cons hhead (ih htail)

end Corresponding

namespace Syntax.Tree

/-! ## The relation -/

/-- Which trees of a list cover the same bytes as which. -/
def ranges (trees : List Tree) : List (List Bool) :=
  trees.map fun tree => trees.map tree.sameRange

mutual

/-- Whether two trees differ only in spans and in the texts of nodes with children. -/
def reformats : Tree → Tree → Bool
  | ⟨kind, isNamed, isMissing, _, text, fields, children⟩,
    ⟨kind', isNamed', isMissing', _, text', fields', children'⟩ =>
    kind == kind' && isNamed == isNamed' && isMissing == isMissing' && fields == fields' &&
      (!children.isEmpty || text == text') && ranges children == ranges children' &&
      reformatsAll children children'

def reformatsAll : List Tree → List Tree → Bool
  | [], [] => true
  | s :: ss, t :: ts => reformats s t && reformatsAll ss ts
  | _, _ => false

end

def Reformats (s t : Tree) : Prop :=
  s.reformats t = true

theorem forall₂_of_reformatsAll : {ss ts : List Tree} → reformatsAll ss ts = true →
    List.Forall₂ Reformats ss ts
  | [], [], _ => .nil
  | s :: ss, t :: ts, h => by
    rw [reformatsAll, Bool.and_eq_true] at h
    exact .cons h.1 (forall₂_of_reformatsAll h.2)
  | [], _ :: _, h => by simp [reformatsAll] at h
  | _ :: _, [], h => by simp [reformatsAll] at h

namespace Reformats

variable {s t : Tree} (h : s.Reformats t)

include h

theorem fields_agree :
    (s.kind = t.kind ∧ s.isNamed = t.isNamed ∧ s.fields = t.fields) ∧
      (s.children = [] → s.text = t.text) ∧ ranges s.children = ranges t.children ∧
      List.Forall₂ Reformats s.children t.children := by
  obtain ⟨kind, isNamed, isMissing, span, text, fields, children⟩ := s
  obtain ⟨kind', isNamed', isMissing', span', text', fields', children'⟩ := t
  simp only [Reformats, reformats, Bool.and_eq_true, Bool.or_eq_true, beq_iff_eq,
    Bool.not_eq_true', List.isEmpty_eq_false_iff] at h
  obtain ⟨⟨⟨⟨⟨⟨hkind, hnamed⟩, -⟩, hfields⟩, htext⟩, hranges⟩, hchildren⟩ := h
  refine ⟨⟨hkind, hnamed, hfields⟩, ?_, hranges, forall₂_of_reformatsAll hchildren⟩
  intro hnil
  exact htext.resolve_left (not_not_intro hnil)

theorem kind_eq : s.kind = t.kind :=
  h.fields_agree.1.1

theorem isNamed_eq : s.isNamed = t.isNamed :=
  h.fields_agree.1.2.1

theorem fields_eq : s.fields = t.fields :=
  h.fields_agree.1.2.2

theorem text_eq (hnil : s.children = []) : s.text = t.text :=
  h.fields_agree.2.1 hnil

theorem children : List.Forall₂ Reformats s.children t.children :=
  h.fields_agree.2.2.2

/-! ## What is picked from both -/

theorem named : List.Forall₂ Reformats s.named t.named :=
  rel_filter h.children fun c d hcd => by rw [hcd.isNamed_eq, hcd.kind_eq]

theorem statements : List.Forall₂ Reformats s.statements t.statements :=
  rel_filter h.children fun _ _ hcd => hcd.isNamed_eq

theorem tokens :
    List.Forall₂ Reformats (s.children.filter fun child => !child.isNamed)
      (t.children.filter fun child => !child.isNamed) :=
  rel_filter h.children fun c d hcd => by rw [hcd.isNamed_eq]

theorem field? (name : String) : Option.Rel Reformats (s.field? name) (t.field? name) :=
  rel_find? h.children fun c d hcd => by rw [hcd.fields_eq]

theorem hasToken_eq (token : String) : s.hasToken token = t.hasToken token :=
  any_eq_of_rel h.children fun c d hcd => by rw [hcd.isNamed_eq, hcd.kind_eq]

theorem sameRange_eq {c c' d d' : Tree}
    (hc : (c, d) ∈ s.children.zip t.children) (hc' : (c', d') ∈ s.children.zip t.children) :
    c.sameRange c' = d.sameRange d' := by
  obtain ⟨i, hi⟩ := List.mem_iff_getElem?.1 hc
  obtain ⟨j, hj⟩ := List.mem_iff_getElem?.1 hc'
  rw [List.getElem?_zip_eq_some] at hi hj
  have hrows : (ranges s.children)[i]? = (ranges t.children)[i]? := by rw [h.fields_agree.2.2.1]
  simp only [ranges, List.getElem?_map, hi.1, hi.2, Option.map_some, Option.some.injEq] at hrows
  have hentry : (s.children.map c.sameRange)[j]? = (t.children.map d.sameRange)[j]? := by
    rw [hrows]
  simpa only [List.getElem?_map, hj.1, hj.2, Option.map_some, Option.some.injEq] using hentry

theorem besides (name : String) :
    List.Forall₂ Reformats (s.named.filter fun child => !child.sameRangeAs (s.field? name))
      (t.named.filter fun child => !child.sameRangeAs (t.field? name)) := by
  have hpaired := rel_and_mem_zip h.children
  have hnamed := rel_filter (p := fun child => child.isNamed && child.kind != "comment")
    (q := fun child => child.isNamed && child.kind != "comment") hpaired
    fun c d hcd => by rw [hcd.1.isNamed_eq, hcd.1.kind_eq]
  have hfield : Option.Rel (fun c d => Reformats c d ∧ (c, d) ∈ s.children.zip t.children)
      (s.field? name) (t.field? name) :=
    rel_find? hpaired fun c d hcd => by rw [hcd.1.fields_eq]
  refine (rel_filter hnamed fun c d hcd => ?_).imp fun _ _ hcd => hcd.1
  generalize s.field? name = x at hfield
  generalize t.field? name = y at hfield
  cases hfield with
  | none => rfl
  | some hxy => rw [sameRangeAs, sameRangeAs, h.sameRange_eq hcd.2 hxy.2]

end Reformats

mutual

theorem depth_eq_of_reformats : (s t : Tree) → s.reformats t = true → s.depth = t.depth
  | ⟨_, _, _, _, _, _, children⟩, ⟨_, _, _, _, _, _, children'⟩, h => by
    rw [reformats, Bool.and_eq_true] at h
    rw [depth, depth, depthAll_eq_of_reformatsAll children children' h.2]

theorem depthAll_eq_of_reformatsAll : (ss ts : List Tree) → reformatsAll ss ts = true →
    depthAll ss = depthAll ts
  | [], [], _ => rfl
  | s :: ss, t :: ts, h => by
    rw [reformatsAll, Bool.and_eq_true] at h
    rw [depthAll, depthAll, depth_eq_of_reformats s t h.1, depthAll_eq_of_reformatsAll ss ts h.2]
  | [], _ :: _, h => by simp [reformatsAll] at h
  | _ :: _, [], h => by simp [reformatsAll] at h

end

end Syntax.Tree

end CodeEvolution
