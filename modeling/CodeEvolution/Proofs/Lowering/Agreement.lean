import CodeEvolution.Proofs.Lowering.Reading
import CodeEvolution.Proofs.Node.Uncommented
import CodeEvolution.Proofs.Syntax.Deletion
/-!
# Two lowerings side by side

Formatting a file and deleting comments from it are two ways to change a tree under the rules. In
both, a rule looks at corresponding nodes of two trees, hands them to the entry points and builds
corresponding nodes from the answers. An agreement says what corresponds to what, and which facts
about it the rules rely on. A rule agrees with its reading if it gives corresponding answers
wherever the reading is met.
-/
namespace CodeEvolution.Lowering

open Syntax (Tree Deletion)

variable {names : List String} {kind : NodeKind} {a b : Span} {x y : Option Tree}
  {test : Nat → Bool} {ms ns : List Node} {s t : Tree} {kinds : List String}
  {R : Tree → Tree → Prop} {view : String → String} {rules : RuleTable}
  {readings : List (String × Reading)} {otherwise : Rule}

/-! ## Paths past comments -/

namespace Path

/-- Where comments are deleted, the path leads to the nodes it led to before. -/
class Skips (kinds : List String) (path : Path) : Prop where
  leads (d : Deletion kinds) (t : Tree) :
    path.select (t.without d) = (path.select t).map (Tree.without d)

/-- Where comments are deleted, they are missing at the end of the path. -/
class Lists (kinds : List String) (path : Path) : Prop where
  leads (d : Deletion kinds) (t : Tree) :
    path.select (t.without d) = ((path.select t).filter d.keeps).map (Tree.without d)

/-- The path leads to the nodes it led to before if comments are no named children, or as long as
none of these nodes is deleted. -/
class Tracks (kinds : List String) (path : Path) : Prop where
  leads (d : Deletion kinds) (t : Tree) :
    named.Skips kinds ∨ (∀ x ∈ path.select t, d.keeps x = true) →
      path.select (t.without d) = (path.select t).map (Tree.without d)

theorem select_without (path : Path) [path.Skips kinds] (d : Deletion kinds) (t : Tree) :
    path.select (t.without d) = (path.select t).map (Tree.without d) :=
  Skips.leads d t

theorem toList_map {f : Tree → Tree} (x : Option Tree) : (x.map f).toList = x.toList.map f := by
  cases x <;> rfl

instance : here.Skips kinds := ⟨fun _ _ => rfl⟩

instance : tokens.Skips kinds := ⟨Tree.without_tokens⟩

instance (name : String) : (field name).Skips kinds :=
  ⟨fun d t => by simp [field, toList_map]⟩

instance [named.Skips kinds] (name : String) : (besides name).Skips kinds :=
  ⟨fun d t => by
    have hnamed : (t.without d).named = t.named.map (Tree.without d) := named.select_without d t
    simp [besides, hnamed, List.filter_map, Function.comp_def]⟩

section Skips

variable {path other : Path} [path.Skips kinds]

instance [other.Skips kinds] : (path / other).Skips kinds :=
  ⟨fun d t => by
    show (path.select (t.without d)).flatMap other.select =
      ((path.select t).flatMap other.select).map (Tree.without d)
    rw [path.select_without, List.flatMap_map, List.map_flatMap]
    exact List.flatMap_congr fun x _ => other.select_without d x⟩

instance (test : String → Bool) : (path.having test).Skips kinds :=
  ⟨fun d t => by simp [having, path.select_without, List.filter_map, Function.comp_def]⟩

instance [named.Skips kinds] (kind : String) : (namedOf kind).Skips kinds :=
  inferInstanceAs ((named.having (· == kind)).Skips kinds)

instance : path.first.Skips kinds :=
  ⟨fun d t => by simp [first, path.select_without, toList_map]⟩

instance : path.last.Skips kinds :=
  ⟨fun d t => by simp [last, path.select_without, toList_map]⟩

instance : path.rest.Skips kinds :=
  ⟨fun d t => by simp [rest, path.select_without]⟩

instance (index : Nat) : (path.nth index).Skips kinds :=
  ⟨fun d t => by simp [nth, path.select_without, toList_map]⟩

instance (test : Nat → Bool) : (path.hereIf test).Skips kinds :=
  ⟨fun d t => by
    simp only [hereIf, path.select_without, List.length_map]
    split <;> rfl⟩

instance (test : Nat → Bool) : (path.when test).Skips kinds :=
  ⟨fun d t => by
    simp only [when, path.select_without, List.length_map]
    split <;> rfl⟩

instance [other.Skips kinds] : (path.orElse other).Skips kinds :=
  ⟨fun d t => by
    simp only [orElse, path.select_without, other.select_without, List.length_map]
    split <;> rfl⟩

end Skips

section Lists

variable {path : Path}

instance : named.Lists kinds := ⟨Tree.without_named⟩

instance : statements.Lists kinds := ⟨Tree.without_statements⟩

variable [path.Lists kinds]

instance (test : String → Bool) : (path.having test).Lists kinds :=
  ⟨fun d t => by
    simp only [having, Lists.leads d t]
    exact Tree.filter_without (by simp)⟩

theorem skips_having {test : String → Bool} (htest : ∀ kind ∈ kinds, test kind = false) :
    (path.having test).Skips kinds := by
  refine ⟨fun d t => ?_⟩
  rw [Lists.leads d t, Tree.filter_keeps]
  intro x hx
  have hkind : test x.kind = true := (List.mem_filter.1 hx).2
  refine d.keeps_of_kind (Bool.eq_false_iff.2 fun hcomment => ?_)
  rw [htest x.kind (by simpa using hcomment)] at hkind
  cases hkind

theorem skips_namedOf {name : String} (hname : kinds.contains name = false) :
    (namedOf name).Skips kinds := by
  refine skips_having fun kind hkind => ?_
  rw [beq_eq_false_iff_ne]
  rintro rfl
  rw [List.contains_iff_mem.2 hkind] at hname
  cases hname

theorem tracks_first (h : named.Skips kinds → path.Skips kinds) : path.first.Tracks kinds := by
  refine ⟨fun d t hkept => ?_⟩
  rcases hkept with hskips | hkept
  · have := h hskips
    exact path.first.select_without d t
  · simp only [first, Lists.leads d t, ← toList_map] at hkept ⊢
    rw [Tree.head?_without fun x hx => hkept x (Option.mem_toList.2 hx)]

end Lists

instance {path : Path} [path.Skips kinds] : path.Tracks kinds :=
  ⟨fun d t _ => path.select_without d t⟩

instance : named.Tracks kinds :=
  ⟨fun d t hkept => hkept.elim (fun hskips => hskips.leads d t) fun hkept => by
    rw [Lists.leads d t, Tree.filter_keeps hkept]⟩

instance : named.first.Tracks kinds := tracks_first id

instance (test : String → Bool) : (named.having test).first.Tracks kinds :=
  tracks_first fun _ => inferInstance

instance {path other : Path} [path.Skips kinds] [other.Tracks kinds] :
    (path / other).Tracks kinds :=
  ⟨fun d t hkept => by
    show (path.select (t.without d)).flatMap other.select =
      ((path.select t).flatMap other.select).map (Tree.without d)
    rw [path.select_without, List.flatMap_map, List.map_flatMap]
    exact List.flatMap_congr fun x hx => Tracks.leads d x
      (hkept.imp_right fun hkept y hy => hkept y (List.mem_flatMap.2 ⟨x, hx, hy⟩))⟩

end Path

/-! ## Readings that take comments for code -/

namespace Reading

/-- No node that the reading takes for code is deleted. -/
def IsKept (d : Deletion kinds) (reading : Reading) (t : Tree) : Prop :=
  ∀ part ∈ reading, part.2.isCode = true → ∀ x ∈ part.1.select t, d.keeps x = true

/-- A comment that the reading is made of is taken for code. -/
class Takes (kinds : List String) (reading : Reading) : Prop where
  takes {x : Tree} : x.isCommentOf kinds = true →
    ∃ part ∈ reading, part.2.isCode = true ∧ x ∈ part.1.select x

theorem IsKept.keeps {d : Deletion kinds} {reading : Reading} [hreading : reading.Takes kinds]
    {x : Tree} (h : reading.IsKept d x) : d.keeps x = true := by
  rcases d.keeps_or_drops x with hkeeps | hdrops
  · exact hkeeps
  · obtain ⟨part, hpart, hcode, hx⟩ := hreading.takes (d.isComment hdrops)
    exact h part hpart hcode x hx

theorem takes_cases {reading : Reading} {use : Use}
    (hnames : ∀ kind ∈ kinds, names.contains kind = false) (hcode : use.isCode = true) :
    (onKind names reading ++ offKind names [(Path.here, use)]).Takes kinds where
  takes {x} hx := by
    have hkind : names.contains x.kind = false := hnames _ (Tree.kind_mem_of_isCommentOf hx)
    refine ⟨_, List.mem_append_right _ (List.mem_singleton_self _), hcode, ?_⟩
    exact List.mem_flatMap.2 ⟨x, by rw [Path.select_here_having (by rw [hkind]; rfl)]; simp,
      List.mem_singleton_self x⟩

end Reading

/-- The path leads to the nodes it led to before if comments are no named children, or as long as
nothing that is read at these nodes is deleted. -/
class Path.Guides (kinds : List String) (path : Path) (reading : Reading) : Prop where
  leads (d : Deletion kinds) (t : Tree) :
    Path.named.Skips kinds ∨ (∀ x ∈ path.select t, reading.IsKept d x) →
      path.select (t.without d) = (path.select t).map (Tree.without d)

instance {path : Path} {reading : Reading} [path.Skips kinds] : path.Guides kinds reading :=
  ⟨fun d t _ => path.select_without d t⟩

instance {path : Path} {reading : Reading} [path.Tracks kinds] [reading.Takes kinds] :
    path.Guides kinds reading :=
  ⟨fun d t h => Path.Tracks.leads d t (h.imp_right fun hkept x hx => (hkept x hx).keeps)⟩

/-! ## Agreements -/

instance : Fact (Use.expression.isCode = true) := ⟨rfl⟩

instance : Fact (Use.typeRef.isCode = true) := ⟨rfl⟩

instance : Fact (Use.text.isCode = true) := ⟨rfl⟩

instance : Fact (Use.collapsed.isCode = true) := ⟨rfl⟩

instance (test : String → Bool) : Fact ((Use.whether test).isCode = true) := ⟨rfl⟩

/-- What corresponds to what in two lowerings, and what the rules rely on. A comment may be missing
in a statement list and in a list that passes over comments, and nowhere else. -/
structure Agreement (kinds : List String) where
  calls : Calls
  calls' : Calls
  Nodes : Node → Node → Prop
  Answers {α β : Type} : (α → β → Prop) → Option α → Option β → Prop
  Uses : Use → Tree → Tree → Prop
  Meets : Reading → Tree → Tree → Prop
  node {kind : NodeKind} {a b : Span} {ms ns : List Node} :
    List.Forall₂ Nodes ms ns → Nodes ⟨kind, a, ms⟩ ⟨kind, b, ns⟩
  render_eq {m n : Node} : Nodes m n → m.render = n.render
  answer {α β : Type} {R : α → β → Prop} {a : α} {b : β} : R a b → Answers R (some a) (some b)
  bind {α β γ δ : Type} {R : α → β → Prop} {Q : γ → δ → Prop} {x : Option α} {y : Option β}
    {f : α → Option γ} {g : β → Option δ} :
    Answers R x y → (∀ a b, R a b → Answers Q (f a) (g b)) → Answers Q (x >>= f) (y >>= g)
  outcome {use : Use} {s t : Tree} : Uses use s t → use.Agrees calls calls' (Answers Nodes) s t
  change {s t : Tree} : Meets [] s t → s.Reformats t ∨ ∃ d : Deletion kinds, t = s.without d
  append {reading other : Reading} {s t : Tree} :
    Meets (reading ++ other) s t ↔ Meets reading s t ∧ Meets other s t
  use {path : Path} {use : Use} {s t : Tree} [path.Tracks kinds] [Fact (use.isCode = true)] :
    Meets [(path, use)] s t ↔ List.Forall₂ (Uses use) (path.select s) (path.select t) ∧ Meets [] s t
  here {use : Use} {s t : Tree} : Meets [(Path.here, use)] s t → Uses use s t
  own {path : Path} {test : Nat → Bool} {use : Use} {s t : Tree} :
    Meets [(path.hereIf test, use)] s t → test (path.select s).length = true → Uses use s t
  within {path : Path} {reading : Reading} {s t : Tree} [path.Guides kinds reading] :
    Meets (reading.within path) s t → List.Forall₂ (Meets reading) (path.select s) (path.select t)
  statements {path : Path} {use : Use} {kind : NodeKind} {a b : Span} {s t : Tree}
    [path.Lists kinds] : kind.isStatementList = true → use.isCode = false →
    Meets [(path, use)] s t →
      Answers Nodes (do return ⟨kind, a, ← (path.select s).mapM (calls.of use)⟩)
        (do return ⟨kind, b, ← (path.select t).mapM (calls'.of use)⟩)
  passing {reading : Reading} {s t : Tree} : Meets (reading.within Path.named) s t →
    ∃ keep : Tree → Bool, (∀ x, keep x = false → x.isCommentOf kinds = true) ∧
      List.Forall₂ (Meets reading) (s.named.filter keep) t.named

namespace Agreement

variable (k : Agreement kinds) {k : Agreement kinds} {reading other : Reading} {path : Path}
  {use : Use} {s t : Tree} {xs ys ss ts : List Tree} {m n : Node}

/-- A use of two nodes has corresponding outcomes. -/
abbrev Outcome (k : Agreement kinds) (use : Use) : Tree → Tree → Prop :=
  use.Agrees k.calls k.calls' (k.Answers k.Nodes)

section Answers

variable {kind : NodeKind} {a b : Span} {ms ns : List Node} {m₁ n₁ m₂ n₂ m₃ n₃ : Node}
  (h₁ : k.Nodes m₁ n₁) (h₂ : k.Nodes m₂ n₂) (h₃ : k.Nodes m₃ n₃)

theorem answers (h : List.Forall₂ k.Nodes ms ns) :
    k.Answers k.Nodes (some ⟨kind, a, ms⟩) (some ⟨kind, b, ns⟩) :=
  k.answer (k.node h)

include h₁

theorem unary : k.Answers k.Nodes (some ⟨kind, a, [m₁]⟩) (some ⟨kind, b, [n₁]⟩) :=
  k.answers (.cons h₁ .nil)

include h₂

theorem binary : k.Answers k.Nodes (some ⟨kind, a, [m₁, m₂]⟩) (some ⟨kind, b, [n₁, n₂]⟩) :=
  k.answers (.cons h₁ (.cons h₂ .nil))

include h₃

theorem ternary : k.Answers k.Nodes (some ⟨kind, a, [m₁, m₂, m₃]⟩) (some ⟨kind, b, [n₁, n₂, n₃]⟩) :=
  k.answers (.cons h₁ (.cons h₂ (.cons h₃ .nil)))

end Answers

theorem meets_append : k.Meets (reading ++ other) s t ↔ k.Meets reading s t ∧ k.Meets other s t :=
  k.append

theorem Meets.nil (h : k.Meets reading s t) : k.Meets [] s t :=
  (k.append.1 (show k.Meets ([] ++ reading) s t from h)).1

theorem meets_cons [path.Tracks kinds] [Fact (use.isCode = true)] :
    k.Meets ((path, use) :: reading) s t ↔
      List.Forall₂ (k.Uses use) (path.select s) (path.select t) ∧ k.Meets reading s t := by
  rw [← List.singleton_append, k.append, k.use, and_assoc]
  exact and_congr_right fun _ => and_iff_right_of_imp Meets.nil

theorem uses_here : List.Forall₂ (k.Uses use) (Path.here.select s) (Path.here.select t) ↔
    k.Uses use s t := by
  simp [Path.here]

namespace Meets

theorem kind_eq (h : k.Meets reading s t) : s.kind = t.kind := by
  obtain hst | ⟨d, rfl⟩ := k.change h.nil
  · exact hst.kind_eq
  · exact (Tree.without_kind d s).symm

theorem hasToken_eq (h : k.Meets reading s t) (token : String) :
    s.hasToken token = t.hasToken token := by
  obtain hst | ⟨d, rfl⟩ := k.change h.nil
  · exact hst.hasToken_eq token
  · exact (Tree.without_hasToken d s token).symm

theorem here (h : k.Meets [(Path.here, use)] s t) : k.Outcome use s t :=
  k.outcome (k.here h)

theorem own (h : k.Meets ((path.hereIf test, use) :: reading) s t)
    (htest : test (path.select s).length = true) : k.Outcome use s t :=
  k.outcome (k.own (k.append.1 (List.singleton_append (l := reading) ▸ h)).1 htest)

theorem of_within [path.Guides kinds reading] (h : k.Meets (reading.within path) s t) :
    List.Forall₂ (k.Meets reading) (path.select s) (path.select t) :=
  k.within h

theorem follows (h : k.Meets reading s t) (path : Path) [path.Skips kinds] :
    List.Forall₂ (k.Meets []) (path.select s) (path.select t) :=
  k.within (show k.Meets (Reading.within path []) s t from h.nil)

theorem named [Path.named.Skips kinds] (h : k.Meets reading s t) :
    List.Forall₂ (k.Meets []) s.named t.named :=
  h.follows Path.named

theorem of_hereIf [path.Skips kinds] (hst : k.Meets reading s t)
    (h : List.Forall₂ (k.Uses use) ((path.hereIf test).select s) ((path.hereIf test).select t))
    (htest : test (path.select s).length = true) : k.Outcome use s t :=
  k.outcome (Path.rel_of_hereIf h (hst.follows path).length_eq htest)

theorem of_when [path.Skips kinds] (hst : k.Meets reading s t)
    (h : List.Forall₂ R ((path.when test).select s) ((path.when test).select t))
    (htest : test (path.select s).length = true) : List.Forall₂ R (path.select s) (path.select t) :=
  Path.rel_of_when h (hst.follows path).length_eq htest

theorem of_within_having {test : String → Bool}
    (h : k.Meets (reading.within (Path.here.having test)) s t) (htest : test s.kind = true) :
    k.Meets reading s t := by
  have hboth := h.of_within
  rw [Path.select_here_having htest, Path.select_here_having (h.kind_eq ▸ htest)] at hboth
  exact (List.forall₂_cons.1 hboth).1

theorem of_onKind (h : k.Meets (reading.onKind names) s t) (hkind : names.contains s.kind = true) :
    k.Meets reading s t :=
  h.of_within_having hkind

theorem of_offKind (h : k.Meets (reading.offKind names) s t)
    (hkind : names.contains s.kind = false) :
    k.Meets reading s t :=
  h.of_within_having (by rw [hkind]; rfl)

theorem here_of_onKind (h : k.Meets (Reading.onKind names [(Path.here, use)]) s t)
    (hkind : names.contains s.kind = true) : k.Outcome use s t :=
  (h.of_onKind hkind).here

theorem here_of_offKind (h : k.Meets (Reading.offKind names [(Path.here, use)]) s t)
    (hkind : names.contains s.kind = false) : k.Outcome use s t :=
  (h.of_offKind hkind).here

end Meets

/-! ## The parts of rules -/

theorem leaf : k.Nodes ⟨kind, a, []⟩ ⟨kind, b, []⟩ :=
  k.node .nil

theorem of_kind_eq {kind' : NodeKind} (hkind : kind = kind') (h : List.Forall₂ k.Nodes ms ns) :
    k.Nodes ⟨kind, a, ms⟩ ⟨kind', b, ns⟩ := by
  rw [hkind]
  exact k.node h

theorem mapM {α β γ δ : Type} {Q : γ → δ → Prop} {xs : List α} {ys : List β} {f : α → Option γ}
    {g : β → Option δ} (h : List.Forall₂ (fun x y => k.Answers Q (f x) (g y)) xs ys) :
    k.Answers (List.Forall₂ Q) (xs.mapM f) (ys.mapM g) := by
  induction h with
  | nil => exact k.answer .nil
  | cons hxy _ ih =>
    rw [List.mapM_cons, List.mapM_cons]
    exact k.bind hxy fun a b hab => k.bind ih fun _ _ hrest => k.answer (.cons hab hrest)

theorem expressions (h : List.Forall₂ (k.Uses .expression) xs ys) :
    k.Answers (List.Forall₂ k.Nodes) (xs.mapM k.calls.expression) (ys.mapM k.calls'.expression) :=
  k.mapM (h.imp fun _ _ hxy => k.outcome hxy)

theorem types (h : List.Forall₂ (k.Uses .typeRef) xs ys) :
    k.Answers (List.Forall₂ k.Nodes) (xs.mapM k.calls.typeRef) (ys.mapM k.calls'.typeRef) :=
  k.mapM (h.imp fun _ _ hxy => k.outcome hxy)

theorem slot {call call' : Tree → Option Node}
    (h : Option.Rel (fun s t => k.Answers k.Nodes (call s) (call' t)) x y) (hmn : k.Nodes m n) :
    k.Answers k.Nodes (Lowering.slot call x m) (Lowering.slot call' y n) := by
  cases h with
  | none => exact k.answer hmn
  | some hst => exact hst

theorem expressionSlot (h : List.Forall₂ (k.Uses .expression) x.toList y.toList) :
    k.Answers k.Nodes (Lowering.slot k.calls.expression x ⟨kind, a, []⟩)
      (Lowering.slot k.calls'.expression y ⟨kind, b, []⟩) :=
  k.slot (rel_toList_iff.1 (h.imp fun _ _ hxy => k.outcome hxy)) k.leaf

theorem typeSlot (h : List.Forall₂ (k.Uses .typeRef) x.toList y.toList) :
    k.Answers k.Nodes (Lowering.slot k.calls.typeRef x ⟨kind, a, []⟩)
      (Lowering.slot k.calls'.typeRef y ⟨kind, b, []⟩) :=
  k.slot (rel_toList_iff.1 (h.imp fun _ _ hxy => k.outcome hxy)) k.leaf

theorem spanning (htrees : List.Forall₂ R ss ts) (hnodes : List.Forall₂ k.Nodes ms ns)
    (hmn : k.Nodes m n) :
    k.Nodes (Lowering.spanning kind ss ms m) (Lowering.spanning kind ts ns n) := by
  rw [Lowering.spanning, Lowering.spanning]
  cases htrees with
  | nil => exact hmn
  | cons hst hrest =>
    rw [List.head?_cons, List.head?_cons, List.getLast?_cons, List.getLast?_cons]
    exact k.node hnodes

theorem otherNode (hst : k.Meets reading s t) (htext : k.Outcome .collapsed s t)
    (hnodes : List.Forall₂ k.Nodes ms ns) :
    k.Nodes (Lowering.otherNode s ms) (Lowering.otherNode t ns) := by
  have hcollapsed : s.collapsed = t.collapsed := htext
  rw [Lowering.otherNode, Lowering.otherNode, hst.kind_eq, hcollapsed]
  exact k.node hnodes

theorem map_text_eq (h : List.Forall₂ (k.Uses (.source view)) ss ts) :
    ss.map (fun tree => view tree.text) = ts.map fun tree => view tree.text :=
  map_eq_of_rel h fun _ _ hst => k.outcome hst

theorem option_map_text_eq (h : List.Forall₂ (k.Uses (.source view)) x.toList y.toList) :
    x.map (fun tree => view tree.text) = y.map fun tree => view tree.text := by
  cases rel_toList_iff.1 h with
  | none => rfl
  | some hst => exact congrArg some (k.outcome hst)

theorem fieldText_eq {name : String}
    (h : List.Forall₂ (k.Uses .text) ((Path.field name).select s) ((Path.field name).select t)) :
    s.fieldText name = t.fieldText name :=
  congrArg (Option.getD · "") (option_map_text_eq h)

/-- Where the first named child is read, or the node itself for want of one, two nodes have no
such child and the node is met, or have one each and the children are met. -/
theorem first_or_own {P : Tree → Tree → Prop}
    (h : k.Meets ((Path.named.hereIf (· == 0), use) :: reading) s t)
    (hfirst : List.Forall₂ P (Path.named.first.select s) (Path.named.first.select t)) :
    (s.named.head? = none ∧ t.named.head? = none ∧ k.Outcome use s t) ∨
      ∃ c d, s.named.head? = some c ∧ t.named.head? = some d ∧ P c d := by
  have hfirst : Option.Rel P s.named.head? t.named.head? := rel_toList_iff.1 hfirst
  have hown (hnone : s.named.head? = none) : k.Outcome use s t :=
    h.own (by simpa [Path.named] using hnone)
  generalize s.named.head? = x at hfirst hown ⊢
  generalize t.named.head? = y at hfirst ⊢
  cases hfirst with
  | none => exact .inl ⟨rfl, rfl, hown rfl⟩
  | some hcd => exact .inr ⟨_, _, rfl, rfl, hcd⟩

theorem mapM_flatten_cons (f : Tree → Option (List Node)) (x : Tree) (rest : List Tree) :
    (do return (← (x :: rest).mapM f).flatten) = do
      let first ← f x
      let others ← (do return (← rest.mapM f).flatten)
      return first ++ others := by
  rw [List.mapM_cons]
  simp only [bind_assoc, pure_bind, List.flatten_cons]

theorem mapM_flatten_filter {f : Tree → Option (List Node)} {keep : Tree → Bool}
    (h : ∀ x, keep x = false → f x = some []) (trees : List Tree) :
    (do return (← (trees.filter keep).mapM f).flatten) =
      (do return (← trees.mapM f).flatten : Option (List Node)) := by
  induction trees with
  | nil => rfl
  | cons x rest ih =>
    rw [List.filter_cons, mapM_flatten_cons]
    cases hkeep : keep x with
    | true => rw [if_pos rfl, mapM_flatten_cons, ih]
    | false => simpa [h x hkeep] using ih

/-- A list of nodes read child by child may pass over comments. -/
theorem flatten {f g : Tree → Option (List Node)} (h : k.Meets (reading.within Path.named) s t)
    (hparts : ∀ c d, k.Meets reading c d → k.Answers (List.Forall₂ k.Nodes) (f c) (g d))
    (hcomment : ∀ x : Tree, x.isCommentOf kinds = true → f x = some []) :
    k.Answers (List.Forall₂ k.Nodes) (do return (← s.named.mapM f).flatten)
      (do return (← t.named.mapM g).flatten) := by
  obtain ⟨keep, hkeep, hpairs⟩ := k.passing h
  rw [← mapM_flatten_filter fun x hx => hcomment x (hkeep x hx)]
  exact k.bind (k.mapM (hpairs.imp hparts)) fun _ _ hlists => k.answer (List.rel_flatten hlists)

theorem flatMap_eq {α : Type} {f : Tree → List α} (h : k.Meets (reading.within Path.named) s t)
    (hparts : ∀ c d, k.Meets reading c d → f c = f d)
    (hcomment : ∀ x : Tree, x.isCommentOf kinds = true → f x = []) :
    s.named.flatMap f = t.named.flatMap f := by
  obtain ⟨keep, hkeep, hpairs⟩ := k.passing h
  rw [← flatMap_eq_of_rel hpairs hparts]
  induction s.named with
  | nil => rfl
  | cons x rest ih =>
    rw [List.filter_cons, List.flatMap_cons, ih]
    cases hx : keep x with
    | true => rfl
    | false => rw [hcomment x (hkeep x hx)]; rfl

/-- Trees are formatted in two ways and lowered by the same calls. -/
def reformatting (calls : Calls) : Agreement kinds where
  calls := calls
  calls' := calls
  Nodes := Node.Same
  Answers := Option.Rel
  Uses := Use.Meets calls
  Meets := Reading.Meets calls
  node := Node.Same.of_children
  render_eq := Node.Same.render_eq
  answer := .some
  bind := rel_bind
  outcome := id
  change h := .inl (Reading.meets_nil.1 h)
  append := Reading.meets_append
  use := Reading.meets_cons
  here h := Reading.meets_here.1 (Reading.meets_cons.1 h).1
  own {path _ _ _ _} h htest :=
    Path.rel_of_hereIf (Reading.meets_cons.1 h).1 (path.respects h.1).length_eq htest
  within := Reading.Meets.of_within
  statements _ hcode h := by
    refine rel_bind (rel_mapM ?_) fun _ _ hnodes => .some (Node.Same.of_children hnodes)
    exact (Reading.meets_cons.1 h).1.imp fun _ _ hxy => hxy.of_isCode hcode
  passing {_ s _} h := by
    refine ⟨fun _ => true, by simp, ?_⟩
    rw [List.filter_true]
    exact h.of_within

end Agreement

/-! ## Rules -/

/-- The rule gives corresponding answers wherever its reading is met. -/
def Agrees (kinds : List String) (rule : Rule) (reading : Reading) : Prop :=
  ∀ (k : Agreement kinds) (s t : Tree), k.Meets reading s t →
    k.Answers k.Nodes (rule k.calls s) (rule k.calls' t)

theorem Agreement.text_eq {k : Agreement kinds} (h : k.Meets textReading s t) : s.text = t.text :=
  Agreement.Meets.here h

theorem agrees_nameNode : Agrees kinds (fun _ tree => some (nameNode tree)) textReading := by
  intro k s t h
  simp only [nameNode, Agreement.text_eq h]
  exact k.answer k.leaf

theorem agrees_literalNode (sort : LiteralSort) :
    Agrees kinds (fun _ tree => some (literalNode sort tree)) textReading := by
  intro k s t h
  simp only [literalNode, Agreement.text_eq h]
  exact k.answer k.leaf

theorem agrees_commentNode : Agrees kinds (fun _ tree => some (commentNode tree)) textReading := by
  intro k s t h
  simp only [commentNode, Agreement.text_eq h]
  exact k.answer k.leaf

theorem agrees_leaf (kind : NodeKind) :
    Agrees kinds (fun _ tree => some (nodeOf kind tree [])) [] :=
  fun k _ _ _ => k.answer k.leaf

/-- What holds of a rule and its reading, entry by entry, holds of the rule and the reading looked
up in two tables. -/
theorem RuleTable.lookup_cases {P : Rule → Reading → Prop} {rest : Reading} {kind : String}
    (hrules : List.Forall₂ (fun rule reading => rule.1 = reading.1 ∧ P rule.2 reading.2)
      rules readings)
    (hother : P otherwise rest) :
    P ((rules.lookup kind).getD otherwise) ((readings.lookup kind).getD rest) := by
  induction hrules with
  | nil => exact hother
  | @cons rule reading _ _ hhead _ ih =>
    obtain ⟨name, rule⟩ := rule
    obtain ⟨name', reading⟩ := reading
    obtain ⟨rfl, hhead⟩ := hhead
    rw [List.lookup_cons, List.lookup_cons]
    cases hkind : kind == name with
    | true => exact hhead
    | false => exact ih

theorem Agreement.apply {k : Agreement kinds} {rest : Reading}
    (hrules : List.Forall₂ (fun rule reading => rule.1 = reading.1 ∧ Agrees kinds rule.2 reading.2)
      rules readings)
    (hother : k.Meets rest s t → k.Answers k.Nodes (otherwise k.calls s) (otherwise k.calls' t))
    (h : k.Meets ((readings.lookup s.kind).getD rest) s t) :
    k.Answers k.Nodes (rules.apply otherwise k.calls s) (rules.apply otherwise k.calls' t) := by
  rw [RuleTable.apply, RuleTable.apply, ← h.kind_eq]
  exact RuleTable.lookup_cases (P := fun rule reading => k.Meets reading s t →
    k.Answers k.Nodes (rule k.calls s) (rule k.calls' t))
    (hrules.imp fun _ _ hrule => ⟨hrule.1, hrule.2 k s t⟩) hother h

/-! ## Rules of both languages -/

open Lowering.Path
open Agreement (meets_cons uses_here fieldText_eq)

def binaryReading : Reading :=
  [(field "left", .expression), (field "right", .expression), (field "operator", .text)]

theorem agrees_binary : Agrees kinds binary binaryReading := by
  intro k s t h
  simp only [binaryReading, meets_cons] at h
  obtain ⟨hleft, hright, hoperator, -⟩ := h
  refine k.bind (k.expressionSlot hleft) fun _ _ hleft => ?_
  refine k.bind (k.expressionSlot hright) fun _ _ hright => ?_
  rw [fieldText_eq hoperator]
  exact k.binary hleft hright

theorem agrees_parenthesized : Agrees kinds parenthesized [(named.first, .expression)] := by
  intro k s t h
  exact k.bind (k.expressionSlot (meets_cons.1 h).1) fun _ _ hinner => k.unary hinner

def otherReading : Reading :=
  [(here, .collapsed), (named, .expression)]

theorem agrees_otherExpression : Agrees kinds otherExpression otherReading := by
  intro k s t h
  simp only [otherReading, meets_cons, uses_here] at h
  exact k.bind (k.expressions h.2.1) fun _ _ hparts =>
    k.answer (k.otherNode h.2.2 (k.outcome h.1) hparts)

theorem rel_asserting {k : Agreement kinds}
    (htest : List.Forall₂ (k.Uses .expression) ((named.nth 0).select s) ((named.nth 0).select t))
    (hmessage : List.Forall₂ (k.Uses .expression) ((named.nth 1).select s)
      ((named.nth 1).select t)) :
    k.Answers k.Nodes (asserting k.calls s) (asserting k.calls' t) := by
  refine k.bind (k.expressionSlot htest) fun _ _ htest => ?_
  refine k.bind (k.expressionSlot hmessage) fun _ _ hmessage => ?_
  exact k.binary htest hmessage

end CodeEvolution.Lowering
