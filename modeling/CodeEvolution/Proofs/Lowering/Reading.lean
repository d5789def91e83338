import CodeEvolution.Lowering.Basic
import CodeEvolution.Proofs.Lowering.Reformatting
import CodeEvolution.Proofs.Node.Spanless
/-!
# What the lowering reads

A rule hands nodes below its own to the entry points of the lowering and takes the texts of other
nodes over. Its reading says which: it lists paths from the node with the use that the rule makes
of the nodes at their ends. Paths pick nodes by structure alone, so in two reformattings of one
tree they lead to corresponding nodes. A rule respects its reading if, on two such trees, it
builds the same node but for spans whenever all listed nodes are used with the same outcome.

Following the readings through a whole tree gives the texts of nodes with children that the
lowering takes over. If every rule respects its reading, two reformattings of one tree from which
the same texts are taken over are lowered to the same tree but for spans.
-/
namespace CodeEvolution.Lowering

open Syntax (Tree)

variable {s t tree : Tree} {calls calls' : Calls} {test : String → Bool} {R : Tree → Tree → Prop}
  (name : String)

/-! ## Paths -/

/-- A way from a node to nodes at or below it that formatting does not affect. -/
structure Path where
  select : Tree → List Tree
  respects {s t : Tree} : s.Reformats t → List.Forall₂ Tree.Reformats (select s) (select t)

variable {path : Path}

namespace Path

def here : Path :=
  ⟨fun tree => [tree], fun h => .cons h .nil⟩

def named : Path :=
  ⟨Tree.named, fun h => h.named⟩

def statements : Path :=
  ⟨Tree.statements, fun h => h.statements⟩

def tokens : Path :=
  ⟨fun tree => tree.children.filter fun child => !child.isNamed, fun h => h.tokens⟩

def field (name : String) : Path :=
  ⟨fun tree => (tree.field? name).toList, fun h => rel_toList_iff.2 (h.field? name)⟩

/-- The named children that do not cover the bytes of the child under a field. -/
def besides (name : String) : Path :=
  ⟨fun tree => tree.named.filter fun child => !child.sameRangeAs (tree.field? name),
    fun h => h.besides name⟩

def andThen (first second : Path) : Path :=
  ⟨fun tree => (first.select tree).flatMap second.select,
    fun h => List.rel_flatMap (first.respects h) fun _ _ hcd => second.respects hcd⟩

instance : Div Path := ⟨andThen⟩

def having (path : Path) (test : String → Bool) : Path :=
  ⟨fun tree => (path.select tree).filter fun node => test node.kind,
    fun h => rel_filter (path.respects h) fun c d hcd => by rw [hcd.kind_eq]⟩

def namedOf (kind : String) : Path :=
  named.having (· == kind)

theorem select_here_having (h : test tree.kind = true) :
    (here.having test).select tree = [tree] := by
  show [tree].filter (fun node => test node.kind) = [tree]
  rw [List.filter_cons, if_pos h, List.filter_nil]

def first (path : Path) : Path :=
  ⟨fun tree => (path.select tree).head?.toList,
    fun h => rel_toList_iff.2 (rel_head? (path.respects h))⟩

theorem select_first_having (test : String → Bool) (tree : Tree) :
    (named.having test).first.select tree =
      (tree.named.find? fun part => test part.kind).toList := by
  rw [← List.head?_filter]
  rfl

theorem select_first_besides (tree : Tree) :
    (besides name).first.select tree =
      (tree.named.find? fun child => !child.sameRangeAs (tree.field? name)).toList := by
  rw [← List.head?_filter]
  rfl

def nth (path : Path) (index : Nat) : Path :=
  ⟨fun tree => (path.select tree)[index]?.toList,
    fun h => rel_toList_iff.2 (rel_getElem? (path.respects h) index)⟩

def last (path : Path) : Path :=
  ⟨fun tree => (path.select tree).getLast?.toList,
    fun h => rel_toList_iff.2 (rel_getLast? (path.respects h))⟩

def rest (path : Path) : Path :=
  ⟨fun tree => (path.select tree).drop 1, fun h => List.forall₂_drop 1 (path.respects h)⟩

/-- The node itself if so many nodes are at the end of a path. -/
def hereIf (path : Path) (test : Nat → Bool) : Path :=
  ⟨fun tree => if test (path.select tree).length then [tree] else [], fun h => by
    rw [(path.respects h).length_eq]
    split
    · exact .cons h .nil
    · exact .nil⟩

theorem rel_of_hereIf {test : Nat → Bool}
    (h : List.Forall₂ R ((path.hereIf test).select s) ((path.hereIf test).select t))
    (hlength : (path.select s).length = (path.select t).length)
    (htest : test (path.select s).length = true) : R s t := by
  have htest' : test (path.select t).length = true := hlength ▸ htest
  simp only [hereIf, htest, htest', if_true] at h
  exact (List.forall₂_cons.1 h).1

/-- The nodes at the end of a path if there are so many of them. -/
def when (path : Path) (test : Nat → Bool) : Path :=
  ⟨fun tree => if test (path.select tree).length then path.select tree else [], fun h => by
    rw [(path.respects h).length_eq]
    split
    · exact path.respects h
    · exact .nil⟩

theorem rel_of_when {test : Nat → Bool}
    (h : List.Forall₂ R ((path.when test).select s) ((path.when test).select t))
    (hlength : (path.select s).length = (path.select t).length)
    (htest : test (path.select s).length = true) :
    List.Forall₂ R (path.select s) (path.select t) := by
  have htest' : test (path.select t).length = true := hlength ▸ htest
  simpa only [when, htest, htest', if_true] using h

def orElse (path other : Path) : Path :=
  ⟨fun tree => if (path.select tree).length = 0 then other.select tree else path.select tree,
    fun h => by
      rw [(path.respects h).length_eq]
      split
      · exact other.respects h
      · exact path.respects h⟩

theorem select_field_div (path : Path) (tree : Tree) :
    (field name / path).select tree =
      match tree.field? name with
      | some child => path.select child
      | none => [] := by
  show (tree.field? name).toList.flatMap path.select = _
  cases tree.field? name <;> simp

theorem toList_bind (x : Option Tree) (f : Tree → Option Tree) :
    (x.bind f).toList = x.toList.flatMap fun tree => (f tree).toList := by
  cases x <;> simp

theorem select_orElse {other : Path} {x y : Option Tree} (hx : path.select tree = x.toList)
    (hy : other.select tree = y.toList) : (path.orElse other).select tree = (x.or y).toList := by
  simp only [orElse, hx, hy]
  cases x <;> rfl

end Path

/-! ## Readings -/

/-- What is done with a node: it is handed to an entry point, or its text is taken over as a view
of it shows it. -/
inductive Use where
  | expression
  | statement
  | typeRef
  | declaration
  | source (view : String → String)

variable {use : Use}

def Calls.of (calls : Calls) : Use → Tree → Option Node
  | .expression => calls.expression
  | .statement => calls.statement
  | .typeRef => calls.typeRef
  | .declaration => calls.declaration
  | .source _ => fun _ => none

namespace Use

variable {R : Option Node → Option Node → Prop}

def text : Use := .source id

def collapsed : Use := .source Text.collapse

/-- Whether the text passes a test is all that is taken over. -/
def whether (test : String → Bool) : Use := .source fun text => if test text then "yes" else "no"

/-- Whether a comment put to this use is taken for code. -/
def isCode : Use → Bool
  | .expression | .typeRef | .source _ => true
  | .statement | .declaration => false

/-- The use of two nodes in two lowerings has corresponding outcomes. -/
def Agrees (calls calls' : Calls) (R : Option Node → Option Node → Prop) :
    Use → Tree → Tree → Prop
  | .expression, s, t => R (calls.expression s) (calls'.expression t)
  | .statement, s, t => R (calls.statement s) (calls'.statement t)
  | .typeRef, s, t => R (calls.typeRef s) (calls'.typeRef t)
  | .declaration, s, t => R (calls.declaration s) (calls'.declaration t)
  | .source view, s, t => view s.text = view t.text

theorem Agrees.of_isCode (h : use.Agrees calls calls' R s t) (hcode : use.isCode = false) :
    R (calls.of use s) (calls'.of use t) := by
  cases use with
  | statement => exact h
  | declaration => exact h
  | _ => cases hcode

/-- The use of two nodes has the same outcome but for spans. -/
abbrev Meets (calls : Calls) : Use → Tree → Tree → Prop :=
  Agrees calls calls (Option.Rel Node.Same)

theorem test_eq_of_whether (h : (whether test).Agrees calls calls' R s t) :
    test s.text = test t.text := by
  have hview : (if test s.text then "yes" else "no") = if test t.text then "yes" else "no" := h
  generalize test s.text = a at hview ⊢
  generalize test t.text = b at hview ⊢
  revert hview
  cases a <;> cases b <;> decide

/-- The text taken over by a use of a node with children. -/
def own : Use → Tree → List String
  | .source view, tree => if tree.children.isEmpty then [] else [view tree.text]
  | _, _ => []

end Use

abbrev Reading := List (Path × Use)

namespace Reading

def within (path : Path) (reading : Reading) : Reading :=
  reading.map fun part => (path / part.1, part.2)

/-- The trees are reformattings of one another, and every listed use of corresponding nodes in
them has the same outcome but for spans. -/
def Meets (calls : Calls) (reading : Reading) (s t : Tree) : Prop :=
  s.Reformats t ∧ ∀ part ∈ reading,
    List.Forall₂ (part.2.Meets calls) (part.1.select s) (part.1.select t)

variable {reading : Reading}

@[simp]
theorem meets_nil : Meets calls [] s t ↔ s.Reformats t := by
  simp [Meets]

@[simp]
theorem meets_cons :
    Meets calls ((path, use) :: reading) s t ↔
      List.Forall₂ (use.Meets calls) (path.select s) (path.select t) ∧
        reading.Meets calls s t := by
  simp [Meets, and_left_comm]

@[simp]
theorem meets_here :
    List.Forall₂ (use.Meets calls) (Path.here.select s) (Path.here.select t) ↔
      use.Meets calls s t := by
  simp [Path.here]

@[simp]
theorem meets_append {other : Reading} :
    Meets calls (reading ++ other) s t ↔ reading.Meets calls s t ∧ other.Meets calls s t := by
  simp only [Meets, List.mem_append, or_imp, forall_and]
  tauto

theorem Meets.of_within (h : (reading.within path).Meets calls s t) :
    List.Forall₂ (reading.Meets calls) (path.select s) (path.select t) := by
  have hpath := path.respects h.1
  rw [List.forall₂_iff_zip]
  refine ⟨hpath.length_eq, fun {c d} hcd =>
    ⟨(List.forall₂_iff_zip.1 hpath).2 hcd, fun part hpart => ?_⟩⟩
  have hflat := h.2 (path / part.1, part.2) (List.mem_map_of_mem hpart)
  have hblocks := rel_of_flatMap (hpath.imp fun _ _ hxy => (part.1.respects hxy).length_eq) hflat
  exact (List.forall₂_iff_zip.1 hblocks).2 hcd

def onKind (kinds : List String) (reading : Reading) : Reading :=
  reading.within (Path.here.having fun kind => kinds.contains kind)

def offKind (kinds : List String) (reading : Reading) : Reading :=
  reading.within (Path.here.having fun kind => !kinds.contains kind)

end Reading

/-- On two reformattings of one tree in which the uses in the reading have the same outcome the
rule builds the same node but for spans. -/
def Respects (rule : Rule) (reading : Reading) : Prop :=
  ∀ (calls : Calls) (s t : Tree), reading.Meets calls s t →
    Option.Rel Node.Same (rule calls s) (rule calls t)

/-! ## The parts of rules -/

section Parts

variable {α β γ δ : Type} {R : α → β → Prop} {Q : γ → δ → Prop} {f : α → Option γ}
  {g : β → Option δ}

theorem rel_bind {x : Option α} {y : Option β} (h : Option.Rel R x y)
    (hfg : ∀ a b, R a b → Option.Rel Q (f a) (g b)) : Option.Rel Q (x >>= f) (y >>= g) := by
  cases h with
  | none => exact .none
  | some hab => exact hfg _ _ hab

theorem rel_mapM {xs : List α} {ys : List β}
    (h : List.Forall₂ (fun x y => Option.Rel Q (f x) (g y)) xs ys) :
    Option.Rel (List.Forall₂ Q) (xs.mapM f) (ys.mapM g) := by
  induction h with
  | nil => exact .some .nil
  | cons hxy _ ih =>
    rw [List.mapM_cons, List.mapM_cons]
    exact rel_bind hxy fun a b hab => rel_bind ih fun _ _ hrest => .some (.cons hab hrest)

def textReading : Reading :=
  [(Path.here, .text)]

end Parts

/-! ## The texts taken over -/

abbrev Readings := Use → String → Reading

variable {readings : Readings}

/-- The texts of nodes with children that the lowering of a node takes over, by readings followed
for so many calls. -/
def kept (readings : Readings) : Nat → Use → Tree → List String
  | 0, use, tree => use.own tree
  | bound + 1, use, tree =>
    use.own tree ++ (readings use tree.kind).flatMap fun part =>
      (part.1.select tree).flatMap (kept readings bound part.2)

theorem Use.length_own_eq (use : Use) (h : s.Reformats t) :
    (use.own s).length = (use.own t).length := by
  cases use with
  | source view =>
    have hchildren : s.children.isEmpty = t.children.isEmpty := by
      rw [Bool.eq_iff_iff, List.isEmpty_iff_length_eq_zero, List.isEmpty_iff_length_eq_zero,
        h.children.length_eq]
    rw [own, own, hchildren]
    split <;> rfl
  | _ => rfl

theorem Use.meets_source {view : String → String} (h : s.Reformats t)
    (hown : (Use.source view).own s = (Use.source view).own t) :
    (Use.source view).Meets calls s t := by
  by_cases hnil : s.children = []
  · exact congrArg view (h.text_eq hnil)
  · have hnil' : t.children ≠ [] := by
      rw [← List.length_pos_iff, ← h.children.length_eq, List.length_pos_iff]
      exact hnil
    have hviews : view s.text = view t.text := by simpa [own, hnil, hnil'] using hown
    exact hviews

theorem length_kept_eq (readings : Readings) (bound : Nat) (use : Use) (h : s.Reformats t) :
    (kept readings bound use s).length = (kept readings bound use t).length := by
  induction bound generalizing use s t with
  | zero => exact use.length_own_eq h
  | succ bound ih =>
    rw [kept, kept, List.length_append, List.length_append, use.length_own_eq h, h.kind_eq]
    congr 1
    refine length_flatMap_eq_of_rel (List.forall₂_same.2 fun part _ => ?_)
    exact length_flatMap_eq_of_rel ((part.1.respects h).imp fun _ _ hcd => ih part.2 hcd)

/-- The same texts taken over from two reformattings of one tree are the same texts taken over
from every two corresponding nodes. -/
theorem kept_succ_eq {bound : Nat} (hst : s.Reformats t)
    (h : kept readings (bound + 1) use s = kept readings (bound + 1) use t) :
    use.own s = use.own t ∧ ∀ part ∈ readings use s.kind,
      List.Forall₂ (fun c d => kept readings bound part.2 c = kept readings bound part.2 d)
        (part.1.select s) (part.1.select t) := by
  rw [kept, kept, ← hst.kind_eq] at h
  obtain ⟨hown, hparts⟩ := List.append_inj h (use.length_own_eq hst)
  refine ⟨hown, ?_⟩
  -- corresponding nodes keep equally many texts, so both lists fall apart at the same places
  have hlength : ∀ part : Path × Use,
      List.Forall₂ (fun c d => (kept readings bound part.2 c).length =
        (kept readings bound part.2 d).length) (part.1.select s) (part.1.select t) :=
    fun part => (part.1.respects hst).imp fun _ _ hcd => length_kept_eq readings bound part.2 hcd
  have hblocks := rel_of_flatMap
    (List.forall₂_same.2 fun part _ => length_flatMap_eq_of_rel (hlength part))
    (List.forall₂_eq_eq_eq ▸ hparts)
  intro part hpart
  have hpart := List.forall₂_same.1 hblocks part hpart
  exact (rel_of_flatMap (hlength part) hpart).imp fun _ _ hcd => List.forall₂_eq_eq_eq ▸ hcd

/-- One more call meets a use of two nodes if the calls before it meet what is read there. -/
def Reads (step : Calls → Calls) (readings : Readings) : Prop :=
  ∀ (calls : Calls) (use : Use) (s t : Tree), use.own s = use.own t →
    (readings use s.kind).Meets calls s t → use.Meets (step calls) s t

theorem meets_tie {step : Calls → Calls} (hreads : Reads step readings) (bound : Nat) (use : Use)
    (hst : s.Reformats t) (h : kept readings bound use s = kept readings bound use t) :
    use.Meets (tie step bound) s t := by
  induction bound generalizing use s t with
  | zero =>
    cases use with
    | source view => exact Use.meets_source hst h
    | _ => exact .none
  | succ bound ih =>
    -- one more level meets the use once the level below meets what is read at the two nodes
    obtain ⟨hown, hparts⟩ := kept_succ_eq hst h
    refine hreads _ use s t hown ⟨hst, fun part hpart => ?_⟩
    have hpaths := part.1.respects hst
    rw [List.forall₂_iff_zip] at hpaths ⊢
    exact ⟨hpaths.1, fun hcd =>
      ih part.2 (hpaths.2 hcd) ((List.forall₂_iff_zip.1 (hparts part hpart)).2 hcd)⟩

end CodeEvolution.Lowering
