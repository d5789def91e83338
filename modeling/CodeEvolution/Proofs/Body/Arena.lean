import CodeEvolution.Proofs.Body.Layout
import CodeEvolution.Proofs.Body.Slots
/-!
# The fragments of a body form a tree

A stretch of numbered fragments is a forest: its roots hang below one parent at one depth, and
every other fragment hangs below a fragment of the stretch that lists it, at its index, among its
statements or among its controlling expressions. Forests side by side are a forest, and so is a
statement with what it holds; the fragments of a body are one with a single root.
-/
namespace CodeEvolution

variable {f : Fragment} {method : Node} (around : Surroundings) (declared : Fragment → List Nat)
  {statements : List Statement} {block : Node} {owner : Fragment} (parameters : List Node)

namespace Statement

/-- The head of a statement that holds others is not that of an expression, one that is simple
holds nothing, and a block controls nothing and introduces nothing. -/
structure IsShapedHead (head : StatementHead) (nested : List Statement) : Prop where
  shape : head.shape ≠ .expression
  leaf : head.shape = .leaf → head.controls = [] ∧ nested = []
  block : head.kind = .block → head.controls = [] ∧ head.bindings = []

inductive IsShaped : Statement → Prop
  | unknown (line : Nat) (label : String) : IsShaped (.unknown line label)
  | known {head : StatementHead} {nested handlers : List Statement}
      (head_shaped : IsShapedHead head nested)
      (inside : ∀ statement ∈ nested, IsShaped statement)
      (beside : ∀ statement ∈ handlers, IsShaped statement) :
      IsShaped (.known head nested handlers)

theorem isShaped_row {head : StatementHead} {nested handlers rest : List Statement}
    (h : ∀ statement ∈ .known head nested handlers :: rest, IsShaped statement) :
    IsShapedHead head nested ∧ (∀ statement ∈ nested, IsShaped statement) ∧
      ∀ statement ∈ handlers ++ rest, IsShaped statement := by
  obtain ⟨hfirst, hrest⟩ := List.forall_mem_cons.mp h
  cases hfirst with
  | known hhead hinside hbeside =>
    exact ⟨hhead, hinside, List.forall_mem_append.mpr ⟨hbeside, hrest⟩⟩

theorem ofNode_isShaped (stop : Nat) (node : Node) :
    ∀ statement ∈ ofNode around stop node, IsShaped statement := by
  induction node using Node.inductionOnChildren generalizing stop with
  | step node ih =>
    cases hkind : node.kind.statementKind? with
    | none =>
      intro statement hstatement
      obtain ⟨line, label, rfl⟩ := eq_unknown_of_mem_ofNode hkind hstatement
      exact .unknown line label
    | some kind =>
      obtain ⟨head, hhead, heq⟩ := ofNode_known around stop hkind
      rw [heq, List.forall_mem_singleton]
      refine .known ⟨hhead.shape, ?_, hhead.block⟩ ?_ ?_
      · intro hleaf
        obtain ⟨hcontrols, hinside⟩ := hhead.leaf hleaf
        exact ⟨hcontrols, by rw [Node.statementsInside, hinside]; rfl⟩
      · intro statement hstatement
        obtain ⟨child, hinside, hmem⟩ := List.mem_flatMap.mp hstatement
        exact ih child (Node.mem_children_of_inside hinside) _ statement hmem
      · intro statement hstatement
        obtain ⟨clause, hbeside, hmem⟩ := List.mem_flatMap.mp hstatement
        exact ih clause (Node.mem_children_of_beside hbeside) _ statement hmem

end Statement

namespace Fragment

def parts (f : Fragment) (statements : Bool) : List Nat :=
  if statements then f.children else f.expressions

/-- A fragment hangs below another at an index, among its statements or its expressions. -/
structure IsPart (owner : Fragment) (statements : Bool) (index : Nat) (f : Fragment) : Prop where
  isStatement : f.isStatement = statements
  parent : f.parent = some owner.id
  later : owner.id < f.id
  depth : f.depth = if statements then owner.depth + 1 else owner.depth
  index : f.index = index

structure IsRoot (parent : Option Nat) (depth index : Nat) (f : Fragment) : Prop where
  isStatement : f.isStatement = true
  parent : f.parent = parent
  depth : f.depth = depth
  index : f.index = index

structure IsForest (parent : Option Nat) (depth index : Nat) (roots : List Nat)
    (fragments : List Fragment) : Prop where
  root : ∀ i id, roots[i]? = some id →
    ∃ f ∈ fragments, f.id = id ∧ IsRoot parent depth (index + i) f
  part : ∀ owner ∈ fragments, ∀ statements i id, (owner.parts statements)[i]? = some id →
    ∃ f ∈ fragments, f.id = id ∧ owner.IsPart statements i f
  placed : ∀ f ∈ fragments,
    (∃ i, roots[i]? = some f.id ∧ IsRoot parent depth (index + i) f) ∨
      ∃ owner ∈ fragments, ∃ statements i,
        (owner.parts statements)[i]? = some f.id ∧ owner.IsPart statements i f
  simple : ∀ f ∈ fragments, f.shape ≠ .composite → f.children = [] ∧ f.expressions = []

namespace IsForest

variable {parent : Option Nat} {depth index : Nat}

theorem nil : IsForest parent depth index [] [] where
  root := by simp
  part := by simp
  placed := by simp
  simple := by simp

theorem append {roots roots' : List Nat} {fragments fragments' : List Fragment}
    (h : IsForest parent depth index roots fragments)
    (h' : IsForest parent depth (index + roots.length) roots' fragments') :
    IsForest parent depth index (roots ++ roots') (fragments ++ fragments') where
  root := by
    intro i id hid
    rw [List.getElem?_append] at hid
    split at hid
    · obtain ⟨f, hf, hroot⟩ := h.root i id hid
      exact ⟨f, List.mem_append_left _ hf, hroot⟩
    · obtain ⟨f, hf, hid', hroot⟩ := h'.root _ id hid
      have hindex : index + roots.length + (i - roots.length) = index + i := by omega
      exact ⟨f, List.mem_append_right _ hf, hid', hindex ▸ hroot⟩
  part := by
    intro owner howner statements i id hid
    rcases List.mem_append.mp howner with howner | howner
    · obtain ⟨f, hf, hpart⟩ := h.part owner howner statements i id hid
      exact ⟨f, List.mem_append_left _ hf, hpart⟩
    · obtain ⟨f, hf, hpart⟩ := h'.part owner howner statements i id hid
      exact ⟨f, List.mem_append_right _ hf, hpart⟩
  placed := by
    intro f hf
    rcases List.mem_append.mp hf with hf | hf
    · rcases h.placed f hf with ⟨i, hid, hroot⟩ | ⟨owner, howner, hlisted⟩
      · have hi := (List.getElem?_eq_some_iff.mp hid).1
        exact Or.inl ⟨i, by rw [List.getElem?_append_left hi, hid], hroot⟩
      · exact Or.inr ⟨owner, List.mem_append_left _ howner, hlisted⟩
    · rcases h'.placed f hf with ⟨i, hid, hroot⟩ | ⟨owner, howner, hlisted⟩
      · refine Or.inl ⟨roots.length + i, ?_, Nat.add_assoc index _ _ ▸ hroot⟩
        rw [List.getElem?_append_right (Nat.le_add_right _ _), Nat.add_sub_cancel_left, hid]
      · exact Or.inr ⟨owner, List.mem_append_right _ howner, hlisted⟩
  simple := by
    intro f hf
    rcases List.mem_append.mp hf with hf | hf
    · exact h.simple f hf
    · exact h'.simple f hf

end IsForest

structure HasControls (f : Fragment) (controls : List Fragment) : Prop where
  listed : ∀ i id, f.expressions[i]? = some id → ∃ g ∈ controls, g.id = id ∧ f.IsPart false i g
  placed : ∀ g ∈ controls, ∃ i, f.expressions[i]? = some g.id ∧ f.IsPart false i g
  bare : ∀ g ∈ controls, g.children = [] ∧ g.expressions = []

theorem HasControls.filter_isStatement {controls : List Fragment} (h : f.HasControls controls) :
    controls.filter isStatement = [] := by
  rw [List.filter_eq_nil_iff]
  intro g hg
  obtain ⟨i, -, hpart⟩ := h.placed g hg
  rw [hpart.isStatement]
  exact Bool.false_ne_true

theorem IsForest.tree {parent : Option Nat} {depth index : Nat} {controls nested : List Fragment}
    (hroot : IsRoot parent depth index f) (hcontrols : f.HasControls controls)
    (hnested : IsForest (some f.id) (f.depth + 1) 0 f.children nested)
    (hlater : ∀ g ∈ nested, f.id < g.id)
    (hsimple : f.shape ≠ .composite → f.children = [] ∧ f.expressions = []) :
    IsForest parent depth index [f.id] (f :: (controls ++ nested)) := by
  -- The roots inside are the statements that the head lists.
  have hpart : ∀ {g i}, g ∈ nested → IsRoot (some f.id) (f.depth + 1) (0 + i) g →
      f.IsPart true i g := by
    intro g i hg hroot
    exact ⟨hroot.isStatement, hroot.parent, hlater g hg, hroot.depth,
      hroot.index.trans (Nat.zero_add i)⟩
  refine ⟨?_, ?_, ?_, ?_⟩
  · intro i id hid
    cases i with
    | zero => exact ⟨f, List.mem_cons_self, Option.some.inj hid, hroot⟩
    | succ i => exact absurd hid nofun
  · intro owner howner statements i id hid
    rcases List.mem_cons.mp howner with rfl | howner
    · cases statements with
      | true =>
        obtain ⟨g, hg, hid', hroot'⟩ := hnested.root i id hid
        exact ⟨g, List.mem_cons_of_mem _ (List.mem_append_right _ hg), hid', hpart hg hroot'⟩
      | false =>
        obtain ⟨g, hg, hid', hcontrol⟩ := hcontrols.listed i id hid
        exact ⟨g, List.mem_cons_of_mem _ (List.mem_append_left _ hg), hid', hcontrol⟩
    · rcases List.mem_append.mp howner with howner | howner
      · obtain ⟨hchildren, hexpressions⟩ := hcontrols.bare owner howner
        cases statements <;> simp [parts, hchildren, hexpressions] at hid
      · obtain ⟨g, hg, hid'⟩ := hnested.part owner howner statements i id hid
        exact ⟨g, List.mem_cons_of_mem _ (List.mem_append_right _ hg), hid'⟩
  · intro g hg
    rcases List.mem_cons.mp hg with rfl | hg
    · exact Or.inl ⟨0, rfl, hroot⟩
    · right
      rcases List.mem_append.mp hg with hg | hg
      · obtain ⟨i, hid, hcontrol⟩ := hcontrols.placed g hg
        exact ⟨f, List.mem_cons_self, false, i, hid, hcontrol⟩
      · rcases hnested.placed g hg with ⟨i, hid, hroot'⟩ | ⟨owner, howner, hlisted⟩
        · exact ⟨f, List.mem_cons_self, true, i, hid, hpart hg hroot'⟩
        · exact ⟨owner, List.mem_cons_of_mem _ (List.mem_append_right _ howner), hlisted⟩
  · intro g hg hshape
    rcases List.mem_cons.mp hg with rfl | hg
    · exact hsimple hshape
    · rcases List.mem_append.mp hg with hg | hg
      · exact hcontrols.bare g hg
      · exact hnested.simple g hg hshape

end Fragment

namespace Statement

def settled (declared : Fragment → List Nat) (entries : List NumberedStatement) :
    List Fragment :=
  entries.map fun entry => Body.introducing entry.fragment (declared entry.fragment)

theorem settled_append (entries others : List NumberedStatement) :
    settled declared (entries ++ others) = settled declared entries ++ settled declared others :=
  List.map_append

theorem settled_hasControls {controls : List Control}
    (hexpressions : f.expressions = List.range' (f.id + 1) controls.length) :
    f.HasControls (settled declared (numberControls f.id f.depth (f.id + 1) 0 controls)) := by
  -- The fragment of the control at an index hangs below the statement at that index.
  have hcontrol : ∀ {i g},
      (settled declared (numberControls f.id f.depth (f.id + 1) 0 controls))[i]? = some g →
        f.expressions[i]? = some g.id ∧ f.IsPart false i g ∧ g.children = [] ∧
          g.expressions = [] := by
    intro i g hg
    rw [settled, List.getElem?_map, numberControls_getElem?, Option.map_map] at hg
    obtain ⟨control, hget, rfl⟩ := Option.map_eq_some_iff.mp hg
    have hi := (List.getElem?_eq_some_iff.mp hget).1
    refine ⟨?_, ⟨rfl, rfl, ?_, rfl, Nat.zero_add i⟩, rfl, rfl⟩
    · rw [hexpressions, List.getElem?_range' hi, Nat.one_mul]
      rfl
    · exact Nat.lt_of_lt_of_le (Nat.lt_succ_self _) (Nat.le_add_right _ _)
  refine ⟨?_, ?_, ?_⟩
  · intro i id hid
    have hi : i < (settled declared
        (numberControls f.id f.depth (f.id + 1) 0 controls)).length := by
      have hlength := congrArg List.length (numberControls_ids f.id f.depth (f.id + 1) 0 controls)
      have hlt := (List.getElem?_eq_some_iff.mp hid).1
      rw [hexpressions, ← hlength, List.length_map] at hlt
      rwa [settled, List.length_map]
    have hget := List.getElem?_eq_getElem hi
    obtain ⟨hid', hpart, -⟩ := hcontrol hget
    exact ⟨_, List.mem_of_getElem? hget, Option.some.inj (hid'.symm.trans hid), hpart⟩
  · intro g hg
    obtain ⟨i, hget⟩ := List.mem_iff_getElem?.mp hg
    obtain ⟨hid, hpart, -⟩ := hcontrol hget
    exact ⟨i, hid, hpart⟩
  · intro g hg
    obtain ⟨i, hget⟩ := List.mem_iff_getElem?.mp hg
    exact (hcontrol hget).2.2

theorem le_id_of_mem_number {s : RowStart} {entry : NumberedStatement}
    (h : entry ∈ s.number statements) : s.id ≤ entry.fragment.id := by
  have hid : entry.fragment.id ∈ List.range' s.id (sizeAll statements) :=
    number_ids s statements ▸ List.mem_map_of_mem h
  exact (List.mem_range'_1.mp hid).1

def settledHead (declared : Fragment → List Nat) (s : RowStart) (head : StatementHead)
    (nested handlers : List Statement) : Fragment :=
  let f := s.headFragment head nested handlers
  Body.introducing f (declared f)

section

variable (declared : Fragment → List Nat) (s : RowStart) (head : StatementHead)
  (nested handlers rest : List Statement)

theorem settled_known : settled declared (s.number (.known head nested handlers :: rest)) =
    settledHead declared s head nested handlers ::
      (settled declared (s.controls head) ++ settled declared ((s.inside head).number nested)) ++
      settled declared ((s.behind head nested).number (handlers ++ rest)) := by
  rw [number_known]
  simp only [settled, settledHead, List.map_cons, List.map_append, List.cons_append]

theorem settledHead_hasControls :
    (settledHead declared s head nested handlers).HasControls
      (settled declared (s.controls head)) :=
  settled_hasControls declared rfl

variable {head} in

theorem settledHead_isStatement (hshape : head.shape ≠ .expression) :
    (settledHead declared s head nested handlers).isStatement = true := by
  simpa [settledHead, Body.introducing, headFragment, Fragment.isStatement] using hshape

end

theorem number_isForest (s : RowStart) (statements : List Statement)
    (h : ∀ statement ∈ statements, IsShaped statement) :
    Fragment.IsForest s.parent s.depth s.index ((siblingsAll s.id statements).map Prod.fst)
      (settled declared (s.number statements)) := by
  induction statements using inductionOnRow generalizing s with
  | nil => exact .nil
  | unknown line label rest ih => exact ih s (List.forall_mem_cons.mp h).2
  | known head nested handlers rest ihNested ihRest =>
    obtain ⟨hhead, hinside, hrest⟩ := isShaped_row h
    let f := settledHead declared s head nested handlers
    have hroot : f.IsRoot s.parent s.depth s.index :=
      ⟨settledHead_isStatement declared s nested handlers hhead.shape, rfl, rfl, rfl⟩
    have hlater : ∀ g ∈ settled declared ((s.inside head).number nested), f.id < g.id := by
      intro g hg
      obtain ⟨entry, hentry, rfl⟩ := List.mem_map.mp hg
      have hle : s.id + 1 + head.controls.length ≤ entry.fragment.id := le_id_of_mem_number hentry
      change s.id < entry.fragment.id
      omega
    have hsimple : f.shape ≠ .composite → f.children = [] ∧ f.expressions = [] := by
      intro hcomposite
      have hleaf : head.shape = .leaf := by
        cases hshape : head.shape with
        | leaf => rfl
        | composite => exact absurd hshape hcomposite
        | expression => exact absurd hshape hhead.shape
      obtain ⟨hnone, rfl⟩ := hhead.leaf hleaf
      simp [f, settledHead, Body.introducing, headFragment, siblingsAll, hnone]
    rw [settled_known, siblingsAll_known]
    exact (Fragment.IsForest.tree hroot
      (settledHead_hasControls declared s head nested handlers)
      (ihNested (s.inside head) hinside) hlater hsimple).append (ihRest (s.behind head nested) hrest)

/-- An entry of a numbering is a head or a controlling expression. -/
theorem forall_mem_number {P : NumberedStatement → Prop}
    (h : ∀ statement ∈ statements, IsShaped statement)
    (hhead : ∀ (s : RowStart) head nested handlers, IsShapedHead head nested →
      P ⟨s.headFragment head nested handlers, head.bindings, head.outerNames⟩)
    (hcontrol : ∀ id depth index parent text span facts, P
      { fragment := { id, kind := .expression, shape := .expression, depth, text, span, parent,
                      index, facts } })
    (s : RowStart) : ∀ entry ∈ s.number statements, P entry := by
  induction statements using inductionOnRow generalizing s with
  | nil => exact fun entry hentry => absurd hentry List.not_mem_nil
  | unknown line label rest ih => exact ih (List.forall_mem_cons.mp h).2 s
  | known head nested handlers rest ihNested ihRest =>
    obtain ⟨hshaped, hinside, hrest⟩ := isShaped_row h
    rw [number_known, List.forall_mem_cons, List.forall_mem_append, List.forall_mem_append]
    refine ⟨hhead _ _ _ _ hshaped, ⟨?_, ihNested hinside _⟩, ihRest hrest _⟩
    intro entry hentry
    obtain ⟨i, hget⟩ := List.mem_iff_getElem?.mp hentry
    rw [numberControls_getElem?] at hget
    obtain ⟨control, -, rfl⟩ := Option.map_eq_some_iff.mp hget
    exact hcontrol _ _ _ _ _ _ _

end Statement

theorem Node.isBlock_of_body? (h : method.body? = some block) : block.kind = .block := by
  have hblock : block.isBlock = true := by
    unfold body? at h
    split at h
    · exact (Option.filter_eq_some_iff.mp h).2
    · exact (Option.filter_eq_some_iff.mp h).2
    · exact absurd h nofun
  unfold isBlock at hblock
  split at hblock
  · assumption
  · exact absurd hblock nofun

namespace Body

/-- The fragments of a body form a tree. A fragment goes by its position, the first one is a block
and the only one without a parent, and every other one hangs below an earlier fragment. A fragment
is listed by its parent alone: at its index, among the statements or among the expressions. -/
structure IsArena (body : Body) : Prop where
  ids : ∀ i f, body.get? i = some f → f.id = i
  root : ∀ f ∈ body.fragments, f.parent = none ↔ f.id = 0
  block : ∀ f, body.get? 0 = some f → f.kind = .block ∧ f.shape = .composite ∧ f.depth = 0
  parent : ∀ f ∈ body.fragments, f.id ≠ 0 → ∃ owner ∈ body.fragments,
    f.parent = some owner.id ∧ owner.id < f.id ∧
      f.depth = if f.isStatement then owner.depth + 1 else owner.depth
  children : ∀ owner ∈ body.fragments, ∀ i id, owner.children[i]? = some id ↔
    ∃ f, body.get? id = some f ∧ f.isStatement = true ∧ f.parent = some owner.id ∧ f.index = i
  expressions : ∀ owner ∈ body.fragments, ∀ i id, owner.expressions[i]? = some id ↔
    ∃ f, body.get? id = some f ∧ f.isStatement = false ∧ f.parent = some owner.id ∧ f.index = i
  simple : ∀ f ∈ body.fragments, f.shape ≠ .composite → f.children = [] ∧ f.expressions = []

theorem statementsOf_isShaped (method : Node) :
    ∀ statement ∈ statementsOf around method, Statement.IsShaped statement := by
  unfold statementsOf
  split
  · exact Statement.ofNode_isShaped _ _ _
  · exact fun _ h => absurd h List.not_mem_nil

theorem statementsOf_eq_block (h : method.body? = some block) :
    ∃ nested, statementsOf around method =
      [.known { kind := .block, shape := .composite, text := "\x7b", span := block.span }
        nested []] := by
  obtain ⟨stop, hnode⟩ := Statement.ofNode_eq around around.bodyEnd block
  have hkind := Node.isBlock_of_body? h
  obtain ⟨kind, span, children⟩ := block
  obtain rfl : kind = .block := hkind
  simp only [statementsOf, h]
  exact ⟨_, hnode⟩

theorem statementsOf_eq_nil (h : method.body? = none) : statementsOf around method = [] := by
  simp only [statementsOf, h]

section OfForest

variable {body : Body} (hids : body.fragments.map Fragment.id = List.range body.fragments.length)
  (hforest : Fragment.IsForest none 0 0 [0] body.fragments)

include hids hforest

/-- A fragment with a parent is listed by the fragment of that number. -/
theorem getElem?_parts_of_parent (howner : owner ∈ body.fragments) (hf : f ∈ body.fragments)
    (hparent : f.parent = some owner.id) : (owner.parts f.isStatement)[f.index]? = some f.id := by
  rcases hforest.placed f hf with ⟨_, _, htop⟩ | ⟨other, hother, kind, j, hid, hpart⟩
  · rw [htop.parent] at hparent
    exact absurd hparent nofun
  · have hsame : other.id = owner.id := Option.some.inj (hpart.parent.symm.trans hparent)
    have hget := get?_of_mem hids hother
    rw [hsame, get?_of_mem hids howner] at hget
    obtain rfl := Option.some.inj hget
    rwa [hpart.isStatement, hpart.index]

theorem getElem?_parts_iff (howner : owner ∈ body.fragments) (statements : Bool) (i id : Nat) :
    (owner.parts statements)[i]? = some id ↔ ∃ f, body.get? id = some f ∧
      f.isStatement = statements ∧ f.parent = some owner.id ∧ f.index = i := by
  constructor
  · intro hid
    obtain ⟨f, hf, rfl, hpart⟩ := hforest.part owner howner statements i id hid
    exact ⟨f, get?_of_mem hids hf, hpart.isStatement, hpart.parent, hpart.index⟩
  · rintro ⟨f, hget, rfl, hparent, rfl⟩
    rw [getElem?_parts_of_parent hids hforest howner (mem_of_get? hget) hparent,
      id_of_get? hids hget]

theorem isArena_of_isForest
    (hblock : ∀ f, body.get? 0 = some f → f.kind = .block ∧ f.shape = .composite) :
    body.IsArena := by
  have hroot : ∀ {id i : Nat}, [0][i]? = some id → id = 0 := by
    intro id i hi
    cases i with
    | zero => exact (Option.some.inj hi).symm
    | succ i => exact absurd hi nofun
  refine ⟨fun i f => id_of_get? hids, ?_, ?_, ?_,
    fun owner howner => getElem?_parts_iff hids hforest howner true,
    fun owner howner => getElem?_parts_iff hids hforest howner false, hforest.simple⟩
  · intro f hf
    rcases hforest.placed f hf with ⟨i, hid, htop⟩ | ⟨owner, _, _, _, _, hpart⟩
    · exact ⟨fun _ => hroot hid, fun _ => htop.parent⟩
    · have hlater := hpart.later
      rw [hpart.parent]
      exact ⟨nofun, fun hzero => absurd hlater (by omega)⟩
  · intro f hget
    obtain ⟨hkind, hshape⟩ := hblock f hget
    refine ⟨hkind, hshape, ?_⟩
    rcases hforest.placed f (mem_of_get? hget) with ⟨_, _, htop⟩ | ⟨owner, _, _, _, _, hpart⟩
    · exact htop.depth
    · have hlater := hpart.later
      rw [id_of_get? hids hget] at hlater
      exact absurd hlater (Nat.not_lt_zero _)
  · intro f hf hne
    rcases hforest.placed f hf with ⟨i, hid, _⟩ | ⟨owner, howner, statements, i, _, hpart⟩
    · exact absurd (hroot hid) hne
    · exact ⟨owner, howner, hpart.parent, hpart.later, hpart.isStatement ▸ hpart.depth⟩

end OfForest

variable (around : Surroundings) (method : Node) (parameters : List Node) in

/-- A property of the entries of a numbering that the variables a fragment introduces do not
touch. -/
theorem ofMethod_forall_mem {P : Fragment → Prop}
    (hhead : ∀ (s : RowStart) head nested handlers ids, Statement.IsShapedHead head nested →
      P (introducing (s.headFragment head nested handlers) ids))
    (hcontrol : ∀ id depth index parent text span facts ids,
      P (introducing { id, kind := .expression, shape := .expression, depth, text, span, parent,
                       index, facts } ids)) :
    ∀ f ∈ (ofMethod around method parameters).fragments, P f := by
  obtain ⟨declared, hfragments⟩ := ofMethod_fragments around method parameters
  rw [hfragments, List.forall_mem_map]
  exact Statement.forall_mem_number (statementsOf_isShaped around method)
    (fun _ _ _ _ hshaped => hhead _ _ _ _ _ hshaped)
    (fun _ _ _ _ _ _ _ => hcontrol _ _ _ _ _ _ _ _) { }

theorem isArena_nil {body : Body} (h : body.fragments = []) : body.IsArena := by
  have hget : ∀ i, body.get? i = none := by simp [get?, h]
  constructor <;> simp [h, hget]

theorem ofMethod_isArena (method : Node) (parameters : List Node) :
    (ofMethod around method parameters).IsArena := by
  obtain ⟨declared, hfragments⟩ := ofMethod_fragments around method parameters
  have hforest := Statement.number_isForest declared { } _ (statementsOf_isShaped around method)
  cases hbody : method.body? with
  | none =>
    apply isArena_nil
    rw [hfragments, numberedOf, statementsOf_eq_nil around hbody]
    rfl
  | some block =>
    obtain ⟨nested, hstatements⟩ := statementsOf_eq_block around hbody
    refine isArena_of_isForest (ofMethod_ids around method parameters) ?_ ?_
    · rw [hstatements] at hforest
      rw [hfragments, numberedOf, hstatements]
      exact hforest
    · intro f hget
      rw [get?, hfragments, numberedOf, hstatements] at hget
      obtain rfl := Option.some.inj hget
      exact ⟨rfl, rfl⟩

theorem ofMethod_isLaidOut (method : Node) (parameters : List Node) :
    (ofMethod around method parameters).IsLaidOut where
  ids := ofMethod_ids around method parameters
  controls := by
    have hexpressions : ∀ f ∈ (ofMethod around method parameters).fragments,
        (f.isStatement = false → f.kind = .expression ∧ f.shape = .expression) ∧
          ∃ count, f.expressions = List.range' (f.id + 1) count := by
      apply ofMethod_forall_mem
      · intro s head nested handlers ids hshaped
        have hstatement :=
          Statement.settledHead_isStatement (fun _ => ids) s nested handlers hshaped.shape
        exact ⟨fun hfalse => absurd (hstatement.symm.trans hfalse) nofun, _, rfl⟩
      · exact fun _ _ _ _ _ _ _ _ => ⟨fun _ => ⟨rfl, rfl⟩, 0, rfl⟩
    intro f hf index id hid
    obtain ⟨g, hg, hfalse, hparent, hindex⟩ :=
      ((ofMethod_isArena around method parameters).expressions f hf index id).mp hid
    obtain ⟨count, hrange⟩ := (hexpressions f hf).2
    obtain ⟨hkind, hshape⟩ := (hexpressions g (mem_of_get? hg)).1 hfalse
    refine ⟨g, hg, ?_, hkind, hshape, hparent, hindex⟩
    rw [hrange] at hid
    obtain ⟨hlt, hid⟩ := List.getElem?_eq_some_iff.mp hid
    rw [List.getElem_range'] at hid
    rw [id_of_get? (ofMethod_ids around method parameters) hg, ← hid, Nat.one_mul]

theorem ofMethod_root? (method : Node) (parameters : List Node) :
    (ofMethod around method parameters).root? = method.body?.map fun _ => 0 := by
  obtain ⟨declared, hfragments⟩ := ofMethod_fragments around method parameters
  rw [root?, hfragments, numberedOf]
  cases hbody : method.body? with
  | none => rw [statementsOf_eq_nil around hbody]; rfl
  | some block =>
    obtain ⟨nested, hstatements⟩ := statementsOf_eq_block around hbody
    rw [hstatements]
    rfl

end Body

end CodeEvolution
