import CodeEvolution.Proofs.Body.Arena
import Mathlib.Data.List.Sort
import Mathlib.Logic.Relation
/-!
# Walks through the tree of a body

A walk takes the first fragment off a stack and puts the statements directly inside it in its
place. From the outermost block it meets every statement once, in the order of their numbers, and
from the statements inside a fragment exactly those with the fragment on their parent chain.
-/
namespace CodeEvolution

variable {f g : Fragment} {id top : Nat} {body : Body} {bound owner : Nat} {stack' : List Nat}

namespace Body

/-- The fragments met by a walk from a stack, in at most `bound` rounds; none if the rounds run
out, or if a number on the stack is not that of a fragment. -/
def walkUpTo (body : Body) : Nat → List Nat → Option (List Nat)
  | _, [] => some []
  | 0, _ :: _ => none
  | bound + 1, id :: stack =>
    match body.get? id with
    | none => none
    | some f => (walkUpTo body bound (f.children ++ stack)).map (id :: ·)

inductive Walk (body : Body) : List Nat → List Nat → Prop
  | done : Walk body [] []
  | visit {id : Nat} {f : Fragment} {stack order : List Nat} (get : body.get? id = some f)
      (rest : Walk body (f.children ++ stack) order) : Walk body (id :: stack) (id :: order)

def IsParent (body : Body) (parent id : Nat) : Prop :=
  ∃ f, body.get? id = some f ∧ f.parent = some parent

def Lists (body : Body) (owner id : Nat) : Prop :=
  ∃ f, body.get? owner = some f ∧ id ∈ f.children

namespace Walk

variable {body : Body} {stack order : List Nat}

theorem walkUpTo_eq (h : body.Walk stack order) (hbound : order.length ≤ bound) :
    body.walkUpTo bound stack = some order := by
  induction h generalizing bound with
  | done => simp only [walkUpTo]
  | visit hget _ ih =>
    cases bound with
    | zero => exact absurd hbound (Nat.not_succ_le_zero _)
    | succ bound => simp only [walkUpTo, hget, ih (Nat.le_of_succ_le_succ hbound), Option.map_some]

theorem append {order' : List Nat} (h : body.Walk stack order) (h' : body.Walk stack' order') :
    body.Walk (stack ++ stack') (order ++ order') := by
  induction h with
  | done => exact h'
  | visit hget _ ih =>
    rw [List.append_assoc] at ih
    exact .visit hget ih

theorem split (h : body.Walk (stack ++ stack') order) :
    ∃ first second, order = first ++ second ∧ body.Walk stack first ∧ body.Walk stack' second := by
  generalize hwhole : stack ++ stack' = whole at h
  induction h generalizing stack with
  | done =>
    obtain ⟨rfl, rfl⟩ := List.append_eq_nil_iff.mp hwhole
    exact ⟨[], [], rfl, .done, .done⟩
  | visit hget hrest ih =>
    cases stack with
    | nil =>
      rw [List.nil_append] at hwhole
      exact ⟨[], _, rfl, .done, hwhole ▸ .visit hget hrest⟩
    | cons id stack =>
      obtain ⟨rfl, rfl⟩ := List.cons.inj hwhole
      obtain ⟨first, second, rfl, hfirst, hsecond⟩ := ih (List.append_assoc _ _ _)
      exact ⟨_ :: first, second, rfl, .visit hget hfirst, hsecond⟩

/-- A walk meets what the stack reaches by going from a fragment to a statement that it lists. -/
theorem mem_iff (h : body.Walk stack order) :
    id ∈ order ↔ ∃ start ∈ stack, Relation.ReflTransGen body.Lists start id := by
  induction h with
  | done => simp
  | @visit top f stack order hget _ ih =>
    have hstep : ∀ next, body.Lists top next ↔ next ∈ f.children := by
      intro next
      simp [Lists, hget]
    have htop : Relation.ReflTransGen body.Lists top id ↔
        id = top ∨ ∃ next ∈ f.children, Relation.ReflTransGen body.Lists next id := by
      rw [Relation.ReflTransGen.cases_head_iff, eq_comm]
      simp only [hstep]
    simp only [List.mem_cons, List.mem_append, ih, or_and_right, exists_or, exists_eq_left, htop,
      or_assoc]

theorem inside (h : body.Walk stack order) (hget : body.get? id = some f) (hid : id ∈ order) :
    ∃ part, part.Sublist order ∧ body.Walk f.children part := by
  induction h with
  | done => exact absurd hid List.not_mem_nil
  | @visit top g stack order hget' hrest ih =>
    rcases List.mem_cons.mp hid with rfl | hid
    · obtain rfl := Option.some.inj (hget.symm.trans hget')
      obtain ⟨first, second, rfl, hfirst, -⟩ := hrest.split
      exact ⟨first, (List.sublist_append_left first second).cons _, hfirst⟩
    · obtain ⟨part, hpart, hwalk⟩ := ih hid
      exact ⟨part, hpart.cons _, hwalk⟩

end Walk

namespace IsArena

variable {body : Body} (h : body.IsArena)

include h

theorem get?_id (hf : f ∈ body.fragments) : body.get? f.id = some f := by
  obtain ⟨i, hget⟩ := List.mem_iff_getElem?.mp hf
  rwa [h.ids i f hget]

theorem parent_lt {parent : Nat} (hparent : body.IsParent parent id) :
    parent < id ∧ ∃ owner, body.get? parent = some owner := by
  obtain ⟨f, hget, hparent⟩ := hparent
  have hf := mem_of_get? hget
  have hne : f.id ≠ 0 := by
    intro hzero
    rw [(h.root f hf).mpr hzero] at hparent
    exact absurd hparent nofun
  obtain ⟨owner, howner, hparent', hlt, -⟩ := h.parent f hf hne
  obtain rfl := Option.some.inj (hparent.symm.trans hparent')
  exact ⟨h.ids id f hget ▸ hlt, owner, h.get?_id howner⟩

theorem lists_iff :
    body.Lists owner id ↔
      body.IsParent owner id ∧ ∃ f, body.get? id = some f ∧ f.isStatement = true := by
  constructor
  · rintro ⟨f, hget, hid⟩
    obtain ⟨i, hi⟩ := List.mem_iff_getElem?.mp hid
    obtain ⟨g, hg, hstatement, hparent, -⟩ := (h.children f (mem_of_get? hget) i id).mp hi
    rw [h.ids owner f hget] at hparent
    exact ⟨⟨g, hg, hparent⟩, g, hg, hstatement⟩
  · rintro ⟨hparent, g, hg, hstatement⟩
    obtain ⟨-, f, hget⟩ := h.parent_lt hparent
    obtain ⟨g', hg', hparent⟩ := hparent
    obtain rfl := Option.some.inj (hg.symm.trans hg')
    rw [← h.ids owner f hget] at hparent
    exact ⟨f, hget, List.mem_of_getElem?
      ((h.children f (mem_of_get? hget) g.index id).mpr ⟨g, hg, hstatement, hparent, rfl⟩)⟩

theorem isStatement_of_lists (hlists : body.Lists owner id) :
    ∃ f, body.get? owner = some f ∧ f.isStatement = true := by
  obtain ⟨f, hget, hid⟩ := hlists
  refine ⟨f, hget, ?_⟩
  cases hshape : f.shape with
  | composite => simp [Fragment.isStatement, hshape]
  | leaf => simp [Fragment.isStatement, hshape]
  | expression =>
    rw [(h.simple f (mem_of_get? hget) (by simp [hshape])).1] at hid
    exact absurd hid List.not_mem_nil

/-- For a statement, going up through parents and going down through lists are the same. -/
theorem transGen_lists_iff (hg : g ∈ body.fragments) (hstatement : g.isStatement = true) :
    Relation.TransGen body.Lists top g.id ↔ Relation.TransGen body.IsParent top g.id := by
  constructor
  · intro hchain
    exact Relation.TransGen.mono (fun _ _ hlists => (h.lists_iff.mp hlists).1) _ _ hchain
  · intro hchain
    have hlast : ∃ f, body.get? g.id = some f ∧ f.isStatement = true :=
      ⟨g, h.get?_id hg, hstatement⟩
    generalize g.id = id at hchain hlast
    -- The last link ends at a statement, so it is listed and starts at a statement.
    induction hchain with
    | single hparent => exact .single (h.lists_iff.mpr ⟨hparent, hlast⟩)
    | tail _ hparent ih =>
      have hlists := h.lists_iff.mpr ⟨hparent, hlast⟩
      exact (ih (h.isStatement_of_lists hlists)).tail hlists

/-- The bound on the number of ancestors is never met: numbers fall along a parent chain. -/
theorem mem_ancestorsUpTo (hget : body.get? id = some f) (hbound : id < bound) :
    top ∈ (body.ancestorsUpTo bound (some id)).map Fragment.id ↔
      Relation.ReflTransGen body.IsParent top id := by
  induction bound generalizing id f with
  | zero => exact absurd hbound (Nat.not_lt_zero _)
  | succ bound ih =>
    have hstep : ∀ parent, body.IsParent parent id ↔ f.parent = some parent := by
      intro parent
      simp [IsParent, hget]
    rw [ancestorsUpTo, hget, Relation.ReflTransGen.cases_tail_iff]
    simp only [List.map_cons, List.mem_cons, h.ids id f hget, hstep]
    cases hparent : f.parent with
    | none =>
      cases bound <;> simp [ancestorsUpTo, eq_comm]
    | some parent =>
      obtain ⟨hlt, owner, howner⟩ := h.parent_lt ((hstep parent).mpr hparent)
      rw [ih howner (by omega), @eq_comm _ top id]
      simp

theorem mem_ancestors (hg : g ∈ body.fragments) :
    top ∈ (body.ancestors g).map Fragment.id ↔ Relation.TransGen body.IsParent top g.id := by
  have hstep : ∀ parent, body.IsParent parent g.id ↔ g.parent = some parent := by
    intro parent
    simp [IsParent, h.get?_id hg]
  rw [ancestors, Relation.TransGen.tail'_iff]
  simp only [hstep]
  cases hparent : g.parent with
  | none => cases body.fragments.length <;> simp [ancestorsUpTo]
  | some parent =>
    obtain ⟨-, owner, howner⟩ := h.parent_lt ((hstep parent).mpr hparent)
    rw [h.mem_ancestorsUpTo howner (List.getElem?_eq_some_iff.mp howner).1]
    simp

theorem mem_descendants :
    g ∈ body.descendants f ↔ g ∈ body.fragments ∧ g.isStatement = true ∧
      Relation.TransGen body.IsParent f.id g.id := by
  rw [descendants, List.mem_filter, statements, List.mem_filter, and_assoc]
  refine and_congr_right fun hg => and_congr_right fun _ => ?_
  rw [← h.mem_ancestors hg]
  simp

end IsArena

def statementIds (fragments : List Fragment) : List Nat :=
  (fragments.filter Fragment.isStatement).map Fragment.id

theorem statementIds_append (fragments others : List Fragment) :
    statementIds (fragments ++ others) = statementIds fragments ++ statementIds others := by
  simp [statementIds]

theorem Walk.tree {controls nested : List Fragment} (hget : body.get? f.id = some f)
    (hstatement : f.isStatement = true) (hcontrols : f.HasControls controls)
    (hnested : body.Walk f.children (statementIds nested)) :
    body.Walk [f.id] (statementIds (f :: (controls ++ nested))) := by
  have hids : statementIds (f :: (controls ++ nested)) = f.id :: statementIds nested := by
    simp [statementIds, hstatement, hcontrols.filter_isStatement]
  rw [hids]
  refine .visit hget ?_
  rwa [List.append_nil]

end Body

namespace Statement

theorem number_walk (declared : Fragment → List Nat) (s : RowStart) (statements : List Statement)
    (hshaped : ∀ statement ∈ statements, IsShaped statement)
    (hget : ∀ f ∈ settled declared (s.number statements), body.get? f.id = some f) :
    body.Walk ((siblingsAll s.id statements).map Prod.fst)
      (Body.statementIds (settled declared (s.number statements))) := by
  induction statements using inductionOnRow generalizing s with
  | nil => exact .done
  | unknown line label rest ih => exact ih s (List.forall_mem_cons.mp hshaped).2 hget
  | known head nested handlers rest ihNested ihRest =>
    obtain ⟨hhead, hinside, hrest⟩ := isShaped_row hshaped
    rw [settled_known] at hget ⊢
    rw [List.forall_mem_append, List.forall_mem_cons, List.forall_mem_append] at hget
    obtain ⟨⟨hgetHead, -, hgetNested⟩, hgetRest⟩ := hget
    rw [siblingsAll_known, Body.statementIds_append]
    exact (Body.Walk.tree hgetHead
      (settledHead_isStatement declared s nested handlers hhead.shape)
      (settledHead_hasControls declared s head nested handlers)
      (ihNested (s.inside head) hinside hgetNested)).append
      (ihRest (s.behind head nested) hrest hgetRest)

end Statement

namespace Body

theorem statements_pairwise
    (hids : body.fragments.map Fragment.id = List.range body.fragments.length) :
    (body.statements.map Fragment.id).Pairwise (· < ·) := by
  have hall : (body.fragments.map Fragment.id).Pairwise (· < ·) := hids ▸ List.pairwise_lt_range
  exact hall.sublist (List.filter_sublist.map _)

theorem ofMethod_walk (around : Surroundings) (method : Node) (parameters : List Node) :
    (ofMethod around method parameters).Walk (ofMethod around method parameters).root?.toList
      ((ofMethod around method parameters).statements.map Fragment.id) := by
  obtain ⟨declared, hfragments⟩ := ofMethod_fragments around method parameters
  have harena := ofMethod_isArena around method parameters
  have hwalk := Statement.number_walk declared { } _
    (statementsOf_isShaped around method) fun f hf => harena.get?_id (hfragments ▸ hf)
  rw [ofMethod_root?, statements, hfragments, numberedOf]
  cases hbody : method.body? with
  | none =>
    rw [statementsOf_eq_nil around hbody] at hwalk ⊢
    exact hwalk
  | some block =>
    obtain ⟨nested, hstatements⟩ := statementsOf_eq_block around hbody
    rw [hstatements] at hwalk ⊢
    exact hwalk

theorem IsArena.walk_eq_descendants (h : body.IsArena)
    (hsorted : (body.statements.map Fragment.id).Pairwise (· < ·)) (hf : f ∈ body.fragments)
    {part : List Nat} (hwalk : body.Walk f.children part) (hpart : part.Pairwise (· < ·)) :
    part = (body.descendants f).map Fragment.id := by
  have hmem : ∀ id, id ∈ part ↔ Relation.TransGen body.Lists f.id id := by
    intro id
    rw [hwalk.mem_iff, Relation.TransGen.head'_iff]
    simp [Lists, h.get?_id hf]
  refine hpart.eq_of_mem_iff (hsorted.sublist (List.filter_sublist.map _)) fun {id} => ?_
  rw [hmem]
  constructor
  · intro hchain
    obtain ⟨_, -, hlists⟩ := Relation.TransGen.tail'_iff.mp hchain
    obtain ⟨-, g, hget, hstatement⟩ := h.lists_iff.mp hlists
    have hg := mem_of_get? hget
    obtain rfl := h.ids id g hget
    exact List.mem_map_of_mem
      (h.mem_descendants.mpr ⟨hg, hstatement, (h.transGen_lists_iff hg hstatement).mp hchain⟩)
  · intro hid
    obtain ⟨g, hdescendant, rfl⟩ := List.mem_map.mp hid
    obtain ⟨hg, hstatement, hchain⟩ := h.mem_descendants.mp hdescendant
    exact (h.transGen_lists_iff hg hstatement).mpr hchain

theorem IsArena.walk_children (h : body.IsArena) {roots : List Nat}
    (hwalk : body.Walk roots (body.statements.map Fragment.id))
    (hsorted : (body.statements.map Fragment.id).Pairwise (· < ·)) (hf : f ∈ body.fragments) :
    body.Walk f.children ((body.descendants f).map Fragment.id) := by
  have hpart : ∃ part : List Nat, body.Walk f.children part ∧ part.Pairwise (· < ·) := by
    cases hstatement : f.isStatement with
    | true =>
      have hid : f.id ∈ body.statements.map Fragment.id :=
        List.mem_map_of_mem (List.mem_filter.mpr ⟨hf, hstatement⟩)
      obtain ⟨part, hsublist, hinside⟩ := hwalk.inside (h.get?_id hf) hid
      exact ⟨part, hinside, hsorted.sublist hsublist⟩
    | false =>
      have hshape : f.shape ≠ .composite := by
        rintro hcomposite
        simp [Fragment.isStatement, hcomposite] at hstatement
      rw [(h.simple f hf hshape).1]
      exact ⟨[], .done, .nil⟩
  obtain ⟨part, hinside, hincreasing⟩ := hpart
  exact h.walk_eq_descendants hsorted hf hinside hincreasing ▸ hinside

/-- The fragments of a method form a tree below the block of its body. Within as many rounds as
there are fragments, the walk from that block meets the statements, in the order of their numbers,
and the walk from inside a fragment meets its descendants: the statements with it on their parent
chain. -/
theorem ofMethod_isTree (around : Surroundings) (method : Node) (parameters : List Node) :
    let body := ofMethod around method parameters
    body.IsArena ∧ body.root? = method.body?.map (fun _ => 0) ∧
      body.walkUpTo body.fragments.length body.root?.toList =
        some (body.statements.map Fragment.id) ∧
      (body.statements.map Fragment.id).Pairwise (· < ·) ∧
      ∀ f ∈ body.fragments,
        body.walkUpTo body.fragments.length f.children =
          some ((body.descendants f).map Fragment.id) ∧
        ∀ g, g ∈ body.descendants f ↔ g ∈ body.fragments ∧ g.isStatement = true ∧
          Relation.TransGen body.IsParent f.id g.id := by
  intro body
  have harena : body.IsArena := ofMethod_isArena around method parameters
  have hwalk := ofMethod_walk around method parameters
  have hsorted : (body.statements.map Fragment.id).Pairwise (· < ·) :=
    statements_pairwise (ofMethod_ids around method parameters)
  have hbound : (body.statements.map Fragment.id).length ≤ body.fragments.length := by
    rw [List.length_map]
    exact List.length_filter_le _ _
  refine ⟨harena, ofMethod_root? around method parameters, hwalk.walkUpTo_eq hbound, hsorted, ?_⟩
  intro f hf
  refine ⟨?_, fun g => harena.mem_descendants⟩
  refine (harena.walk_children hwalk hsorted hf).walkUpTo_eq (Nat.le_trans ?_ hbound)
  rw [List.length_map, List.length_map]
  exact List.length_filter_le _ _

end Body

end CodeEvolution
