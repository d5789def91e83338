import CodeEvolution.Model.OfUnit
import CodeEvolution.Proofs.Body.Arena
import CodeEvolution.Proofs.Body.Places
/-!
# No statement is lost

Every node in the place of a statement is kept once, as a fragment or as a node reported as
skipped, and there are no other statements. This is carried through the numbering by pairings of
places with fragments, which can be put one after the other, moved below a parent, and closed under
a statement that holds what is paired.
-/
namespace CodeEvolution

variable {node : Node} (places : List Place) {around : Surroundings} {stop position : Nat}
  (f : Place → Place) (pairs : List (Place × Fragment))

namespace Place

variable (position : Nat) (places : List Place)

/-- The statements among some places, each with the fragment it is. A place and its fragment have
one span and one kind, and the parent of the fragment is the fragment of what holds the place:
`parent` for what lies outside. -/
structure Pairing (parent : Option Nat) (places : List Place) (fragments : List Fragment)
    (pairs : List (Place × Fragment)) : Prop where
  places : pairs.map Prod.fst = places.filter isStatement
  fragments : pairs.map Prod.snd = fragments.filter Fragment.isStatement
  same : ∀ pair ∈ pairs, pair.2.span = pair.1.node.span ∧
    pair.1.node.kind.statementKind? = some pair.2.kind
  parent : ∀ pair ∈ pairs, (pair.1.holder = none ∧ pair.2.parent = parent) ∨
    ∃ other ∈ pairs, pair.1.holder = some other.1.address ∧ pair.2.parent = some other.2.id

def unknowns (places : List Place) : List (Nat × String) :=
  (places.filter fun place => !place.isStatement).map fun place =>
    (place.node.span.startLine, place.node.kind.label)

theorem filter_isStatement_map_under :
    (places.map (under position)).filter isStatement =
      (places.filter isStatement).map (under position) :=
  List.filter_map

theorem filter_isStatement_map_held :
    (places.map held).filter isStatement = (places.filter isStatement).map held :=
  List.filter_map

theorem unknowns_append (places' : List Place) :
    unknowns (places ++ places') = unknowns places ++ unknowns places' := by
  simp [unknowns]

theorem unknowns_map_under : unknowns (places.map (under position)) = unknowns places := by
  rw [unknowns, List.filter_map, List.map_map]
  rfl

theorem unknowns_map_held : unknowns (places.map held) = unknowns places := by
  rw [unknowns, List.filter_map, List.map_map]
  rfl

theorem map_fst_relabelled :
    (pairs.map (Prod.map f id)).map Prod.fst = (pairs.map Prod.fst).map f := by
  simp

theorem map_snd_relabelled : (pairs.map (Prod.map f id)).map Prod.snd = pairs.map Prod.snd := by
  simp

namespace Pairing

variable {parent : Option Nat} {places : List Place} {fragments : List Fragment}
  {pairs : List (Place × Fragment)}

theorem nil : Pairing parent [] [] [] where
  places := rfl
  fragments := rfl
  same := by simp
  parent := by simp

theorem append {places' : List Place} {fragments' : List Fragment}
    {pairs' : List (Place × Fragment)} (h : Pairing parent places fragments pairs)
    (h' : Pairing parent places' fragments' pairs') :
    Pairing parent (places ++ places') (fragments ++ fragments') (pairs ++ pairs') where
  places := by rw [List.map_append, List.filter_append, h.places, h'.places]
  fragments := by rw [List.map_append, List.filter_append, h.fragments, h'.fragments]
  same := by
    intro pair hpair
    rcases List.mem_append.mp hpair with hpair | hpair
    · exact h.same pair hpair
    · exact h'.same pair hpair
  parent := by
    intro pair hpair
    rcases List.mem_append.mp hpair with hpair | hpair
    · refine (h.parent pair hpair).imp_right ?_
      rintro ⟨other, hother, hholder⟩
      exact ⟨other, List.mem_append_left _ hother, hholder⟩
    · refine (h'.parent pair hpair).imp_right ?_
      rintro ⟨other, hother, hholder⟩
      exact ⟨other, List.mem_append_right _ hother, hholder⟩

theorem map_under (h : Pairing parent places fragments pairs) (position : Nat) :
    Pairing parent (places.map (under position)) fragments
      (pairs.map (Prod.map (under position) id)) where
  places := by
    rw [map_fst_relabelled, h.places, filter_isStatement_map_under]
  fragments := by
    rw [map_snd_relabelled, h.fragments]
  same := by
    intro pair hpair
    obtain ⟨origin, horigin, rfl⟩ := List.mem_map.mp hpair
    exact h.same origin horigin
  parent := by
    intro pair hpair
    obtain ⟨origin, horigin, rfl⟩ := List.mem_map.mp hpair
    rcases h.parent origin horigin with ⟨hnone, hparent⟩ | ⟨other, hother, hholder, hparent⟩
    · exact Or.inl ⟨by simp [under, hnone], hparent⟩
    · exact Or.inr ⟨_, List.mem_map_of_mem hother, by simp [under, hholder], hparent⟩

theorem tree {f : Fragment} {controls : List Fragment} (hspan : f.span = node.span)
    (hkind : node.kind.statementKind? = some f.kind) (hstatement : f.isStatement = true)
    (hparent : f.parent = parent) (hcontrols : f.HasControls controls)
    (h : Pairing (some f.id) places fragments pairs) :
    Pairing parent (⟨[], none, node⟩ :: places.map held) (f :: (controls ++ fragments))
      ((⟨[], none, node⟩, f) :: pairs.map (Prod.map held id)) where
  places := by
    have hnode : isStatement ⟨[], none, node⟩ = true := by
      simp [isStatement, hkind]
    rw [List.filter_cons_of_pos hnode, List.map_cons, map_fst_relabelled, h.places,
      filter_isStatement_map_held]
  fragments := by
    rw [List.filter_cons_of_pos hstatement, List.filter_append, hcontrols.filter_isStatement,
      List.nil_append, List.map_cons, map_snd_relabelled, h.fragments]
  same := by
    intro pair hpair
    rcases List.mem_cons.mp hpair with rfl | hpair
    · exact ⟨hspan, hkind⟩
    · obtain ⟨origin, horigin, rfl⟩ := List.mem_map.mp hpair
      exact h.same origin horigin
  parent := by
    intro pair hpair
    rcases List.mem_cons.mp hpair with rfl | hpair
    · exact Or.inl ⟨rfl, hparent⟩
    · right
      obtain ⟨origin, horigin, rfl⟩ := List.mem_map.mp hpair
      rcases h.parent origin horigin with ⟨hnone, hparent⟩ | ⟨other, hother, hholder, hparent⟩
      · exact ⟨_, List.mem_cons_self, by simp [held, hnone], hparent⟩
      · refine ⟨_, List.mem_cons_of_mem _ (List.mem_map_of_mem hother), ?_, hparent⟩
        simp [held, hholder]

end Pairing

end Place

namespace Statement

theorem unknownsOf_append (statements others : List Statement) :
    unknownsOf (statements ++ others) = unknownsOf statements ++ unknownsOf others := by
  induction statements with
  | nil => rfl
  | cons statement rest ih =>
    rw [List.cons_append, unknownsOf, unknownsOf, ih, List.append_assoc]

/-- Statements keep some places: however they are numbered, the statements among the places pair
with the fragments, and the other places are the unknown nodes. -/
structure Conserves (places : List Place) (statements : List Statement) : Prop where
  paired : ∀ declared (s : RowStart), ∃ pairs,
    Place.Pairing s.parent places (settled declared (s.number statements)) pairs
  skipped : unknownsOf statements = Place.unknowns places

namespace Conserves

variable {places places' : List Place} {statements statements' : List Statement}

theorem nil : Conserves [] [] where
  paired _ _ := ⟨[], .nil⟩
  skipped := rfl

theorem append (h : Conserves places statements) (h' : Conserves places' statements') :
    Conserves (places ++ places') (statements ++ statements') where
  paired declared s := by
    obtain ⟨pairs, hpairs⟩ := h.paired declared s
    rw [number_append, settled_append]
    obtain ⟨pairs', hpairs'⟩ := h'.paired declared
      { s with index := s.index + (siblingsAll s.id statements).length
               id := s.id + sizeAll statements }
    exact ⟨pairs ++ pairs', hpairs.append hpairs'⟩
  skipped := by
    rw [unknownsOf_append, Place.unknowns_append, h.skipped, h'.skipped]

theorem flatMap {positions : List Nat} {places : Nat → List Place}
    {statements : Nat → List Statement}
    (h : ∀ position ∈ positions, Conserves (places position) (statements position)) :
    Conserves (positions.flatMap places) (positions.flatMap statements) := by
  induction positions with
  | nil => exact nil
  | cons position rest ih =>
    obtain ⟨hfirst, hrest⟩ := List.forall_mem_cons.mp h
    rw [List.flatMap_cons, List.flatMap_cons]
    exact hfirst.append (ih hrest)

theorem map_under (h : Conserves places statements) (position : Nat) :
    Conserves (places.map (Place.under position)) statements where
  paired declared s := by
    obtain ⟨pairs, hpairs⟩ := h.paired declared s
    exact ⟨_, hpairs.map_under position⟩
  skipped := by rw [Place.unknowns_map_under, h.skipped]

theorem unknown (hkind : node.kind.statementKind? = none) :
    Conserves [⟨[], none, node⟩] [.unknown node.span.startLine node.kind.label] where
  paired _ _ := by
    refine ⟨[], ?_, rfl, by simp, by simp⟩
    simp [Place.isStatement, hkind]
  skipped := by
    simp [unknownsOf, unknowns, Place.unknowns, Place.isStatement, hkind]

theorem known {kind : StatementKind} {head : StatementHead} {nested handlers : List Statement}
    (hhead : IsHead node kind head) (hkind : node.kind.statementKind? = some kind)
    (h : Conserves places nested) (h' : Conserves places' handlers) :
    Conserves (⟨[], none, node⟩ :: (places.map Place.held ++ places'))
      [.known head nested handlers] where
  paired declared s := by
    obtain ⟨pairs, hpairs⟩ := h.paired declared (s.inside head)
    obtain ⟨pairs', hpairs'⟩ := h'.paired declared (s.behind head nested)
    rw [settled_known, List.append_nil]
    exact ⟨_, (Place.Pairing.tree hhead.span (hkind.trans (congrArg some hhead.kind.symm))
      (settledHead_isStatement declared s nested handlers hhead.shape) rfl
      (settledHead_hasControls declared s head nested handlers) hpairs).append hpairs'⟩
  skipped := by
    have hnode : Place.unknowns (⟨[], none, node⟩ :: (places.map Place.held ++ places')) =
        Place.unknowns (places.map Place.held ++ places') := by
      simp [Place.unknowns, Place.isStatement, hkind]
    rw [hnode, Place.unknowns_append, Place.unknowns_map_held, ← h.skipped, ← h'.skipped]
    simp [unknownsOf, unknowns]

end Conserves

theorem insideAt_conserves
    (hplain : ∀ place ∈ node.placesBelow position, place.node.hasPlainClauses = true)
    (ih : ∀ child ∈ node.children, (∀ place ∈ child.places, place.node.hasPlainClauses = true) →
      Conserves child.places (ofNode around stop child)) :
    Conserves (node.placesBelow position)
      (insideAt node (node.children.map (ofNode around stop)) position) := by
  cases hchild : node.children[position]? with
  | none =>
    rw [Node.placesBelow_none hchild]
    simpa [insideAt, branch, hchild] using Conserves.nil
  | some child =>
    rw [Node.placesBelow_some hchild] at hplain ⊢
    rw [insideAt_map _ hchild]
    split
    · exact .nil
    · rename_i hpresent
      rw [if_neg hpresent, List.forall_mem_map] at hplain
      exact (ih child (List.mem_of_getElem? hchild) hplain).map_under position

theorem besideAt_conserves (hposition : position ∈ node.kind.beside node.children.length)
    (hclauses : node.hasPlainClauses = true)
    (hplain : ∀ place ∈ node.placesBelow position, place.node.hasPlainClauses = true)
    (ih : ∀ child ∈ node.children, (∀ place ∈ child.places, place.node.hasPlainClauses = true) →
      Conserves child.places (ofNode around stop child)) :
    Conserves (node.placesBelow position)
      (besideAt node (node.children.map (ofNode around stop)) position) := by
  cases hchild : node.children[position]? with
  | none =>
    rw [Node.placesBelow_none hchild]
    simpa [besideAt, hchild] using Conserves.nil
  | some child =>
    have hkind : child.kind.isClause || child.isAbsent || child.kind.isComment := by
      simpa [hchild] using List.all_eq_true.mp hclauses position hposition
    rw [Node.placesBelow_some hchild, NodeKind.hasSlots_of_mem_beside hposition,
      Bool.true_and] at hplain ⊢
    rw [besideAt_map _ hchild]
    cases hclause : child.kind.isClause with
    | true =>
      have hpresent : ¬child.isAbsent = true := by
        rw [Node.isAbsent_of_isClause hclause]
        exact Bool.false_ne_true
      rw [if_neg hpresent, List.forall_mem_map] at hplain
      rw [if_neg hpresent, if_pos rfl]
      exact (ih child (List.mem_of_getElem? hchild) hplain).map_under position
    | false =>
      have hnone : (if child.isAbsent = true then []
          else child.places.map (Place.under position)) = [] := by
        split
        · rfl
        · rename_i hpresent
          have hcomment : child.kind.isComment = true := by simpa [hclause, hpresent] using hkind
          rw [Node.places_comment hcomment, List.map_nil]
      rw [hnone]
      exact .nil

theorem ofNode_conserves (around : Surroundings) (blockEnd : Nat)
    (hplain : ∀ place ∈ node.places, place.node.hasPlainClauses = true) :
    Conserves node.places (ofNode around blockEnd node) := by
  induction node using Node.inductionOnChildren generalizing blockEnd with
  | step node ih =>
    obtain ⟨stop, hnode⟩ := ofNode_eq around blockEnd node
    have ih' : ∀ child ∈ node.children,
        (∀ place ∈ child.places, place.node.hasPlainClauses = true) →
          Conserves child.places (ofNode around stop child) :=
      fun child hchild hplain => ih child hchild stop hplain
    rw [hnode]
    cases hcomment : node.kind.isComment with
    | true =>
      rw [Node.places_comment hcomment, ofKind_comment around blockEnd _ hcomment]
      exact .nil
    | false =>
      rw [Node.places_eq hcomment] at hplain ⊢
      cases hkind : node.kind.statementKind? with
      | none =>
        obtain ⟨hinside, hbeside⟩ := NodeKind.positions_eq_nil hkind node.children.length
        rw [hinside, hbeside, ofKind_unknown around blockEnd _ hkind hcomment]
        exact .unknown hkind
      | some kind =>
        obtain ⟨head, hhead, heq⟩ := ofKind_known around blockEnd hkind (List.length_map _)
        rw [List.forall_mem_cons, List.forall_mem_append, List.forall_mem_map] at hplain
        obtain ⟨hclauses, hinside, hbeside⟩ := hplain
        rw [heq]
        refine .known hhead hkind (.flatMap fun position hposition => ?_)
          (.flatMap fun position hposition => ?_)
        · exact insideAt_conserves
            (fun place hplace => hinside place (List.mem_flatMap_of_mem hposition hplace)) ih'
        · exact besideAt_conserves hposition hclauses
            (fun place hplace => hbeside place (List.mem_flatMap_of_mem hposition hplace)) ih'

end Statement

namespace Body

theorem statementsOf_conserves (around : Surroundings) {method : Node}
    (hplain : ∀ place ∈ method.bodyPlaces, place.node.hasPlainClauses = true) :
    Statement.Conserves method.bodyPlaces (statementsOf around method) := by
  unfold Node.bodyPlaces at hplain ⊢
  unfold statementsOf
  cases hbody : method.body? with
  | none => exact .nil
  | some block =>
    rw [hbody] at hplain
    exact Statement.ofNode_conserves around around.bodyEnd hplain

theorem bodyPlaces_pairwise (method : Node) :
    (method.bodyPlaces.map Place.address).Pairwise (· < ·) := by
  unfold Node.bodyPlaces
  split
  · exact Node.places_pairwise _
  · exact .nil

theorem mem_bodyPlaces {method : Node} {place : Place} :
    place ∈ method.bodyPlaces ↔ ∃ block, method.body? = some block ∧
      Relation.ReflTransGen Place.Leads ⟨[], none, block⟩ place := by
  unfold Node.bodyPlaces
  cases hbody : method.body? with
  | none => simp
  | some block =>
    have hcomment : block.kind.isComment = false := by
      rw [Node.isBlock_of_body? hbody]
      rfl
    simp [Node.mem_places_iff hcomment]

/-- Below the body of a method every node in the place of a statement is either the statement of
one fragment or reported as skipped, once, and no other fragment is a statement. Fragments and
reports come in the order of the nodes in the tree, and fragments hang together as the nodes do,
the clauses of a `try` beside it. -/
theorem ofMethod_conserves (around : Surroundings) (file : FileContext) (method : Node)
    (parameters : List Node)
    (hplain : ∀ place ∈ method.bodyPlaces, place.node.hasPlainClauses = true) :
    (∃ pairs, Place.Pairing none method.bodyPlaces
        (ofMethod around method parameters).fragments pairs) ∧
      Operation.skippedIn file method =
        (method.bodyPlaces.filter fun place => !place.isStatement).map (fun place =>
          .nodeSkipped file.path place.node.span.startLine place.node.kind.label) ∧
      (method.bodyPlaces.map Place.address).Pairwise (· < ·) ∧
      ∀ place, place ∈ method.bodyPlaces ↔ ∃ block, method.body? = some block ∧
        Relation.ReflTransGen Place.Leads ⟨[], none, block⟩ place := by
  refine ⟨?_, ?_, bodyPlaces_pairwise method, fun place => mem_bodyPlaces⟩
  · obtain ⟨declared, hfragments⟩ := ofMethod_fragments around method parameters
    rw [hfragments]
    exact (statementsOf_conserves around hplain).paired declared { }
  · rw [Operation.skippedIn, (statementsOf_conserves _ hplain).skipped, Place.unknowns,
      List.map_map]
    rfl

end Body

namespace GuardedReturn

def line (number : Nat) : Span :=
  { startLine := number, endLine := number }

def handler : Node :=
  ⟨.catchClause, line 4,
    [⟨.expressionList, line 4, []⟩, ⟨.absent, line 4, []⟩, ⟨.block, line 5, [⟨.pass, line 5, []⟩]⟩]⟩

/-- A `try` with a handler, no `else`, and an empty `finally`. -/
def guarded : Node :=
  ⟨.tryStatement, line 2,
    [⟨.expressionList, line 2, []⟩,
      ⟨.block, line 3, [⟨.returnStatement, line 3, [⟨.absent, line 3, []⟩]⟩]⟩,
      handler, ⟨.absent, line 2, []⟩, ⟨.finallyClause, line 6, [⟨.block, line 6, []⟩]⟩]⟩

/-- A comment, the `try`, and a construct of no known kind. -/
def method : Node :=
  ⟨.methodDeclaration ⟨"read", {}, false, false⟩, {},
    [⟨.absent, {}, []⟩,
      ⟨.block, line 1,
        [⟨.comment "# first try", line 1, []⟩, guarded,
          ⟨.other "exec_statement" "exec x", line 7, []⟩]⟩]⟩

end GuardedReturn

theorem Body.ofMethod_conserves_guarded :
    (∀ place ∈ GuardedReturn.method.bodyPlaces, place.node.hasPlainClauses = true) ∧
      (GuardedReturn.method.bodyPlaces.map fun place => (place.address, place.holder)) =
        [([], none), ([1], some []), ([1, 1], some [1]), ([1, 1, 0], some [1, 1]),
          ([1, 2], some []), ([1, 2, 2], some [1, 2]), ([1, 2, 2, 0], some [1, 2, 2]),
          ([1, 4], some []), ([1, 4, 0], some [1, 4]), ([2], some [])] ∧
      (∃ pairs, Place.Pairing none GuardedReturn.method.bodyPlaces
        (Body.ofMethod (Body.surroundings .python "m.py" {} none GuardedReturn.method)
          GuardedReturn.method []).fragments pairs) ∧
      Operation.skippedIn ⟨"m.py", .python, "m"⟩ GuardedReturn.method =
        [.nodeSkipped "m.py" 7 "exec_statement"] := by
  have hplain : ∀ place ∈ GuardedReturn.method.bodyPlaces,
      place.node.hasPlainClauses = true := by decide
  obtain ⟨hpairs, hskipped, -⟩ := Body.ofMethod_conserves
    (Body.surroundings .python "m.py" {} none GuardedReturn.method) ⟨"m.py", .python, "m"⟩
    GuardedReturn.method [] hplain
  exact ⟨hplain, rfl, hpairs, hskipped⟩

end CodeEvolution
