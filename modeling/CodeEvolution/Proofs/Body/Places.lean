import CodeEvolution.Proofs.Body.Slots
import Mathlib.Logic.Relation
/-!
# Places of statements

A node below the body of a method stands in the place of a statement if one comes to it from the
body by going from a node to a statement inside it or to a clause beside it. These places are
listed in the order of the tree, each with its address, the positions that lead to it, and with the
address of what holds it.
-/
namespace CodeEvolution

/-- A node in the place of a statement, somewhere in a tree. What holds it is given by its address,
and by none if it lies outside the tree. -/
structure Place where
  address : List Nat
  holder : Option (List Nat)
  node : Node

variable {node : Node} {place next : Place} {position : Nat}

namespace Place

def isStatement (place : Place) : Bool :=
  place.node.kind.statementKind?.isSome

def under (position : Nat) (place : Place) : Place :=
  { place with
    address := position :: place.address
    holder := place.holder.map (position :: ·) }

/-- A place that the top of the tree holds unless something in the tree does. -/
def held (place : Place) : Place :=
  { place with holder := some (place.holder.getD []) }

end Place

/-- The child of a node at a position stands in the place of a statement: it is no comment, and
where empty slots are marked it is no mark. -/
structure Node.HasPlaceAt (node : Node) (position : Nat) (child : Node) : Prop where
  listed : node.children[position]? = some child
  comment : child.kind.isComment = false
  present : (node.kind.hasSlots && child.isAbsent) = false

namespace Place

/-- One step from a node in the place of a statement to another: to one inside it, which it holds,
or to a clause beside it, which is held by what holds the node. -/
inductive Leads (place : Place) : Place → Prop
  | inside {position : Nat} {child : Node}
      (mem : position ∈ place.node.kind.inside place.node.children.length)
      (at_position : place.node.HasPlaceAt position child) :
      Leads place ⟨place.address ++ [position], some place.address, child⟩
  | beside {position : Nat} {child : Node}
      (mem : position ∈ place.node.kind.beside place.node.children.length)
      (at_position : place.node.HasPlaceAt position child) :
      Leads place ⟨place.address ++ [position], place.holder, child⟩

theorem Leads.under (h : place.Leads next) (position : Nat) :
    (place.under position).Leads (next.under position) := by
  cases h with
  | inside hposition hplace => exact .inside hposition hplace
  | beside hposition hplace => exact .beside hposition hplace

theorem Leads.held (h : place.Leads next) : place.held.Leads next.held := by
  cases h with
  | inside hposition hplace => exact .inside hposition hplace
  | beside hposition hplace => exact .beside hposition hplace

theorem leads_under (h : (place.under position).Leads next) :
    ∃ origin, place.Leads origin ∧ next = origin.under position := by
  cases h with
  | inside hposition hplace => exact ⟨_, .inside hposition hplace, rfl⟩
  | beside hposition hplace => exact ⟨_, .beside hposition hplace, rfl⟩

theorem leads_held (h : place.held.Leads next) :
    ∃ origin, place.Leads origin ∧ next = origin.held := by
  cases h with
  | inside hposition hplace => exact ⟨_, .inside hposition hplace, rfl⟩
  | beside hposition hplace => exact ⟨_, .beside hposition hplace, rfl⟩

end Place

theorem NodeKind.positions_pairwise (kind : NodeKind) (count : Nat) :
    (kind.inside count ++ kind.beside count).Pairwise (· < ·) := by
  have hrange : ∀ start length, (List.range' start length).Pairwise (· < ·) := by
    intro start length
    exact List.pairwise_lt_range'
  cases kind
  case forLoop style => cases style <;> simp [inside, beside]
  case tryStatement =>
    refine List.pairwise_cons.mpr ⟨?_, hrange 2 (count - 2)⟩
    intro position hposition
    exact (List.mem_range'_1.mp hposition).1
  all_goals simp [inside, beside, hrange, List.pairwise_lt_range]

theorem NodeKind.positions_eq_nil {kind : NodeKind} (h : kind.statementKind? = none)
    (count : Nat) : kind.inside count = [] ∧ kind.beside count = [] := by
  cases kind
  all_goals first
    | exact ⟨rfl, rfl⟩
    | cases h

theorem NodeKind.hasSlots_of_mem_beside {kind : NodeKind} {count : Nat}
    (h : position ∈ kind.beside count) : kind.hasSlots = true := by
  cases kind
  case tryStatement => rfl
  all_goals exact absurd h List.not_mem_nil

namespace Node

theorem isAbsent_of_isClause (h : node.kind.isClause = true) : node.isAbsent = false := by
  unfold isAbsent
  cases hkind : node.kind
  case absent => simp [hkind, NodeKind.isClause] at h
  all_goals rfl

/-- The places from the child at a position on. Where empty slots are marked, a mark is no place. -/
def placesAt (children : List Node) (below : List (List Place)) (hasSlots : Bool)
    (position : Nat) : List Place :=
  match children[position]?, below[position]? with
  | some child, some places =>
    if hasSlots && child.isAbsent then [] else places.map (Place.under position)
  | _, _ => []

mutual

/-- The places from a node on that stands in the place of a statement: the node, what it holds,
and the clauses beside it, held by what holds the node. A comment is no place. -/
def places : Node → List Place
  | ⟨kind, span, children⟩ =>
    let below := placesAt children (placesOf children) kind.hasSlots
    if kind.isComment then []
    else
      ⟨[], none, ⟨kind, span, children⟩⟩ ::
        (((kind.inside children.length).flatMap below).map Place.held ++
          (kind.beside children.length).flatMap below)

def placesOf : List Node → List (List Place)
  | [] => []
  | node :: rest => places node :: placesOf rest

end

def bodyPlaces (method : Node) : List Place :=
  match method.body? with
  | some block => block.places
  | none => []

/-- Beside a `try` there are only its clauses, the marks of empty slots, and comments. -/
def hasPlainClauses (node : Node) : Bool :=
  (node.kind.beside node.children.length).all fun position =>
    node.children[position]?.all fun child =>
      child.kind.isClause || child.isAbsent || child.kind.isComment

theorem placesOf_eq_map (nodes : List Node) : placesOf nodes = nodes.map places := by
  induction nodes with
  | nil => rw [placesOf, List.map_nil]
  | cons node rest ih => rw [placesOf, List.map_cons, ih]

theorem places_comment (h : node.kind.isComment = true) : node.places = [] := by
  obtain ⟨kind, span, children⟩ := node
  rw [places]
  exact if_pos h

def placesBelow (node : Node) (position : Nat) : List Place :=
  placesAt node.children (node.children.map places) node.kind.hasSlots position

theorem places_eq (h : node.kind.isComment = false) :
    node.places =
      ⟨[], none, node⟩ ::
        (((node.kind.inside node.children.length).flatMap node.placesBelow).map Place.held ++
          (node.kind.beside node.children.length).flatMap node.placesBelow) := by
  obtain ⟨kind, span, children⟩ := node
  rw [places, placesOf_eq_map]
  exact if_neg (by rw [h]; exact Bool.false_ne_true)

theorem placesBelow_none (h : node.children[position]? = none) :
    node.placesBelow position = [] := by
  simp [placesBelow, placesAt, h]

theorem placesBelow_some {child : Node} (h : node.children[position]? = some child) :
    node.placesBelow position =
      if node.kind.hasSlots && child.isAbsent then []
      else child.places.map (Place.under position) := by
  simp [placesBelow, placesAt, h]

theorem mem_placesBelow :
    place ∈ node.placesBelow position ↔
      ∃ child, node.children[position]? = some child ∧
        (node.kind.hasSlots && child.isAbsent) = false ∧
          ∃ origin ∈ child.places, place = origin.under position := by
  cases hchild : node.children[position]? with
  | none => simp [placesBelow_none hchild]
  | some child =>
    rw [placesBelow_some hchild]
    constructor
    · intro h
      split at h
      · exact absurd h List.not_mem_nil
      · rename_i hpresent
        obtain ⟨origin, horigin, rfl⟩ := List.mem_map.mp h
        exact ⟨child, rfl, Bool.eq_false_iff.mpr hpresent, origin, horigin, rfl⟩
    · rintro ⟨_, hsame, hpresent, origin, horigin, rfl⟩
      obtain rfl := Option.some.inj hsame
      rw [if_neg (Bool.eq_false_iff.mp hpresent)]
      exact List.mem_map_of_mem horigin

theorem mem_places (h : node.kind.isComment = false) :
    place ∈ node.places ↔
      place = ⟨[], none, node⟩ ∨
        (∃ position ∈ node.kind.inside node.children.length,
          ∃ origin ∈ node.placesBelow position, place = origin.held) ∨
        ∃ position ∈ node.kind.beside node.children.length, place ∈ node.placesBelow position := by
  rw [places_eq h]
  simp only [List.mem_cons, List.mem_append, List.mem_map, List.mem_flatMap]
  refine or_congr_right (or_congr_left ⟨?_, ?_⟩)
  · rintro ⟨origin, ⟨position, hposition, horigin⟩, rfl⟩
    exact ⟨position, hposition, origin, horigin, rfl⟩
  · rintro ⟨position, hposition, origin, horigin, rfl⟩
    exact ⟨origin, ⟨position, hposition, horigin⟩, rfl⟩

theorem isComment_of_mem_places (h : place ∈ node.places) : node.kind.isComment = false := by
  cases hcomment : node.kind.isComment with
  | true =>
    rw [places_comment hcomment] at h
    exact absurd h List.not_mem_nil
  | false => rfl

theorem placesBelow_pairwise
    (h : ∀ child ∈ node.children, (child.places.map Place.address).Pairwise (· < ·))
    (position : Nat) : ((node.placesBelow position).map Place.address).Pairwise (· < ·) := by
  cases hchild : node.children[position]? with
  | none => simp [placesBelow_none hchild]
  | some child =>
    rw [placesBelow_some hchild]
    split
    · exact .nil
    · have hsorted := h child (List.mem_of_getElem? hchild)
      rw [List.pairwise_map] at hsorted
      rw [List.map_map, List.pairwise_map]
      exact hsorted.imp fun hlt => List.cons_lt_cons_iff.mpr (Or.inr ⟨rfl, hlt⟩)

theorem flatMap_placesBelow_pairwise
    (h : ∀ child ∈ node.children, (child.places.map Place.address).Pairwise (· < ·))
    {positions : List Nat} (hpositions : positions.Pairwise (· < ·)) :
    (positions.flatMap fun position => (node.placesBelow position).map Place.address).Pairwise
      (· < ·) := by
  rw [List.pairwise_flatMap]
  refine ⟨fun position _ => placesBelow_pairwise h position, hpositions.imp ?_⟩
  intro position position' hlt address haddress address' haddress'
  obtain ⟨place, hplace, rfl⟩ := List.mem_map.mp haddress
  obtain ⟨place', hplace', rfl⟩ := List.mem_map.mp haddress'
  obtain ⟨_, _, _, origin, _, rfl⟩ := mem_placesBelow.mp hplace
  obtain ⟨_, _, _, origin', _, rfl⟩ := mem_placesBelow.mp hplace'
  exact List.cons_lt_cons_iff.mpr (Or.inl hlt)

theorem addresses_eq (h : node.kind.isComment = false) :
    node.places.map Place.address =
      [] :: (node.kind.inside node.children.length ++ node.kind.beside node.children.length).flatMap
        fun position => (node.placesBelow position).map Place.address := by
  rw [places_eq h, List.map_cons, List.map_append, List.map_map, List.flatMap_append,
    List.map_flatMap, List.map_flatMap]
  rfl

/-- Addresses grow along the places: a node comes before what is below it, and what is below an
earlier child before what is below a later one. -/
theorem places_pairwise (node : Node) : (node.places.map Place.address).Pairwise (· < ·) := by
  induction node using Node.inductionOnChildren with
  | step node ih =>
    cases hcomment : node.kind.isComment with
    | true => simp [places_comment hcomment]
    | false =>
      rw [addresses_eq hcomment, List.pairwise_cons]
      refine ⟨?_, flatMap_placesBelow_pairwise ih (node.kind.positions_pairwise _)⟩
      intro address haddress
      obtain ⟨position, -, hposition⟩ := List.mem_flatMap.mp haddress
      obtain ⟨place, hplace, rfl⟩ := List.mem_map.mp hposition
      obtain ⟨_, _, _, origin, _, rfl⟩ := mem_placesBelow.mp hplace
      exact List.nil_lt_cons _ _

theorem root_mem_places (h : node.kind.isComment = false) : ⟨[], none, node⟩ ∈ node.places := by
  rw [places_eq h]
  exact List.mem_cons_self

theorem mem_places_of_leads (h : place ∈ node.places) (hnext : place.Leads next) :
    next ∈ node.places := by
  induction node using Node.inductionOnChildren generalizing place next with
  | step node ih =>
    have hcomment := isComment_of_mem_places h
    -- A place below a child stays below it.
    have hbelow : ∀ {position origin next}, origin ∈ node.placesBelow position →
        origin.Leads next → next ∈ node.placesBelow position := by
      intro position origin next horigin hnext
      obtain ⟨child, hchild, hpresent, origin, hmem, rfl⟩ := mem_placesBelow.mp horigin
      obtain ⟨target, htarget, rfl⟩ := Place.leads_under hnext
      exact mem_placesBelow.mpr ⟨child, hchild, hpresent, target,
        ih child (List.mem_of_getElem? hchild) hmem htarget, rfl⟩
    rw [mem_places hcomment] at h ⊢
    rcases h with rfl | ⟨position, hposition, origin, horigin, rfl⟩ | ⟨position, hposition, horigin⟩
    · have hroot : ∀ {position child}, node.HasPlaceAt position child →
          Place.under position ⟨[], none, child⟩ ∈ node.placesBelow position := by
        intro position child hplace
        exact mem_placesBelow.mpr
          ⟨child, hplace.listed, hplace.present, _, root_mem_places hplace.comment, rfl⟩
      cases hnext with
      | inside hposition hplace =>
        exact Or.inr (Or.inl ⟨_, hposition, _, hroot hplace, rfl⟩)
      | beside hposition hplace =>
        exact Or.inr (Or.inr ⟨_, hposition, hroot hplace⟩)
    · obtain ⟨target, htarget, rfl⟩ := Place.leads_held hnext
      exact Or.inr (Or.inl ⟨position, hposition, target, hbelow horigin htarget, rfl⟩)
    · exact Or.inr (Or.inr ⟨position, hposition, hbelow horigin hnext⟩)

theorem leads_of_mem_places (h : place ∈ node.places) :
    Relation.ReflTransGen Place.Leads ⟨[], none, node⟩ place := by
  induction node using Node.inductionOnChildren generalizing place with
  | step node ih =>
    rcases (mem_places (isComment_of_mem_places h)).mp h with
      rfl | ⟨position, hposition, origin, horigin, rfl⟩ | ⟨position, hposition, horigin⟩
    · exact .refl
    · obtain ⟨child, hchild, hpresent, origin, hmem, rfl⟩ := mem_placesBelow.mp horigin
      have hfirst : Place.Leads ⟨[], none, node⟩ ⟨[position], some [], child⟩ :=
        .inside hposition ⟨hchild, isComment_of_mem_places hmem, hpresent⟩
      have hrest := ih child (List.mem_of_getElem? hchild) hmem
      exact .head hfirst (Relation.ReflTransGen.lift (fun place => (place.under position).held)
        (fun _ _ hleads => (hleads.under position).held) _ _ hrest)
    · obtain ⟨child, hchild, hpresent, origin, hmem, rfl⟩ := mem_placesBelow.mp horigin
      have hfirst : Place.Leads ⟨[], none, node⟩ ⟨[position], none, child⟩ :=
        .beside hposition ⟨hchild, isComment_of_mem_places hmem, hpresent⟩
      have hrest := ih child (List.mem_of_getElem? hchild) hmem
      exact .head hfirst (Relation.ReflTransGen.lift (Place.under position)
        (fun _ _ hleads => hleads.under position) _ _ hrest)

theorem mem_places_iff (h : node.kind.isComment = false) :
    place ∈ node.places ↔ Relation.ReflTransGen Place.Leads ⟨[], none, node⟩ place := by
  refine ⟨leads_of_mem_places, fun hleads => ?_⟩
  induction hleads with
  | refl => exact root_mem_places h
  | tail _ hnext ih => exact mem_places_of_leads ih hnext

end Node

end CodeEvolution
