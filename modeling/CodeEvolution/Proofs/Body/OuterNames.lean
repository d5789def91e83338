import CodeEvolution.Proofs.Body.Heads
/-!
# Names that a body leaves to an outer scope

A statement may say that a name belongs to an outer scope. Wherever such a statement stands below
the body of a method, one of the numbered statements says the same at the same place of the source.
-/
namespace CodeEvolution

variable {node : Node} {place : Place}

namespace Node

theorem isAbsent_of_kind (h : node.kind = .absent) : node.isAbsent = true := by
  simp [isAbsent, h]

/-- What stands beside a `try` that is laid out as it should be is a clause or marks an empty
slot. -/
theorem isClause_of_mem_beside {child : Node} (h : node.isLaidOut = true) {position : Nat}
    (hposition : position ∈ node.kind.beside node.children.length)
    (hchild : node.children[position]? = some child) :
    child.kind.isClause = true ∨ child.isAbsent = true := by
  obtain ⟨kind, span, children⟩ := node
  cases kind
  case tryStatement =>
    obtain ⟨hle, -⟩ := List.mem_range'_1.mp hposition
    obtain ⟨index, rfl⟩ := Nat.exists_eq_add_of_le' hle
    match children, h, hchild with
    | resources :: guarded :: rest, h, hchild =>
      simp only [isLaidOut, NodeKind.layout, List.map_cons, LayoutPart.admits_exactly_cons,
        Bool.and_eq_true] at h
      have hmem : child.kind ∈ rest.map Node.kind :=
        List.mem_map_of_mem (List.mem_of_getElem? hchild)
      obtain ⟨part, hpart, htest⟩ := LayoutPart.exists_test_of_admits h.2.2 hmem
      simp only [List.mem_cons, List.not_mem_nil, or_false] at hpart
      rcases hpart with rfl | rfl | rfl
      all_goals
        simp only [LayoutPart.test, LayoutPart.optional, Bool.or_eq_true, beq_iff_eq] at htest
      · exact Or.inl (by rw [htest]; rfl)
      · exact htest.imp (fun hkind => by rw [hkind]; rfl) isAbsent_of_kind
      · exact htest.imp (fun hkind => by rw [hkind]; rfl) isAbsent_of_kind
  all_goals exact absurd hposition List.not_mem_nil

end Node

namespace Statement

variable {around : Surroundings}

theorem clauseHead_outerNames (node : Node) : (clauseHead node).outerNames = [] := by
  unfold clauseHead
  split <;> rfl

theorem ofKind_outerNames {stop : Nat} {outlines : List (List Statement)} {head : StatementHead}
    {nested handlers : List Statement}
    (h : .known head nested handlers ∈ ofKind around stop node outlines) :
    head.outerNames = node.outerNames := by
  unfold ofKind at h
  unfold Node.outerNames
  split at h
  all_goals rename_i hkind
  all_goals
    simp only [List.not_mem_nil, List.mem_singleton, Statement.known.injEq, reduceCtorEq] at h
  all_goals
    obtain ⟨rfl, -, -⟩ := h
    rw [hkind]
  all_goals first
    | rfl
    | exact clauseHead_outerNames node

structure Renders (head : StatementHead) (node : Node) : Prop where
  span : head.span = node.span
  shape : head.shape ≠ .expression
  outerNames : head.outerNames = node.outerNames

theorem exists_head_of_place (around : Surroundings)
    (hlaid : node.Everywhere fun below => below.isLaidOut = true) (stop : Nat)
    (hplace : place ∈ node.places) (hstatement : place.isStatement = true) :
    ∃ head ∈ headsAll (ofNode around stop node), Renders head place.node := by
  induction node using Node.inductionOnChildren generalizing stop place with
  | step node ih =>
    have hcomment := Node.isComment_of_mem_places hplace
    cases hkind : node.kind.statementKind? with
    | none =>
      obtain ⟨hinside, hbeside⟩ := NodeKind.positions_eq_nil hkind node.children.length
      rw [Node.places_eq hcomment, hinside, hbeside] at hplace
      obtain rfl := List.mem_singleton.mp hplace
      simp [Place.isStatement, hkind] at hstatement
    | some kind =>
      obtain ⟨head, hhead, heq⟩ := ofNode_known around stop hkind
      rw [heq, headsAll_singleton, heads]
      rcases (Node.mem_places hcomment).mp hplace with
        rfl | ⟨position, hposition, origin, horigin, rfl⟩ | ⟨position, hposition, horigin⟩
      · have hknown := heq ▸ List.mem_singleton_self _
        rw [ofNode_eq_ofKind] at hknown
        exact ⟨head, List.mem_cons_self, hhead.span, hhead.shape, ofKind_outerNames hknown⟩
      · obtain ⟨child, hchild, hpresent, origin, hmem, rfl⟩ := Node.mem_placesBelow.mp horigin
        have hinside := Node.mem_statementsInside.mpr ⟨position, hposition, hchild, hpresent⟩
        have hchild := List.mem_of_getElem? hchild
        obtain ⟨other, hother, hrenders⟩ := ih child hchild (hlaid.child hchild) _ hmem hstatement
        refine ⟨other, List.mem_cons_of_mem _ (List.mem_append_left _ ?_), hrenders⟩
        rw [headsAll_flatMap]
        exact List.mem_flatMap_of_mem hinside hother
      · obtain ⟨child, hchild, hpresent, origin, hmem, rfl⟩ := Node.mem_placesBelow.mp horigin
        have hclause : child.kind.isClause = true := by
          refine (Node.isClause_of_mem_beside hlaid.self hposition hchild).resolve_right ?_
          rw [NodeKind.hasSlots_of_mem_beside hposition, Bool.true_and] at hpresent
          exact Bool.eq_false_iff.mp hpresent
        have hbeside := Node.mem_clausesBeside.mpr ⟨position, hposition, hchild, hclause⟩
        have hchild := List.mem_of_getElem? hchild
        obtain ⟨other, hother, hrenders⟩ := ih child hchild (hlaid.child hchild) _ hmem hstatement
        refine ⟨other, List.mem_cons_of_mem _ (List.mem_append_right _ ?_), hrenders⟩
        rw [headsAll_flatMap]
        exact List.mem_flatMap_of_mem hbeside hother

end Statement

def NumberedStatement.leftNames (entry : NumberedStatement) : List (Span × Shape × String) :=
  entry.outerNames.map (entry.fragment.span, entry.fragment.shape, ·)

def StatementHead.leftNames (head : StatementHead) : List (Span × Shape × String) :=
  head.outerNames.map (head.span, head.shape, ·)

theorem Statement.number_leftNames (s : RowStart) (statements : List Statement) :
    (s.number statements).flatMap NumberedStatement.leftNames =
      (headsAll statements).flatMap StatementHead.leftNames := by
  refine flatMap_number (fun f head hspan hshape => ?_) (fun _ => rfl) s statements
  simp only [NumberedStatement.leftNames, StatementHead.leftNames, hspan, hshape]

theorem Place.isStatement_of_outerNames {name : String} (h : name ∈ place.node.outerNames) :
    place.isStatement = true := by
  unfold Node.outerNames at h
  split at h
  · rename_i hkind
    rw [isStatement, hkind]
    rfl
  · rename_i hkind
    rw [isStatement, hkind]
    rfl
  · exact absurd h List.not_mem_nil

/-- A name that a statement below the body of a method leaves to an outer scope is left to it by a
numbered statement at the same place. -/
theorem Body.exists_numbered_of_place (around : Surroundings) {method : Node}
    (hlaid : method.Everywhere fun below => below.isLaidOut = true)
    (hplace : place ∈ method.bodyPlaces) {name : String} (hname : name ∈ place.node.outerNames) :
    ∃ entry ∈ numberedOf around method, entry.fragment.span = place.node.span ∧
      entry.fragment.isStatement = true ∧ name ∈ entry.outerNames := by
  unfold Node.bodyPlaces at hplace
  split at hplace
  · rename_i block hbody
    obtain ⟨head, hhead, hrenders⟩ := Statement.exists_head_of_place around (hlaid.body hbody)
      around.bodyEnd hplace (Place.isStatement_of_outerNames hname)
    have hleft : (head.span, head.shape, name) ∈
        (numberedOf around method).flatMap NumberedStatement.leftNames := by
      rw [numberedOf, Statement.number_leftNames, statementsOf, hbody]
      refine List.mem_flatMap_of_mem hhead (List.mem_map_of_mem ?_)
      rwa [hrenders.outerNames]
    obtain ⟨entry, hentry, hmem⟩ := List.mem_flatMap.mp hleft
    obtain ⟨other, hother, heq⟩ := List.mem_map.mp hmem
    simp only [Prod.mk.injEq] at heq
    obtain ⟨hspan, hshape, rfl⟩ := heq
    refine ⟨entry, hentry, hspan.trans hrenders.span, ?_, hother⟩
    simpa [Fragment.isStatement, hshape] using hrenders.shape
  · exact absurd hplace List.not_mem_nil

end CodeEvolution
