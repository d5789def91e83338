import CodeEvolution.Model.OfUnit
import CodeEvolution.Proofs.Body.Heads
import CodeEvolution.Proofs.FirstOccurrences
import Mathlib.Data.List.Sort
/-!
# The members that a body assigns

A plain assignment through the receiver introduces a member of the class into the body, with the
class as its scope. No other variable of the body has that scope, so of the members only the first
of each name counts: a body lists the first occurrences of what its assignments name.
-/
namespace CodeEvolution

variable {node child : Node} {position stop : Nat} {b : Binding} (nodes : List Node)

namespace NodeKind

/-- Whether the assignments of a node are those of its children. -/
def passesAssignments : NodeKind → Bool
  | .assignment _ => false
  | .methodDeclaration _ => false
  | .typeDeclaration _ => false
  | _ => true

end NodeKind

namespace Node

def memberName? (receiver : String) (target : Node) : Option String :=
  match target.kind with
  | .fieldAccess name =>
    if (target.present? 0).bind Node.identifier? = some receiver then some name else none
  | _ => none

/-- The members that a plain assignment is made to, with tuples, lists and parentheses opened. -/
def plainMembers (receiver : String) (assignment : Node) : List String :=
  match assignment.kind with
  | .assignment operator =>
    if operator = "=" then
      (assignment.child? 0).toList.flatMap fun target =>
        target.targets.filterMap (memberName? receiver)
    else []
  | _ => []

def bodyAssignments (method : Node) : List Node :=
  method.body?.toList.flatMap assignments

def readsAt (node : Node) (position : Nat) (child : Node) : Bool :=
  ((node.kind.inside node.children.length).contains position &&
      !(node.kind.hasSlots && child.isAbsent)) ||
    ((node.kind.beside node.children.length).contains position && child.kind.isClause)

/-- Members are assigned only where statements are read. -/
def AssignsInPlace (receiver : String) (node : Node) : Prop :=
  node.kind.passesAssignments = true → ∀ entry ∈ node.children.zipIdx,
    node.readsAt entry.2 entry.1 = true ∨ ∀ a ∈ entry.1.assignments, a.plainMembers receiver = []

instance decidableAssignsInPlace (receiver : String) :
    DecidablePred (AssignsInPlace receiver) := fun node =>
  inferInstanceAs (Decidable (node.kind.passesAssignments = true → ∀ entry ∈ node.children.zipIdx,
    node.readsAt entry.2 entry.1 = true ∨ ∀ a ∈ entry.1.assignments, a.plainMembers receiver = []))

theorem assignmentsIn_eq_flatMap : assignmentsIn nodes = nodes.flatMap assignments := by
  induction nodes with
  | nil => rw [assignmentsIn, List.flatMap_nil]
  | cons node rest ih => rw [assignmentsIn, ih, List.flatMap_cons]

theorem assignments_eq (h : node.kind.passesAssignments = true) :
    node.assignments = node.children.flatMap assignments := by
  obtain ⟨kind, span, children⟩ := node
  rw [← assignmentsIn_eq_flatMap]
  cases kind
  case assignment => cases h
  case methodDeclaration => cases h
  case typeDeclaration => cases h
  all_goals rw [assignments] <;> simp

end Node

/-! ## Positions of statements -/

/-- Of a list only the members at some positions count, if the others amount to nothing. -/
theorem flatMap_positions {α β : Type} (f : α → List β) (items : List α) {positions : List Nat}
    (hascending : positions.Pairwise (· < ·))
    (h : ∀ position item, items[position]? = some item → position ∉ positions → f item = []) :
    (positions.flatMap fun i => (items[i]?.map f).getD []) = items.flatMap f := by
  let amount : Nat → List β := fun i => (items[i]?.map f).getD []
  have hcounting : ∀ indices : List Nat, indices.flatMap amount =
      (indices.filter fun i => !(amount i).isEmpty).flatMap amount := by
    intro indices
    induction indices with
    | nil => rfl
    | cons i rest ih => by_cases hi : amount i = [] <;> simp [hi, ih]
  have heq : (positions.filter fun i => !(amount i).isEmpty) =
      (List.range items.length).filter fun i => !(amount i).isEmpty := by
    refine (hascending.filter _).eq_of_mem_iff (List.pairwise_lt_range.filter _) fun i => ?_
    rw [List.mem_filter, List.mem_filter, List.mem_range]
    refine and_congr_left fun hcounts => ?_
    have hi : amount i ≠ [] := by simpa using hcounts
    constructor
    · intro _
      by_contra hout
      exact hi (by simp [amount, List.getElem?_eq_none (Nat.le_of_not_lt hout)])
    · intro hlt
      by_contra hnot
      have hitem : items[i]? = some items[i] := List.getElem?_eq_getElem hlt
      exact hi (by simp [amount, hitem, h i _ hitem hnot])
  rw [← Statement.flatMap_range_getElem? f items]
  exact (hcounting positions).trans (heq ▸ (hcounting _).symm)

namespace Node

theorem readsAt_inside (h : position ∈ node.kind.inside node.children.length) :
    node.readsAt position child = !(node.kind.hasSlots && child.isAbsent) := by
  have hposition : (node.kind.inside node.children.length).contains position = true :=
    List.contains_iff_mem.mpr h
  rw [readsAt, hposition, Bool.true_and]
  cases hclause : child.kind.isClause with
  | false => simp
  | true => simp [isAbsent_of_isClause hclause]

theorem readsAt_beside (h : position ∈ node.kind.beside node.children.length) :
    node.readsAt position child = child.kind.isClause := by
  -- A position beside a node comes after those inside it.
  have houtside : position ∉ node.kind.inside node.children.length := fun hinside =>
    Nat.lt_irrefl _ ((List.pairwise_append.mp
      (node.kind.positions_pairwise node.children.length)).2.2 position hinside position h)
  simp [readsAt, houtside, h]

theorem flatMap_filter {β : Type} (f : Node → List β) {isRead : Node → Bool} {child? : Option Node}
    (h : ∀ child ∈ child?, isRead child = true ∨ f child = []) :
    (child?.filter isRead).toList.flatMap f = (child?.map f).getD [] := by
  cases child? with
  | none => rfl
  | some child => rcases h child rfl with hread | hnone <;> simp_all [Option.filter]

theorem flatMap_read {β : Type} (f : Node → List β)
    (h : ∀ position child, node.children[position]? = some child →
      node.readsAt position child = true ∨ f child = []) :
    node.statementsInside.flatMap f ++ node.clausesBeside.flatMap f = node.children.flatMap f := by
  have hall := flatMap_positions f node.children
    (node.kind.positions_pairwise node.children.length) ?_
  · rw [← hall, List.flatMap_append, statementsInside, clausesBeside, List.flatMap_assoc,
      List.flatMap_assoc]
    congr 1
    · refine List.flatMap_congr fun position hposition => flatMap_filter f fun child hchild => ?_
      rw [← readsAt_inside hposition]
      exact h position child hchild
    · refine List.flatMap_congr fun position hposition => flatMap_filter f fun child hchild => ?_
      rw [← readsAt_beside hposition]
      exact h position child hchild
  · intro position child hchild hposition
    refine (h position child hchild).resolve_left fun hreads => hposition ?_
    simp only [readsAt, Bool.or_eq_true, Bool.and_eq_true, List.contains_iff_mem] at hreads
    exact List.mem_append.mpr (hreads.imp And.left And.left)

end Node

/-! ## Members among the variables of statements -/

def Binding.member? (b : Binding) : Option String :=
  if b.introduced.role = .memberAttribute then some b.introduced.name else none

theorem Binding.IsLocal.member? {scope : Scope} (h : b.IsLocal scope) : b.member? = none := by
  rw [Binding.member?, h.role]
  rfl

namespace Statement

variable {around : Surroundings} {receiver : String}

def members (statements : List Statement) : List String :=
  ((headsAll statements).flatMap StatementHead.bindings).filterMap Binding.member?

theorem members_append (statements others : List Statement) :
    members (statements ++ others) = members statements ++ members others := by
  rw [members, headsAll_append, List.flatMap_append, List.filterMap_append]
  rfl

theorem members_flatMap (f : Node → List Statement) :
    members (nodes.flatMap f) = nodes.flatMap fun node => members (f node) := by
  induction nodes with
  | nil => rfl
  | cons node rest ih => rw [List.flatMap_cons, members_append, ih, List.flatMap_cons]

theorem members_known (head : StatementHead) (nested handlers : List Statement) :
    members [.known head nested handlers] =
      head.bindings.filterMap Binding.member? ++ members nested ++ members handlers := by
  rw [members, headsAll_singleton, heads, List.flatMap_cons, List.flatMap_append,
    List.filterMap_append, List.filterMap_append, List.append_assoc]
  rfl

theorem assignedBinding?_member (hreceiver : around.receiver? = some receiver) (stop : Nat)
    (node : Node) (type : TypeInfo) (initializer : Option String) (target : Node) :
    (assignedBinding? around stop node type initializer target).bind Binding.member? =
      target.memberName? receiver := by
  unfold assignedBinding? Node.memberName?
  cases target.kind
  case simpleName =>
    dsimp only
    split <;> rfl
  case fieldAccess name =>
    dsimp only
    cases (target.present? 0).bind Node.identifier? with
    | none => simp
    | some other =>
      dsimp only
      rw [hreceiver]
      by_cases hsame : receiver = other
      · rw [if_pos (congrArg some hsame), if_pos (congrArg some hsame.symm)]
        rfl
      · rw [if_neg (mt Option.some.inj hsame), if_neg (mt Option.some.inj (Ne.symm hsame))]
        rfl
  all_goals rfl

theorem assignedBindings_members (hreceiver : around.receiver? = some receiver) (stop : Nat)
    {operator : String} (hkind : node.kind = .assignment operator) :
    (assignedBindings around stop operator node).filterMap Binding.member? =
      node.plainMembers receiver := by
  simp only [assignedBindings, Node.plainMembers, hkind]
  cases node.child? 0 with
  | none => simp
  | some target =>
    dsimp only
    split
    · rw [List.filterMap_filterMap, Option.toList_some, List.flatMap_singleton]
      exact List.filterMap_congr fun other _ =>
        assignedBinding?_member hreceiver stop node _ _ other
    · rfl

theorem members_head_eq_nil {head : StatementHead} {nested handlers : List Statement}
    (h : .known head nested handlers ∈ ofNode around stop node) (hkind : head.kind ≠ .assignment) :
    head.bindings.filterMap Binding.member? = [] := by
  rw [List.filterMap_eq_nil_iff]
  intro b hb
  cases ofNode_arises h b hb with
  | assignedMember hassignment => exact absurd hassignment hkind
  | assignedLocal hassignment => exact absurd hassignment hkind
  | declared _ hlocal => exact hlocal.member?
  | held _ hlocal => exact hlocal.member?

theorem kind_ne_assignment {kind : NodeKind} {other : StatementKind}
    (h : kind.passesAssignments = true) (hother : kind.statementKind? = some other) :
    other ≠ .assignment := by
  cases kind
  case assignment => cases h
  all_goals cases hother
  all_goals nofun

theorem members_assignment (hreceiver : around.receiver? = some receiver) (stop : Nat)
    (operator : String) (span : Span) (children : List Node) :
    members (ofNode around stop ⟨.assignment operator, span, children⟩) =
      Node.plainMembers receiver ⟨.assignment operator, span, children⟩ := by
  let node : Node := ⟨.assignment operator, span, children⟩
  have hbindings : (assignedBindings around stop operator node).filterMap Binding.member? =
      node.plainMembers receiver := assignedBindings_members hreceiver stop rfl
  rw [ofNode_eq_ofKind]
  calc members [.known (leafHead .assignment node (assignedBindings around stop operator node))
          [] []]
      = (assignedBindings around stop operator node).filterMap Binding.member? ++ [] ++ [] :=
        members_known _ _ _
    _ = node.plainMembers receiver := by rw [List.append_nil, List.append_nil, hbindings]

/-- The members that the statements of a node introduce are those that its assignments name. -/
theorem members_ofNode (hreceiver : around.receiver? = some receiver) (stop : Nat)
    (h : node.Everywhere (Node.AssignsInPlace receiver)) :
    members (ofNode around stop node) = node.assignments.flatMap (Node.plainMembers receiver) := by
  induction node using Node.inductionOnChildren generalizing stop with
  | step node ih =>
    cases hpasses : node.kind.passesAssignments with
    | false =>
      obtain ⟨kind, span, children⟩ := node
      cases kind
      case assignment =>
        rw [members_assignment hreceiver, Node.assignments, List.flatMap_singleton]
      case methodDeclaration => rw [ofNode_eq_ofKind, Node.assignments]; rfl
      case typeDeclaration => rw [ofNode_eq_ofKind, Node.assignments]; rfl
      all_goals cases hpasses
    | true =>
      let named : Node → List String := fun child =>
        child.assignments.flatMap (Node.plainMembers receiver)
      have hread : node.children.flatMap named =
          node.statementsInside.flatMap named ++ node.clausesBeside.flatMap named := by
        refine (Node.flatMap_read named fun position child hchild => ?_).symm
        exact (h.self hpasses (child, position)
          (List.mem_zipIdx_iff_getElem?.mpr hchild)).imp_right List.flatMap_eq_nil_iff.mpr
      rw [Node.assignments_eq hpasses, List.flatMap_assoc, hread]
      have hnested : ∀ {children : List Node}, (∀ child ∈ children, child ∈ node.children) →
          ∀ stop, members (children.flatMap (ofNode around stop)) = children.flatMap named := by
        intro children hchildren stop
        rw [members_flatMap]
        exact List.flatMap_congr fun child hchild =>
          ih child (hchildren child hchild) stop (h.child (hchildren child hchild))
      cases hkind : node.kind.statementKind? with
      | some kind =>
        obtain ⟨head, hhead, heq⟩ := ofNode_known around stop hkind
        have hmembers := members_head_eq_nil (heq ▸ List.mem_singleton_self _)
          (hhead.kind ▸ kind_ne_assignment hpasses hkind)
        rw [heq, members_known, hmembers, List.nil_append,
          hnested fun _ => Node.mem_children_of_inside,
          hnested fun _ => Node.mem_children_of_beside]
      | none =>
        obtain ⟨hinside, hbeside⟩ := NodeKind.positions_eq_nil hkind node.children.length
        rw [Node.statementsInside, Node.clausesBeside, hinside, hbeside, ofNode_eq_ofKind]
        cases hcomment : node.kind.isComment with
        | true => rw [ofKind_comment around stop _ hcomment]; rfl
        | false => rw [ofKind_unknown around stop _ hkind hcomment]; rfl

end Statement

/-! ## Members among the variables of a body -/

def memberNames (declarations : List Variable) : List String :=
  (declarations.filter fun v => v.role == .memberAttribute).map Variable.name

def Variable.IsApart (around : Surroundings) (v : Variable) : Prop :=
  v.role = .memberAttribute ↔ v.scope = .ofSpan around.file around.classSpan

namespace DeclaredNames

variable {around : Surroundings} {names : DeclaredNames} {b : Binding}

theorem memberNames_snoc (declarations : List Variable) (v : Variable) :
    memberNames (declarations ++ [v]) =
      if v.role = .memberAttribute then memberNames declarations ++ [v.name]
      else memberNames declarations := by
  by_cases hrole : v.role = .memberAttribute <;> simp [memberNames, List.filter_append, hrole]

/-- Where members are apart, a variable of the scope of the class is there if a member of the name
is there. -/
theorem any_same_member (h : ∀ v ∈ names.declarations, v.IsApart around)
    (hb : b.introduced.IsApart around) (hrole : b.introduced.role = .memberAttribute) :
    names.declarations.any b.introduced.same =
      (memberNames names.declarations).contains b.introduced.name := by
  rw [Bool.eq_iff_iff, List.any_eq_true, List.contains_iff_mem]
  simp only [memberNames, List.mem_map, List.mem_filter, Variable.same, Bool.and_eq_true,
    beq_iff_eq, hb.mp hrole]
  constructor
  · rintro ⟨v, hv, hscope, hname⟩
    exact ⟨v, ⟨hv, (h v hv).mpr hscope.symm⟩, hname.symm⟩
  · rintro ⟨v, ⟨hv, hmember⟩, hname⟩
    exact ⟨v, hv, ((h v hv).mp hmember).symm, hname.symm⟩

theorem memberNames_declare (h : ∀ v ∈ names.declarations, v.IsApart around)
    (hb : b.introduced.IsApart around)
    (hmember : b.introduced.role = .memberAttribute → b.assignedAt = none)
    (statement : Option Nat) :
    memberNames (declare statement names b).declarations =
      b.member?.toList.foldl appendNew (memberNames names.declarations) := by
  by_cases hrole : b.introduced.role = .memberAttribute
  · have hintroduces : names.introduces b =
        !(memberNames names.declarations).contains b.introduced.name := by
      rw [introduces, hmember hrole, any_same_member h hb hrole, Bool.true_and]
    rw [Binding.member?, if_pos hrole, Option.toList_some, List.foldl_cons, List.foldl_nil,
      declare, hintroduces, appendNew]
    cases hseen : (memberNames names.declarations).contains b.introduced.name with
    | true => rfl
    | false => exact (memberNames_snoc _ _).trans (if_pos hrole)
  · rw [Binding.member?, if_neg hrole, Option.toList_none, List.foldl_nil, declare]
    split
    · rw [memberNames_snoc, if_neg hrole]
    · rfl

theorem declare_isApart (h : ∀ v ∈ names.declarations, v.IsApart around)
    (hb : b.introduced.IsApart around) (statement : Option Nat) :
    ∀ v ∈ (declare statement names b).declarations, v.IsApart around := by
  intro v hv
  rcases mem_declare hv with hv | rfl
  · exact h v hv
  · exact hb

structure Regular (around : Surroundings) (b : Binding) : Prop where
  apart : b.introduced.IsApart around
  member : b.introduced.role = .memberAttribute → b.assignedAt = none

theorem foldl_declare_isApart (statement : Option Nat) {bindings : List Binding}
    (h : ∀ v ∈ names.declarations, v.IsApart around) (hb : ∀ b ∈ bindings, Regular around b) :
    (∀ v ∈ (bindings.foldl (declare statement) names).declarations, v.IsApart around) ∧
      memberNames (bindings.foldl (declare statement) names).declarations =
        (bindings.filterMap Binding.member?).foldl appendNew (memberNames names.declarations) := by
  induction bindings generalizing names with
  | nil => exact ⟨h, rfl⟩
  | cons b rest ih =>
    obtain ⟨hfirst, hrest⟩ := List.forall_mem_cons.mp hb
    obtain ⟨hapart, hnames⟩ := ih (declare_isApart h hfirst.apart statement) hrest
    refine ⟨hapart, ?_⟩
    rw [List.foldl_cons, hnames, memberNames_declare h hfirst.apart hfirst.member,
      ← List.foldl_append]
    cases hmember : b.member? <;> simp [hmember]

theorem memberNames_foldl_afterStatement {entries : List NumberedStatement}
    (h : ∀ v ∈ names.declarations, v.IsApart around)
    (hb : ∀ b ∈ entries.flatMap NumberedStatement.bindings, Regular around b) :
    memberNames (entries.foldl afterStatement names).declarations =
      ((entries.flatMap NumberedStatement.bindings).filterMap Binding.member?).foldl appendNew
        (memberNames names.declarations) := by
  induction entries generalizing names with
  | nil => rfl
  | cons entry rest ih =>
    rw [List.flatMap_cons, List.forall_mem_append] at hb
    let start : DeclaredNames := { names with outerNames := names.outerNames ++ entry.outerNames }
    have hstart : ∀ v ∈ start.declarations, v.IsApart around := h
    obtain ⟨hapart, hnames⟩ :
        (∀ v ∈ (names.afterStatement entry).declarations, v.IsApart around) ∧
          memberNames (names.afterStatement entry).declarations =
            (entry.bindings.filterMap Binding.member?).foldl appendNew
              (memberNames names.declarations) :=
      foldl_declare_isApart (some entry.fragment.id) hstart hb.1
    rw [List.foldl_cons, ih hapart hb.2, hnames, List.flatMap_cons, List.filterMap_append,
      List.foldl_append]

end DeclaredNames

namespace Body

variable {around : Surroundings} {receiver : String} {method : Node}

/-- A method does not start where its class does, and neither does anything in it. -/
def IsInside (around : Surroundings) (method : Node) : Prop :=
  method.Everywhere fun below => below.span.startOffset ≠ around.classSpan.startOffset

theorem isApart_of_start {v : Variable} (hrole : v.role ≠ .memberAttribute)
    (hstart : v.scope.start ≠ around.classSpan.startOffset) : v.IsApart around :=
  ⟨fun hmember => absurd hmember hrole, fun hscope => absurd (congrArg Scope.start hscope) hstart⟩

theorem regular_of_arises {kind : StatementKind} {span : Span} (h : b.Arises around stop kind span)
    (hstart : span.startOffset ≠ around.classSpan.startOffset) :
    DeclaredNames.Regular around b := by
  have hlocal : ∀ {scope : Scope}, b.introduced.role = .localVariable →
      b.introduced.scope = scope → scope.start = span.startOffset →
        DeclaredNames.Regular around b := by
    intro scope hrole hscope hsame
    have hne : b.introduced.role ≠ .memberAttribute := by rw [hrole]; nofun
    exact ⟨isApart_of_start hne (by rwa [hscope, hsame]), fun hmember => absurd hmember hne⟩
  cases h with
  | assignedMember _ hrole hscope hassigned =>
    exact ⟨⟨fun _ => hscope, fun _ => hrole⟩, fun _ => hassigned⟩
  | assignedLocal _ _ hrole hscope => exact hlocal hrole hscope (Statement.localScope_start _ _ _)
  | declared _ hb => exact hlocal hb.role hb.scope (Statement.localScope_start _ _ _)
  | held _ hb => exact hlocal hb.role hb.scope rfl

theorem statementsOf_regular (h : IsInside around method) :
    ∀ b ∈ (Statement.headsAll (statementsOf around method)).flatMap StatementHead.bindings,
      DeclaredNames.Regular around b := by
  intro b hb
  obtain ⟨head, hhead, hmem⟩ := List.mem_flatMap.mp hb
  unfold statementsOf at hhead
  split at hhead
  · rename_i block hbody
    have hrule : block.Everywhere fun below => ∀ stop kind head nested handlers,
        Statement.IsHead below kind head →
          .known head nested handlers ∈ Statement.ofNode around stop below →
            head.span.startOffset ≠ around.classSpan.startOffset ∧
              ∀ b ∈ head.bindings, b.Arises around stop head.kind head.span := by
      intro below hbelow stop kind head nested handlers hishead hknown
      refine ⟨?_, Statement.ofNode_arises hknown⟩
      rw [hishead.span]
      exact h.body hbody below hbelow
    obtain ⟨stop, hstart, harises⟩ := Statement.mem_headsAll_follows _
      (Statement.ofNode_follows hrule around.bodyEnd) head hhead
    exact regular_of_arises (harises b hmem) hstart
  · exact absurd hhead List.not_mem_nil

theorem statementsOf_members (hreceiver : around.receiver? = some receiver)
    (h : method.Everywhere (Node.AssignsInPlace receiver)) :
    Statement.members (statementsOf around method) =
      method.bodyAssignments.flatMap (Node.plainMembers receiver) := by
  unfold statementsOf Node.bodyAssignments
  cases hbody : method.body? with
  | none => rfl
  | some block =>
    rw [Option.toList_some, List.flatMap_singleton]
    exact Statement.members_ofNode hreceiver around.bodyEnd (h.body hbody)

theorem ofParameters_isApart (h : IsInside around method) (parameters : List Node) :
    ∀ v ∈ (DeclaredNames.ofParameters (parameters.filterMap
        (Variable.ofParameter? (.ofSpan around.file method.span)))).declarations,
      v.role = .parameter ∧ v.IsApart around := by
  intro v hv
  obtain ⟨parameter, hparameter, rfl⟩ := DeclaredNames.mem_ofParameters hv
  obtain ⟨node, -, hnode⟩ := List.mem_filterMap.mp hparameter
  have hrole := role_of_ofParameter? hnode
  have hscope : parameter.scope = .ofSpan around.file method.span := by
    unfold Variable.ofParameter? at hnode
    split at hnode
    · rw [← Option.some.inj hnode]
    · cases hnode
  refine ⟨hrole, isApart_of_start (by rw [hrole]; nofun) ?_⟩
  rw [hscope]
  exact h.self

/-- A body lists as members what its assignments name, each at its first occurrence. -/
theorem memberNames_ofMethod (hreceiver : around.receiver? = some receiver)
    (hinside : IsInside around method) (hplace : method.Everywhere (Node.AssignsInPlace receiver))
    (parameters : List Node) :
    memberNames (ofMethod around method parameters).declarations =
      firstOccurrences (method.bodyAssignments.flatMap (Node.plainMembers receiver)) := by
  have hparameters := ofParameters_isApart hinside parameters
  have hbindings := Statement.number_bindings { } (statementsOf around method)
  have hnone : memberNames (DeclaredNames.ofParameters (parameters.filterMap
      (Variable.ofParameter? (.ofSpan around.file method.span)))).declarations = [] := by
    rw [memberNames, List.map_eq_nil_iff, List.filter_eq_nil_iff]
    intro v hv
    rw [(hparameters v hv).1]
    nofun
  have hregular := hbindings ▸ statementsOf_regular hinside
  have hmembers := DeclaredNames.memberNames_foldl_afterStatement
    (fun v hv => (hparameters v hv).2) hregular
  rw [hbindings, hnone, foldl_appendNew] at hmembers
  refine hmembers.trans ?_
  rw [List.nil_append, ← statementsOf_members hreceiver hplace]
  exact List.filter_eq_self.mpr fun _ _ => rfl

end Body

end CodeEvolution
