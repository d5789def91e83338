import CodeEvolution.Body.OfMethod
/-!
# Where the statements of a node stand

Every kind of node has fixed positions for the statements it holds and, for a `try`, for the
clauses beside it. What a node in the place of a statement amounts to is said here once in terms of
these positions: nothing for a comment, an unknown node for a kind that is no statement, and else
one statement whose parts come from the children at these positions.
-/
namespace CodeEvolution

variable {node child : Node} {kind : StatementKind} (around : Surroundings)
  (f : Node → List Statement) (blockEnd : Nat)

@[elab_as_elim]
theorem Node.inductionOnChildren {motive : Node → Prop} (node : Node)
    (step : ∀ node : Node, (∀ child ∈ node.children, motive child) → motive node) :
    motive node :=
  step node fun child _hchild => child.inductionOnChildren step
termination_by node
decreasing_by
  obtain ⟨kind, span, children⟩ := node
  have hlt := List.sizeOf_lt_of_mem _hchild
  simp only [Node.mk.sizeOf_spec] at hlt ⊢
  omega

namespace NodeKind

def statementKind? : NodeKind → Option StatementKind
  | .block => some .block
  | .conditional => some .conditional
  | .whileLoop _ => some .whileLoop
  | .forLoop _ => some .forLoop
  | .switch => some .switch
  | .caseClause _ => some .caseClause
  | .tryStatement => some .tryStatement
  | .catchClause => some .catchClause
  | .elseClause => some .elseClause
  | .finallyClause => some .finallyClause
  | .withStatement => some .withStatement
  | .asyncStatement => some .asyncStatement
  | .synchronized => some .synchronized
  | .methodDeclaration _ => some .declaration
  | .typeDeclaration _ => some .declaration
  | .variableDeclaration _ => some .variableDeclaration
  | .assignment _ => some .assignment
  | .expressionStatement => some .expressionStatement
  | .returnStatement => some .returnStatement
  | .throwStatement => some .throwStatement
  | .assertStatement => some .assertStatement
  | .breakStatement => some .breakStatement
  | .continueStatement => some .continueStatement
  | .pass => some .pass
  | .yield _ => some .yield
  | .globalNames _ => some .outerNames
  | .nonlocalNames _ => some .outerNames
  | .deletion => some .deletion
  | .importing _ => some .importing
  | _ => none

def isComment : NodeKind → Bool
  | .comment _ => true
  | _ => false

def isClause : NodeKind → Bool
  | .catchClause => true
  | .elseClause => true
  | .finallyClause => true
  | _ => false

def inside (count : Nat) : NodeKind → List Nat
  | .block => List.range count
  | .conditional => [1, 2]
  | .whileLoop _ => [1, 2]
  | .forLoop .each => [2, 3]
  | .forLoop .classic => [3]
  | .switch => List.range' 1 (count - 1)
  | .caseClause _ => [2]
  | .tryStatement => [1]
  | .catchClause => [2]
  | .elseClause => [0]
  | .finallyClause => [0]
  | .withStatement => [count - 1]
  | .asyncStatement => List.range count
  | .synchronized => [1]
  | _ => []

def beside (count : Nat) : NodeKind → List Nat
  | .tryStatement => List.range' 2 (count - 2)
  | _ => []

/-- Whether the positions inside a node may hold the marker of an empty slot. Where any number of
statements may stand, there is no slot to be empty. -/
def hasSlots : NodeKind → Bool
  | .block => false
  | .switch => false
  | .asyncStatement => false
  | _ => true

end NodeKind

namespace Statement

def insideAt (node : Node) (outlines : List (List Statement)) (index : Nat) : List Statement :=
  if node.kind.hasSlots then branch node.children outlines index
  else outlines[index]?.getD []

def besideAt (node : Node) (outlines : List (List Statement)) (index : Nat) : List Statement :=
  match node.children[index]?, outlines[index]? with
  | some child, some outline => if child.kind.isClause then outline else []
  | _, _ => []

theorem insideAt_map {position : Nat} (h : node.children[position]? = some child) :
    insideAt node (node.children.map f) position =
      if node.kind.hasSlots && child.isAbsent then [] else f child := by
  cases hslots : node.kind.hasSlots <;> simp [insideAt, branch, h, hslots]

theorem besideAt_map {position : Nat} (h : node.children[position]? = some child) :
    besideAt node (node.children.map f) position = if child.kind.isClause then f child else [] := by
  simp [besideAt, h]

structure IsHead (node : Node) (kind : StatementKind) (head : StatementHead) : Prop where
  kind : head.kind = kind
  span : head.span = node.span
  shape : head.shape ≠ .expression
  leaf : head.shape = .leaf → head.controls = [] ∧ node.kind.inside node.children.length = []
  block : head.kind = .block → head.controls = [] ∧ head.bindings = []

theorem flatMap_range_getElem? {α β : Type} (f : α → List β) (l : List α) :
    ((List.range l.length).flatMap fun i => (l[i]?.map f).getD []) = l.flatMap f := by
  induction l with
  | nil => rfl
  | cons first rest ih =>
    rw [List.length_cons, List.range_succ_eq_map, List.flatMap_cons, List.flatMap_map]
    simpa using ih

theorem flatMap_range'_getElem? {α β : Type} (f : α → List β) (l : List α) (start : Nat) :
    ((List.range' start (l.length - start)).flatMap fun i => (l[i]?.map f).getD []) =
      (l.drop start).flatMap f := by
  rw [← flatMap_range_getElem? f (l.drop start), List.range'_eq_map_range, List.flatMap_map,
    List.length_drop]
  simp only [List.getElem?_drop]

theorem tryClauses_eq (node : Node) {outlines : List (List Statement)}
    (hlength : outlines.length = node.children.length) :
    tryClauses node.children outlines =
      (List.range' 2 (node.children.length - 2)).flatMap (besideAt node outlines) := by
  have hzip : (node.children.zip outlines).length = node.children.length := by
    rw [List.length_zip, hlength, Nat.min_self]
  rw [tryClauses, ← flatMap_range'_getElem?, hzip]
  congr 1
  funext i
  unfold besideAt
  cases hchild : node.children[i]? with
  | none => simp [List.zip, List.getElem?_zipWith, hchild]
  | some child =>
    cases houtline : outlines[i]? with
    | none => simp [List.zip, List.getElem?_zipWith, hchild, houtline]
    | some outline =>
      simp only [List.zip, List.getElem?_zipWith, hchild, houtline, Option.map_some,
        Option.getD_some, NodeKind.isClause]
      cases child.kind <;> rfl

theorem exists_known {head : StatementHead} {nested handlers nested' handlers' : List Statement}
    (hhead : IsHead node kind head) (hnested : nested = nested')
    (hhandlers : handlers = handlers') :
    ∃ head', IsHead node kind head' ∧
      [known head nested handlers] = [known head' nested' handlers'] :=
  ⟨head, hhead, by rw [hnested, hhandlers]⟩

theorem ofKind_known {outlines : List (List Statement)}
    (hkind : node.kind.statementKind? = some kind)
    (hlength : outlines.length = node.children.length) :
    ∃ head, IsHead node kind head ∧
      ofKind around blockEnd node outlines =
        [.known head
          ((node.kind.inside node.children.length).flatMap (insideAt node outlines))
          ((node.kind.beside node.children.length).flatMap (besideAt node outlines))] := by
  have hall : outlines.flatten =
      (List.range node.children.length).flatMap fun i => outlines[i]?.getD [] := by
    rw [← hlength, ← List.flatMap_id, ← flatMap_range_getElem?]
    simp
  have hrest : (outlines.drop 1).flatten =
      (List.range' 1 (node.children.length - 1)).flatMap fun i => outlines[i]?.getD [] := by
    rw [← hlength, ← List.flatMap_id, ← flatMap_range'_getElem?]
    simp
  have hclauses := tryClauses_eq node hlength
  obtain ⟨nodeKind, span, children⟩ := node
  have hone : ∀ i, branch children outlines i =
      [i].flatMap fun i => branch children outlines i := by simp
  have htwo : ∀ i j, branch children outlines i ++ branch children outlines j =
      [i, j].flatMap fun i => branch children outlines i := by simp
  cases nodeKind
  case forLoop style =>
    obtain rfl := Option.some.inj hkind
    cases style with
    | each => exact exists_known ⟨rfl, rfl, nofun, nofun, nofun⟩ (htwo 2 3) rfl
    | classic => exact exists_known ⟨rfl, rfl, nofun, nofun, nofun⟩ (hone 3) rfl
  -- A kind without a statement kind is left out here.
  all_goals cases hkind
  all_goals first
    | exact exists_known ⟨rfl, rfl, nofun, fun _ => ⟨rfl, rfl⟩, nofun⟩ rfl rfl
    | exact exists_known ⟨rfl, rfl, nofun, nofun, nofun⟩ (htwo 1 2) rfl
    | exact exists_known ⟨rfl, rfl, nofun, nofun, nofun⟩ (hone _) rfl
    | exact exists_known ⟨rfl, rfl, nofun, nofun, nofun⟩ (hone _) hclauses
    | exact exists_known ⟨rfl, rfl, nofun, nofun, fun _ => ⟨rfl, rfl⟩⟩ hall rfl
    | exact exists_known ⟨rfl, rfl, nofun, nofun, nofun⟩ hrest rfl

theorem ofKind_comment (outlines : List (List Statement)) (hkind : node.kind.isComment = true) :
    ofKind around blockEnd node outlines = [] := by
  obtain ⟨nodeKind, span, children⟩ := node
  cases nodeKind
  case comment => rfl
  all_goals cases hkind

theorem ofKind_unknown (outlines : List (List Statement)) (hkind : node.kind.statementKind? = none)
    (hcomment : node.kind.isComment = false) :
    ofKind around blockEnd node outlines = [.unknown node.span.startLine node.kind.label] := by
  obtain ⟨nodeKind, span, children⟩ := node
  cases nodeKind
  case comment => cases hcomment
  all_goals first
    | rfl
    | cases hkind

theorem ofNodes_eq_map (nodes : List Node) :
    ofNodes around blockEnd nodes = nodes.map (ofNode around blockEnd) := by
  induction nodes with
  | nil => rw [ofNodes, List.map_nil]
  | cons node rest ih => rw [ofNodes, List.map_cons, ih]

/-- The children of a block lie in a block of their own. -/
theorem ofNode_eq_ofKind (node : Node) :
    ofNode around blockEnd node = ofKind around blockEnd node
      (node.children.map
        (ofNode around (if node.isBlock then node.span.endOffset else blockEnd))) := by
  obtain ⟨kind, span, children⟩ := node
  cases kind <;> rw [ofNode, ofNodes_eq_map] <;> simp [Node.isBlock]

theorem ofNode_eq (node : Node) :
    ∃ stop, ofNode around blockEnd node =
      ofKind around blockEnd node (node.children.map (ofNode around stop)) :=
  ⟨_, ofNode_eq_ofKind around blockEnd node⟩

end Statement

namespace Node

def outerNames (node : Node) : List String :=
  match node.kind with
  | .globalNames names => names
  | .nonlocalNames names => names
  | _ => []

def statementsInside (node : Node) : List Node :=
  (node.kind.inside node.children.length).flatMap fun position =>
    (node.children[position]?.filter fun child => !(node.kind.hasSlots && child.isAbsent)).toList

def clausesBeside (node : Node) : List Node :=
  (node.kind.beside node.children.length).flatMap fun position =>
    (node.children[position]?.filter fun child => child.kind.isClause).toList

theorem mem_statementsInside :
    child ∈ node.statementsInside ↔ ∃ position ∈ node.kind.inside node.children.length,
      node.children[position]? = some child ∧ (node.kind.hasSlots && child.isAbsent) = false := by
  simp only [statementsInside, List.mem_flatMap, Option.mem_toList, Option.filter_eq_some_iff,
    Bool.not_eq_true']

theorem mem_clausesBeside :
    child ∈ node.clausesBeside ↔ ∃ position ∈ node.kind.beside node.children.length,
      node.children[position]? = some child ∧ child.kind.isClause = true := by
  simp only [clausesBeside, List.mem_flatMap, Option.mem_toList, Option.filter_eq_some_iff]

theorem mem_children_of_inside (h : child ∈ node.statementsInside) : child ∈ node.children := by
  obtain ⟨position, -, hposition, -⟩ := mem_statementsInside.mp h
  exact List.mem_of_getElem? hposition

theorem mem_children_of_beside (h : child ∈ node.clausesBeside) : child ∈ node.children := by
  obtain ⟨position, -, hposition, -⟩ := mem_clausesBeside.mp h
  exact List.mem_of_getElem? hposition

theorem kind_of_mem_beside (h : child ∈ node.clausesBeside) : node.kind = .tryStatement := by
  obtain ⟨position, hbeside, -⟩ := List.mem_flatMap.mp h
  cases hkind : node.kind
  case tryStatement => rfl
  all_goals
    rw [hkind] at hbeside
    exact absurd hbeside List.not_mem_nil

theorem isBlock_of_mem_beside (h : child ∈ node.clausesBeside) : node.isBlock = false := by
  simp [isBlock, kind_of_mem_beside h]

end Node

namespace Statement

theorem flatMap_insideAt (node : Node) (f : Node → List Statement) :
    (node.kind.inside node.children.length).flatMap (insideAt node (node.children.map f)) =
      node.statementsInside.flatMap f := by
  rw [Node.statementsInside, List.flatMap_assoc]
  congr 1
  funext position
  cases hchild : node.children[position]? with
  | none => simp [insideAt, branch, hchild]
  | some child =>
    rw [insideAt_map f hchild]
    cases hskipped : node.kind.hasSlots && child.isAbsent <;> simp [Option.filter, hskipped]

theorem flatMap_besideAt (node : Node) (f : Node → List Statement) :
    (node.kind.beside node.children.length).flatMap (besideAt node (node.children.map f)) =
      node.clausesBeside.flatMap f := by
  rw [Node.clausesBeside, List.flatMap_assoc]
  congr 1
  funext position
  cases hchild : node.children[position]? with
  | none => simp [besideAt, hchild]
  | some child =>
    rw [besideAt_map f hchild]
    cases hclause : child.kind.isClause <;> simp [Option.filter, hclause]

/-- What a node that is a statement amounts to, by the children that are read as statements. -/
theorem ofNode_known (hkind : node.kind.statementKind? = some kind) :
    ∃ head, IsHead node kind head ∧
      ofNode around blockEnd node =
        [.known head
          (node.statementsInside.flatMap
            (ofNode around (if node.isBlock then node.span.endOffset else blockEnd)))
          (node.clausesBeside.flatMap
            (ofNode around (if node.isBlock then node.span.endOffset else blockEnd)))] := by
  obtain ⟨head, hhead, heq⟩ := ofKind_known around blockEnd hkind (List.length_map _)
  refine ⟨head, hhead, ?_⟩
  rw [ofNode_eq_ofKind, heq, flatMap_insideAt, flatMap_besideAt]

theorem eq_unknown_of_mem_ofNode {around : Surroundings} {blockEnd : Nat} {statement : Statement}
    (hkind : node.kind.statementKind? = none) (h : statement ∈ ofNode around blockEnd node) :
    ∃ line label, statement = .unknown line label := by
  rw [ofNode_eq_ofKind] at h
  cases hcomment : node.kind.isComment with
  | true =>
    rw [ofKind_comment around blockEnd _ hcomment] at h
    exact absurd h List.not_mem_nil
  | false =>
    rw [ofKind_unknown around blockEnd _ hkind hcomment] at h
    exact ⟨_, _, List.mem_singleton.mp h⟩

theorem localScope_start (span : Span) :
    (localScope around blockEnd span).start = span.startOffset := by
  unfold localScope
  split <;> rfl

end Statement

end CodeEvolution
