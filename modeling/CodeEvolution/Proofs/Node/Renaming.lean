import CodeEvolution.Proofs.Body.Slots
import CodeEvolution.Proofs.Lowering.Reformatting
import CodeEvolution.Proofs.Node.Layout
import CodeEvolution.Proofs.Text.Exchange
/-!
# A name gives way to another

A variable is renamed wherever it is declared and wherever it is named: in the nodes that declare
one variable and in the simple names. Spans stay as they are, and so do called names, member names,
keywords and literals. Reading a node, its slots and the names in it commutes with this.
-/
namespace CodeEvolution

variable {index : Nat} (nodes : List Node)

/-- A variable of a method gets a new name. Both names are identifiers, and neither is that of the
receiver. -/
structure Renaming where
  around : Surroundings
  old : String
  new : String
  change : old ≠ new
  oldWord : Text.IsWord old.toList
  newWord : Text.IsWord new.toList
  oldPlain : around.receiver? ≠ some old
  newPlain : around.receiver? ≠ some new

namespace Renaming

def name (r : Renaming) (n : String) : String :=
  if n = r.old then r.new else n

variable (r : Renaming) {m n : String}

theorem name_old : r.name r.old = r.new :=
  if_pos rfl

theorem name_of_ne (h : n ≠ r.old) : r.name n = n :=
  if_neg h

/-- Where the new name was not in use, no two names become one. -/
theorem name_inj (hm : m ≠ r.new) (hn : n ≠ r.new) : r.name m = r.name n ↔ m = n := by
  unfold name
  grind

end Renaming

def NodeKind.rename (f : String → String) : NodeKind → NodeKind
  | .simpleName identifier => .simpleName (f identifier)
  | .variable name sort => .variable (f name) sort
  | kind => kind

/-- What does not depend on a name stays as it is. -/
theorem NodeKind.apply_rename {α : Type} (f : String → String) {g : NodeKind → α}
    (hname : ∀ m n, g (.simpleName m) = g (.simpleName n))
    (hvariable : ∀ m n sort, g (.variable m sort) = g (.variable n sort)) (kind : NodeKind) :
    g (kind.rename f) = g kind := by
  cases kind
  case simpleName => exact hname _ _
  case «variable» => exact hvariable _ _ _
  all_goals rfl

namespace Node

mutual

def rename (f : String → String) : Node → Node
  | ⟨kind, span, children⟩ => ⟨kind.rename f, span, renameAll f children⟩

def renameAll (f : String → String) : List Node → List Node
  | [] => []
  | node :: rest => rename f node :: renameAll f rest

end

def name? (node : Node) : Option String :=
  match node.kind with
  | .simpleName identifier => some identifier
  | .variable name _ => some name
  | _ => none

variable (f : String → String)

theorem renameAll_eq_map : renameAll f nodes = nodes.map (rename f) := by
  induction nodes with
  | nil => rfl
  | cons node rest ih => rw [renameAll, List.map_cons, ih]

theorem rename_eq (node : Node) :
    node.rename f = ⟨node.kind.rename f, node.span, node.children.map (rename f)⟩ := by
  obtain ⟨kind, span, children⟩ := node
  rw [rename, renameAll_eq_map]

@[simp]
theorem rename_kind (node : Node) : (node.rename f).kind = node.kind.rename f := by
  rw [rename_eq]

@[simp]
theorem rename_span (node : Node) : (node.rename f).span = node.span := by
  rw [rename_eq]

@[simp]
theorem rename_children (node : Node) :
    (node.rename f).children = node.children.map (rename f) := by
  rw [rename_eq]

/-! ## Slots -/

@[simp]
theorem isAbsent_rename (node : Node) : (node.rename f).isAbsent = node.isAbsent := by
  rw [isAbsent, isAbsent, rename_kind]
  cases node.kind <;> rfl

@[simp]
theorem isBlock_rename (node : Node) : (node.rename f).isBlock = node.isBlock := by
  rw [isBlock, isBlock, rename_kind]
  cases node.kind <;> rfl

@[simp]
theorem identifier?_rename (node : Node) :
    (node.rename f).identifier? = node.identifier?.map f := by
  rw [identifier?, identifier?, rename_kind]
  cases node.kind <;> rfl

@[simp]
theorem child?_rename (node : Node) (index : Nat) :
    (node.rename f).child? index = (node.child? index).map (rename f) := by
  rw [child?, child?, rename_children, List.getElem?_map]

@[simp]
theorem present?_rename (node : Node) (index : Nat) :
    (node.rename f).present? index = (node.present? index).map (rename f) := by
  rw [present?, present?, child?_rename]
  cases node.child? index with
  | none => rfl
  | some child => simp [Option.filter]

theorem presentAt_rename (node : Node) (indices : List Nat) :
    (node.rename f).presentAt indices = (node.presentAt indices).map (rename f) := by
  rw [presentAt, presentAt, List.map_filterMap]
  exact List.filterMap_congr fun index _ => present?_rename f node index

theorem grandchildren_rename (node : Node) (index : Nat) :
    (node.rename f).grandchildren index = (node.grandchildren index).map (rename f) := by
  rw [grandchildren, grandchildren, child?_rename]
  cases node.child? index with
  | none => rfl
  | some child => simp

theorem statementsInside_rename (node : Node) :
    (node.rename f).statementsInside = node.statementsInside.map (rename f) := by
  have hinside := NodeKind.apply_rename f (g := NodeKind.inside node.children.length)
    (fun _ _ => rfl) (fun _ _ _ => rfl) node.kind
  have hslots := NodeKind.apply_rename f (g := NodeKind.hasSlots)
    (fun _ _ => rfl) (fun _ _ _ => rfl) node.kind
  rw [statementsInside, statementsInside, rename_kind, rename_children, List.length_map, hinside,
    hslots, List.map_flatMap]
  refine List.flatMap_congr fun position _ => ?_
  rw [List.getElem?_map]
  cases node.children[position]? with
  | none => rfl
  | some child => cases h : node.kind.hasSlots && child.isAbsent <;> simp [Option.filter, h]

theorem clausesBeside_rename (node : Node) :
    (node.rename f).clausesBeside = node.clausesBeside.map (rename f) := by
  have hbeside := NodeKind.apply_rename f (g := NodeKind.beside node.children.length)
    (fun _ _ => rfl) (fun _ _ _ => rfl) node.kind
  rw [clausesBeside, clausesBeside, rename_kind, rename_children, List.length_map, hbeside,
    List.map_flatMap]
  refine List.flatMap_congr fun position _ => ?_
  rw [List.getElem?_map]
  cases node.children[position]? with
  | none => rfl
  | some child =>
    have hclause := NodeKind.apply_rename f (g := NodeKind.isClause)
      (fun _ _ => rfl) (fun _ _ _ => rfl) child.kind
    cases h : child.kind.isClause <;> simp [Option.filter, hclause, h]

theorem boundName?_rename (node : Node) : (node.rename f).boundName? = node.boundName?.map f := by
  unfold boundName?
  rw [rename_kind]
  cases node.kind
  case unary =>
    simp only [NodeKind.rename, present?_rename]
    cases node.present? 0 <;> simp
  all_goals rfl

theorem body?_rename (node : Node) : (node.rename f).body? = node.body?.map (rename f) := by
  have hlast : (node.rename f).children.getLast?.filter isBlock =
      (node.children.getLast?.filter isBlock).map (rename f) := by
    rw [rename_children, List.getLast?_map]
    cases node.children.getLast? with
    | none => rfl
    | some child => simp [Option.filter]
  unfold body?
  rw [rename_kind]
  cases node.kind
  case methodDeclaration => exact hlast
  case typeDeclaration => exact hlast
  all_goals rfl

theorem withItems_rename (node : Node) :
    Statement.withItems (node.rename f) = (Statement.withItems node).map (rename f) := by
  rw [Statement.withItems, Statement.withItems, rename_children, List.filter_map]
  congr 1
  apply List.filter_congr
  intro child _
  simp only [Function.comp_apply, rename_kind]
  cases child.kind <;> rfl

/-! ## Nodes below -/

mutual

theorem targets_rename : (node : Node) → (node.rename f).targets = node.targets.map (rename f)
  | ⟨kind, span, children⟩ => by
    have hchildren := targetsOf_rename children
    rw [rename]
    cases kind
    case collection sort => cases sort <;> simp [NodeKind.rename, targets, hchildren, rename]
    all_goals simp [NodeKind.rename, targets, hchildren, rename]

theorem targetsOf_rename :
    (nodes : List Node) → targetsOf (renameAll f nodes) = (targetsOf nodes).map (rename f)
  | [] => rfl
  | node :: rest => by
    rw [renameAll, targetsOf, targetsOf, List.map_append, targets_rename node,
      targetsOf_rename rest]

end

mutual

theorem expressions_rename :
    (node : Node) → (node.rename f).expressions = node.expressions.map (rename f)
  | ⟨kind, span, children⟩ => by
    have hchildren := expressionsOf_renameAll children
    rw [rename]
    cases kind <;> simp [NodeKind.rename, expressions, hchildren, rename]

theorem expressionsOf_renameAll :
    (nodes : List Node) → expressionsOf (renameAll f nodes) = (expressionsOf nodes).map (rename f)
  | [] => rfl
  | node :: rest => by
    rw [renameAll, expressionsOf, expressionsOf, List.map_append, expressions_rename node,
      expressionsOf_renameAll rest]

end

theorem expressionsOf_rename :
    expressionsOf (nodes.map (rename f)) = (expressionsOf nodes).map (rename f) := by
  rw [← renameAll_eq_map, expressionsOf_renameAll]

instance decidableEverywhere {P : Node → Prop} [DecidablePred P] (node : Node) :
    Decidable (node.Everywhere P) :=
  inferInstanceAs (Decidable (∀ below ∈ node.preorder, P below))

namespace Everywhere

variable {P : Node → Prop} {node below : Node}

theorem child? (h : node.Everywhere P) (hbelow : node.child? index = some below) :
    below.Everywhere P :=
  h.child (List.mem_of_getElem? hbelow)

theorem present? (h : node.Everywhere P) (hbelow : node.present? index = some below) :
    below.Everywhere P :=
  h.child? (Option.filter_eq_some_iff.mp hbelow).1

theorem presentAt (h : node.Everywhere P) {indices : List Nat}
    (hbelow : below ∈ node.presentAt indices) : below.Everywhere P := by
  obtain ⟨index, -, hindex⟩ := List.mem_filterMap.mp hbelow
  exact h.present? hindex

theorem grandchild (h : node.Everywhere P) (hbelow : below ∈ node.grandchildren index) :
    below.Everywhere P := by
  unfold grandchildren at hbelow
  split at hbelow
  · rename_i middle hmiddle
    exact (h.child? hmiddle).child hbelow
  · exact absurd hbelow List.not_mem_nil

mutual

theorem target : (node : Node) → node.Everywhere P → ∀ t ∈ node.targets, t.Everywhere P
  | ⟨kind, span, children⟩, h, t, ht => by
    have hchildren := targetOf children fun child hchild => h.child hchild
    unfold targets at ht
    split at ht
    · exact hchildren t (by simp_all)
    · exact hchildren t (by simp_all)
    · exact hchildren t (by simp_all)
    · exact List.mem_singleton.mp ht ▸ h

theorem targetOf : (nodes : List Node) → (∀ node ∈ nodes, node.Everywhere P) →
    ∀ t ∈ targetsOf nodes, t.Everywhere P
  | [], _, t, ht => absurd ht List.not_mem_nil
  | node :: rest, h, t, ht => by
    rcases List.mem_append.mp ht with ht | ht
    · exact target node (h node List.mem_cons_self) t ht
    · exact targetOf rest (fun other hother => h other (List.mem_cons_of_mem _ hother)) t ht

end

mutual

theorem expression : (node : Node) → node.Everywhere P → ∀ e ∈ node.expressions, P e
  | ⟨kind, span, children⟩, h, e, he => by
    have hchildren := expressionOf children fun child hchild => h.child hchild
    have hcases : e = ⟨kind, span, children⟩ ∨ e ∈ expressionsOf children := by
      cases kind <;> simp_all [expressions]
    rcases hcases with rfl | he
    · exact h.self
    · exact hchildren e he

theorem expressionOf : (nodes : List Node) → (∀ node ∈ nodes, node.Everywhere P) →
    ∀ e ∈ expressionsOf nodes, P e
  | [], _, e, he => absurd he List.not_mem_nil
  | node :: rest, h, e, he => by
    rcases List.mem_append.mp he with he | he
    · exact expression node (h node List.mem_cons_self) e he
    · exact expressionOf rest (fun other hother => h other (List.mem_cons_of_mem _ hother)) e he

end

end Everywhere

end Node

end CodeEvolution
