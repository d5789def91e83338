import CodeEvolution.Proofs.Lowering.Grammar
import CodeEvolution.Proofs.Lowering.Settled
import CodeEvolution.Proofs.Node.Row
/-!
# What rules make of parts in order

On a tree of the grammar the parts that a rule picks lie one after the other. If the calls below a
node answer with tidy nodes over the spans of what they were called for, the answers lie one after
the other as well, and so do the empty slots that stand in for missing parts. One lemma for each
rule says that its node is tidy then.
-/
namespace CodeEvolution.Lowering

open Syntax (Tree)
open Node (Row)

variable {fallback : Node} {tree : Option Tree} {children : List Node} {node : Node} {name : String}

/-! ## Answers -/

/-- The answer has a property, if there is one. -/
abbrev Yields {α : Type} (P : α → Prop) (x : Option α) : Prop :=
  Settled True P x x

theorem Settled.and {α : Type} {silent : Prop} {P Q : α → Prop} {x y : Option α}
    (h : Settled silent P x y) (h' : Settled silent Q x y) :
    Settled silent (fun a => P a ∧ Q a) x y := by
  cases h with
  | answer h => exact .answer ⟨h, h'.of_eq_some rfl⟩
  | silence h => exact .silence h

/-- The answer is a tidy node between two offsets, if there is one. -/
abbrev YieldsIn (language : Language) (start stop : Nat) (x : Option Node) : Prop :=
  Yields (fun node => Row language start stop [node]) x

/-- A tidy node inside a span. -/
def Fits (language : Language) (span : Span) (node : Node) : Prop :=
  Row language span.startOffset span.endOffset [node]

variable {language : Language} {calls : Calls} {t x : Tree} {start stop : Nat}
  {call : Tree → Option Node} {trees : List Tree} {nodes : List Node} {kind : NodeKind}

theorem row_of_fits (h : Fits language x.span node) (hstart : start ≤ x.span.startOffset)
    (hstop : x.span.endOffset ≤ stop) : Row language start stop [node] :=
  Row.mono h hstart hstop

theorem row_of_forall₂ (horder : Tree.inOrder start stop trees = true)
    (h : List.Forall₂ (fun x node => Fits language x.span node) trees nodes) :
    Row language start stop nodes := by
  induction h generalizing start with
  | nil => simpa [Tree.inOrder, Row] using horder
  | cons hnode _ ih =>
    rw [Tree.inOrder_cons] at horder
    exact (row_of_fits hnode horder.1 .refl).append (ih horder.2.2)

theorem row_mapM (horder : Tree.inOrder start stop trees = true)
    (hcall : ∀ x ∈ trees, Yields (Fits language x.span) (call x)) :
    Yields (Row language start stop) (trees.mapM call) :=
  (settled_mapM hcall).imp fun _ hnodes => row_of_forall₂ horder hnodes

theorem row_flatten {lists : List (List Node)} (horder : Tree.inOrder start stop trees = true)
    (h : List.Forall₂ (fun x nodes => Row language x.span.startOffset x.span.endOffset nodes)
      trees lists) : Row language start stop lists.flatten := by
  induction h generalizing start with
  | nil => simpa [Tree.inOrder, Row] using horder
  | cons hnodes _ ih =>
    rw [Tree.inOrder_cons] at horder
    rw [List.flatten_cons]
    exact (hnodes.mono horder.1 .refl).append (ih horder.2.2)

theorem row_slot (horder : Tree.inOrder start stop tree.toList = true)
    (hcall : ∀ x ∈ tree, Yields (Fits language x.span) (call x))
    (hf : tree = none → Row language start stop [fallback]) :
    YieldsIn language start stop (slot call tree fallback) := by
  cases tree with
  | none => exact .answer (hf rfl)
  | some x =>
    have hbounds := Tree.bounds_of_inOrder horder (by simp : x ∈ (some x).toList)
    exact (hcall x rfl).imp fun node hnode => row_of_fits hnode hbounds.1 hbounds.2.2

theorem row_slotAfter {cut : Nat} {last : Node} (hnodes : Row language start cut nodes)
    (hlast : nodes.getLast? = some last) (horder : Tree.inOrder cut stop tree.toList = true)
    (hcall : ∀ x ∈ tree, Yields (Fits language x.span) (call x)) :
    Yields (fun node => Row language start stop (nodes ++ [node]))
      (slot call tree (Node.absentAt last.span.endPoint)) := by
  cases tree with
  | none =>
    exact .answer ((hnodes.absentAfter hlast).mono .refl (Tree.le_of_inOrder horder))
  | some x =>
    have hbounds := Tree.bounds_of_inOrder horder (by simp : x ∈ (some x).toList)
    exact (hcall x rfl).imp fun node hnode =>
      hnodes.append (row_of_fits hnode hbounds.1 hbounds.2.2)

theorem row_absentBefore (h : t.span.startOffset ≤ stop) :
    Row language t.span.startOffset stop [absentBefore t] :=
  Node.row_absentAt rfl .refl h

theorem row_absentAfter (h : start ≤ t.span.endOffset) :
    Row language start t.span.endOffset [absentAfter t] :=
  Node.row_absentAt rfl h .refl

/-! ## Nodes -/

theorem fits_node (hkind : kind.isReordered = false)
    (hchildren : Row language t.span.startOffset t.span.endOffset children) :
    Fits language t.span (nodeOf kind t children) :=
  Node.row_of_children hkind .refl .refl hchildren

theorem yields_node (hkind : kind.isReordered = false)
    (hchildren : Row language t.span.startOffset t.span.endOffset children) :
    Yields (Fits language t.span) (some (nodeOf kind t children)) :=
  .answer (fits_node hkind hchildren)

theorem fits_other (hchildren : Row language t.span.startOffset t.span.endOffset children) :
    Fits language t.span (otherNode t children) :=
  fits_node rfl hchildren

theorem row_spanning (hkind : kind.isReordered = false)
    (horder : Tree.inOrder start stop trees = true)
    (hnodes : ∀ {start stop}, Tree.inOrder start stop trees = true → Row language start stop nodes)
    (hf : trees = [] → Row language start stop [fallback]) :
    Row language start stop [spanning kind trees nodes fallback] := by
  unfold spanning
  split
  · rename_i first last hfirst hlast
    obtain ⟨htight, hstart, hstop⟩ := Tree.inOrder_tight horder hfirst hlast
    exact Node.row_of_children hkind hstart hstop (hnodes htight)
  · rename_i hends
    cases trees with
    | nil => exact hf rfl
    | cons first rest => exact absurd List.getLast?_cons (hends first _ rfl)

/-! ## Calls below a node -/

/-- The entry points answer with tidy nodes inside the span of a node. A comment of Java stays a
comment. -/
structure OrdersAt (language : Language) (calls : Calls) (x : Tree) : Prop where
  expression : Yields (Fits language x.span) (calls.expression x)
  statement : Yields (fun node => Fits language x.span node ∧ (language = .java →
    x.kind = "line_comment" ∨ x.kind = "block_comment" → node = commentNode x))
    (calls.statement x)
  typeRef : Yields (Fits language x.span) (calls.typeRef x)
  declaration : Yields (Fits language x.span) (calls.declaration x)

structure Orders (language : Language) (calls : Calls) (t : Tree) : Prop where
  isGrammatical : isGrammatical language t = true
  settles : Settles ⟨True, True, calls, calls⟩ t
  ordersAt {x : Tree} : x.IsBelow t → OrdersAt language calls x

namespace Orders

theorem below (h : Orders language calls t) (hx : x.IsBelow t) : Orders language calls x where
  isGrammatical := isGrammatical_of_isBelow hx h.isGrammatical
  settles := h.settles.below hx
  ordersAt hy := h.ordersAt (hy.trans hx)

variable (h : Orders language calls t)

include h

theorem isNested : t.isNested = true :=
  isNested_of_isGrammatical h.isGrammatical

theorem le : t.span.startOffset ≤ t.span.endOffset :=
  (Tree.within_self h.isNested).2.1

theorem parts {kind : String} {paths : List Path} (hkind : kind = t.kind)
    (hpaths : (partOrder language).lookup kind = some paths) :
    AllParts t paths :=
  parts_of_isGrammatical h.isGrammatical hkind.symm hpaths

/-- A part that the grammar asks for is there. -/
theorem field?_ne_none {kind : String} {names : List String} (hkind : kind = t.kind)
    (hnames : (requiredFields language).lookup kind = some names) (hname : name ∈ names) :
    t.field? name ≠ none := by
  obtain ⟨x, hx⟩ := exists_field_of_isGrammatical h.isGrammatical hkind.symm hnames hname
  exact hx ▸ Option.some_ne_none x

theorem leaf : Fits language t.span (nodeOf kind t []) :=
  Node.row_leaf h.le .refl .refl

theorem straying (hkind : kind.isReordered = false)
    (hpairs : children.Pairwise fun earlier later =>
      earlier.span.endOffset ≤ later.span.startOffset ∨
        (nodeOf kind t children).strays language earlier later = true)
    (htidy : ∀ child ∈ children, child.Tidy language) :
    Fits language t.span (nodeOf kind t children) := by
  refine ⟨.refl, h.le, Node.tidy_of_inOrder ?_ htidy, .refl⟩
  rwa [Node.InOrder, Node.written_eq_children hkind]

theorem absentBefore : Fits language t.span (absentBefore t) :=
  row_absentBefore h.le

theorem absentAfter : Fits language t.span (absentAfter t) :=
  row_absentAfter h.le

theorem widen (hx : x.IsBelow t) (hnode : Fits language x.span node) : Fits language t.span node :=
  have hwithin := (hx.isNested_and_within h.isNested).2
  row_of_fits hnode hwithin.1 hwithin.2.2

/-! ### Answers of the entry points -/

theorem expression (hx : x.IsBelow t) : Yields (Fits language x.span) (calls.expression x) :=
  (h.ordersAt hx).expression

theorem statement (hx : x.IsBelow t) : Yields (Fits language x.span) (calls.statement x) :=
  (h.ordersAt hx).statement.imp fun _ hnode => hnode.1

theorem expressionSlot (horder : Tree.inOrder start stop tree.toList = true)
    (htree : ∀ x ∈ tree, x.IsBelow t) (hf : tree = none → Row language start stop [fallback]) :
    YieldsIn language start stop (slot calls.expression tree fallback) :=
  row_slot horder (fun x hx => h.expression (htree x hx)) hf

theorem expressionField (horder : Tree.inOrder start stop ((Path.field name).select t) = true)
    (hf : t.field? name = none → Row language start stop [fallback]) :
    YieldsIn language start stop (fieldSlot calls.expression t name fallback) :=
  h.expressionSlot horder (fun _ hx => Tree.isBelow_of_field? hx) hf

theorem typeField (horder : Tree.inOrder start stop ((Path.field name).select t) = true)
    (hf : t.field? name = none → Row language start stop [fallback]) :
    YieldsIn language start stop (fieldSlot calls.typeRef t name fallback) :=
  row_slot horder (fun _ hx => (h.ordersAt (Tree.isBelow_of_field? hx)).typeRef) hf

theorem only (htree : ∀ x ∈ tree, x.IsBelow t)
    (hcall : ∀ x : Tree, x.IsBelow t → Yields (Fits language x.span) (call x))
    (hf : Fits language t.span fallback) :
    Yields (Fits language t.span) (slot call tree fallback) :=
  settled_slot (fun x hx => (hcall x (htree x hx)).imp fun _ hnode => h.widen (htree x hx) hnode) hf

theorem onlyExpression (htree : ∀ x ∈ tree, x.IsBelow t) (hf : Fits language t.span fallback) :
    Yields (Fits language t.span) (slot calls.expression tree fallback) :=
  h.only htree (fun _ hx => h.expression hx) hf

theorem onlyTypeField (name : String) (hf : Fits language t.span fallback) :
    Yields (Fits language t.span) (fieldSlot calls.typeRef t name fallback) :=
  h.only (fun _ hx => Tree.isBelow_of_field? hx) (fun _ hx => (h.ordersAt hx).typeRef) hf

theorem onlyField (name : String) (hf : Fits language t.span fallback) :
    Yields (Fits language t.span) (fieldSlot calls.expression t name fallback) :=
  h.onlyExpression (fun _ hx => Tree.isBelow_of_field? hx) hf

theorem firstExpression (hf : Fits language t.span fallback) :
    Yields (Fits language t.span) (slot calls.expression t.named.head? fallback) :=
  h.onlyExpression (fun _ hx => Tree.isBelow_of_named (List.mem_of_head? hx)) hf

theorem expressions (horder : Tree.inOrder start stop trees = true)
    (htrees : ∀ x ∈ trees, x.IsBelow t) :
    Yields (Row language start stop) (trees.mapM calls.expression) :=
  row_mapM horder fun x hx => h.expression (htrees x hx)

theorem namedExpressions :
    Yields (Row language t.span.startOffset t.span.endOffset) (t.named.mapM calls.expression) :=
  h.expressions (Tree.inOrder_named h.isNested) fun _ hx => Tree.isBelow_of_named hx

theorem statements :
    Yields (Row language t.span.startOffset t.span.endOffset) (t.statements.mapM calls.statement) :=
  row_mapM (Tree.inOrder_statements h.isNested) fun _ hx =>
    h.statement (Tree.isBelow_of_statements hx)

theorem typeRefs (horder : Tree.inOrder start stop trees = true)
    (htrees : ∀ x ∈ trees, x.IsBelow t) :
    Yields (Row language start stop) (trees.mapM calls.typeRef) :=
  row_mapM horder fun x hx => (h.ordersAt (htrees x hx)).typeRef

theorem firstTwo (hkind : kind.isReordered = false) :
    Yields (Fits language t.span) (do
      let first ← slot calls.expression t.named[0]? (Lowering.absentAfter t)
      let second ← slot calls.expression t.named[1]? (Lowering.absentAfter t)
      return nodeOf kind t [first, second]) := by
  have horder := Tree.inOrder_named h.isNested
  have hbelow : ∀ x ∈ t.named, x.IsBelow t := fun _ hx => Tree.isBelow_of_named hx
  have hend : Row language t.span.endOffset t.span.endOffset [Lowering.absentAfter t] :=
    row_absentAfter .refl
  generalize t.named = parts at horder hbelow ⊢
  rcases parts with _ | ⟨first, _ | ⟨second, rest⟩⟩
  · exact yields_node hkind (Row.append h.absentAfter hend)
  · refine (h.expression (hbelow first (by simp))).bind fun node hnode => ?_
    rw [Tree.inOrder_singleton] at horder
    have hrow := row_of_fits hnode horder.1 horder.2.2
    exact yields_node hkind (hrow.append hend)
  · refine (h.expression (hbelow first (by simp))).bind fun node hnode => ?_
    refine (h.expression (hbelow second (by simp))).bind fun node' hnode' => ?_
    have hpair := Tree.inOrder_sublist (List.take_sublist 2 _) horder
    exact yields_node hkind (row_of_forall₂ hpair (.cons hnode (.cons hnode' .nil)))

theorem fieldPair {first second : String} (hkind : kind.isReordered = false)
    (hparts : AllParts t [Path.field first, Path.field second])
    (hcall : ∀ x : Tree, x.IsBelow t → Yields (Fits language x.span) (call x)) :
    Yields (Fits language t.span) (do
      let left ← fieldSlot calls.expression t first (Lowering.absentBefore t)
      let right ← fieldSlot call t second (Lowering.absentAfter t)
      return nodeOf kind t [left, right]) := by
  obtain ⟨cut, hleft, hright⟩ := hparts.cut
  refine (h.expressionField hleft fun _ => row_absentBefore (Tree.le_of_inOrder hleft)).bind
    fun left hleft => ?_
  refine (row_slot hright.last (fun x hx => hcall x (Tree.isBelow_of_field? hx)) fun _ =>
    row_absentAfter (Tree.le_of_inOrder hright)).bind fun right hright => ?_
  exact yields_node hkind (hleft.append hright)

end Orders

/-! ## Rules of both languages -/

section

variable (h : Orders language calls t)

include h

theorem fits_binary (hparts : AllParts t [Path.field "left", Path.field "right"]) :
    Yields (Fits language t.span) (binary calls t) :=
  h.fieldPair rfl hparts fun _ hx => h.expression hx

theorem fits_parenthesized : Yields (Fits language t.span) (parenthesized calls t) :=
  (h.firstExpression h.absentAfter).bind fun _ hinner => yields_node rfl hinner

theorem fits_otherExpression : Yields (Fits language t.span) (otherExpression calls t) :=
  h.namedExpressions.bind fun _ hnodes => .answer (fits_other hnodes)

end

/-! ## Chains of calls -/

theorem orders_tie {step : Calls → Calls}
    (hsettles : ∀ {bound : Nat} {x : Tree}, x.depth ≤ bound + 1 → x.isNested = true →
      Settles ⟨True, True, tie step bound, tie step bound⟩ x)
    (hstep : ∀ {bound : Nat} {x : Tree}, Orders language (tie step bound) x →
      OrdersAt language (tie step (bound + 1)) x)
    {bound : Nat} (hbound : t.depth ≤ bound + 1) (h : isGrammatical language t = true) :
    Orders language (tie step bound) t := by
  have hsettles' := hsettles hbound (isNested_of_isGrammatical h)
  induction bound generalizing t with
  | zero =>
    refine ⟨h, hsettles', fun {x} hx => ?_⟩
    have hdepth := hx.depth_lt
    have hpos := x.depth_eq
    omega
  | succ bound ih =>
    refine ⟨h, hsettles', fun {x} hx => ?_⟩
    have hdepth := hx.depth_lt
    have hx := isGrammatical_of_isBelow hx h
    exact hstep (ih (by omega) hx (hsettles (by omega) (isNested_of_isGrammatical hx)))

end CodeEvolution.Lowering
