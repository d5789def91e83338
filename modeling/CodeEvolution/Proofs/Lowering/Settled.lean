import CodeEvolution.Lowering.Basic
import CodeEvolution.Proofs.Node.Layout
/-!
# What rules make of settled parts

A rule calls for the lowering of nodes below its own and builds one node from the answers. The
calls are settled below a node if two sets of entry points give the same answers there, answer
everything unless silence is allowed, and answer with nodes that suit the spans of what they were
called for. One lemma for each rule says that it settles its node from calls settled below it.
That a lowering ends, that more calls change nothing, that nodes are laid out by kind and that
spans nest all follow from these lemmas, since chains of calls go down the tree.
-/
namespace CodeEvolution.Lowering

open Syntax (Tree)

variable {span : Span} {fallback body type : Node} {kind : NodeKind} {trees : List Tree}
  {nodes children : List Node} {tree : Option Tree} {name : String} {t : Tree}

/-! ## Settled answers -/

/-- Two answers are one and have a property, or both are missing where silence is allowed. -/
inductive Settled {α : Type} (silent : Prop) (P : α → Prop) : Option α → Option α → Prop where
  | answer {a : α} (h : P a) : Settled silent P (some a) (some a)
  | silence (h : silent) : Settled silent P none none

section Settled

variable {α β : Type} {silent : Prop} {P : α → Prop} {Q : β → Prop} {x y : Option α}
  {f g : α → Option β} {xs : List α}

theorem Settled.bind (h : Settled silent P x y) (hfg : ∀ a, P a → Settled silent Q (f a) (g a)) :
    Settled silent Q (x >>= f) (y >>= g) := by
  cases h with
  | answer h => exact hfg _ h
  | silence h => exact .silence h

theorem Settled.imp {P' : α → Prop} (h : Settled silent P x y) (himp : ∀ a, P a → P' a) :
    Settled silent P' x y := by
  cases h with
  | answer h => exact .answer (himp _ h)
  | silence h => exact .silence h

theorem Settled.eq (h : Settled silent P x y) : x = y := by
  cases h <;> rfl

theorem Settled.of_eq_some {a : α} (h : Settled silent P x y) (hx : x = some a) : P a := by
  cases h with
  | answer h => exact Option.some.inj hx ▸ h
  | silence => cases hx

theorem Settled.of_eq_none (h : Settled silent P x y) (hx : x = none) : silent := by
  cases h with
  | answer => cases hx
  | silence h => exact h

theorem settled_mapM {R : α → β → Prop} (h : ∀ x ∈ xs, Settled silent (R x) (f x) (g x)) :
    Settled silent (List.Forall₂ R xs) (xs.mapM f) (xs.mapM g) := by
  induction xs with
  | nil => exact .answer .nil
  | cons x xs ih =>
    rw [List.mapM_cons, List.mapM_cons]
    refine (h x (List.mem_cons_self ..)).bind fun b hb => ?_
    refine (ih fun x hx => h x (List.mem_cons_of_mem _ hx)).bind fun bs hbs => ?_
    exact .answer (.cons hb hbs)

theorem settled_mapM_all (h : ∀ x ∈ xs, Settled silent Q (f x) (g x)) :
    Settled silent (fun bs => ∀ b ∈ bs, Q b) (xs.mapM f) (xs.mapM g) := by
  refine (settled_mapM (R := fun _ b => Q b) h).imp fun bs hbs => ?_
  induction hbs with
  | nil => simp
  | cons hb _ ih =>
    have := ih fun x hx => h x (List.mem_cons_of_mem _ hx)
    simpa [hb] using this

theorem settled_slot {P : Node → Prop} {call call' : Tree → Option Node}
    (h : ∀ x ∈ tree, Settled silent P (call x) (call' x)) (hf : P fallback) :
    Settled silent P (slot call tree fallback) (slot call' tree fallback) := by
  cases tree with
  | none => exact .answer hf
  | some x => exact h x rfl

end Settled

@[simp] theorem absentAfter_kind (t : Tree) : (absentAfter t).kind = .absent := rfl

@[simp] theorem absentBefore_kind (t : Tree) : (absentBefore t).kind = .absent := rfl

@[simp] theorem nodeOf_kind (kind : NodeKind) (t : Tree) (nodes : List Node) :
    (nodeOf kind t nodes).kind = kind := rfl

@[simp] theorem emptyList_kind (span : Span) : (emptyList span).kind = .expressionList := rfl

/-! ## Calls settled below a node -/

/-- Two sets of entry points side by side, with what silence takes and when spans matter. -/
structure Setting where
  silent : Prop
  nested : Prop
  calls : Calls
  calls' : Calls

namespace Setting

variable (s : Setting)

abbrev Gives {α : Type} (P : α → Prop) (part : Calls → Option α) : Prop :=
  Settled s.silent P (part s.calls) (part s.calls')

abbrev Suits (t : Tree) (node : Node) : Prop :=
  node.Suits s.nested t.span

def SuitsAs (t : Tree) (p : NodeKind → Prop) (node : Node) : Prop :=
  s.Suits t node ∧ p node.kind

abbrev IsBlock (t : Tree) : Node → Prop :=
  s.SuitsAs t (· = .block)

/-- A node of the grammar for conditionals is a conditional. -/
abbrev IsStatement (t : Tree) : Node → Prop :=
  s.SuitsAs t fun kind => t.kind = "if_statement" → kind = .conditional

abbrev IsBranch (t : Tree) : Node → Prop :=
  s.SuitsAs t fun kind => kind = .block ∨ kind = .conditional ∨ kind = .absent

def AreVariables (t : Tree) (nodes : List Node) : Prop :=
  ∀ node ∈ nodes, s.SuitsAs t (·.isVariable = true) node

def AreDecorators (t : Tree) (nodes : List Node) : Prop :=
  ∀ node ∈ nodes, s.SuitsAs t (·.isDecorator = true) node

end Setting

/-- Two sets of entry points are settled at a node. -/
structure SettledAt (s : Setting) (x : Tree) : Prop where
  expression : s.Gives (s.Suits x) (·.expression x)
  statement : s.Gives (s.IsStatement x) (·.statement x)
  typeRef : s.Gives (s.SuitsAs x (·.isTypeRef = true)) (·.typeRef x)
  declaration : s.Gives (s.Suits x) (·.declaration x)

/-- Two sets of entry points are settled below a node. Spans are a matter of trees that are
`nested`. -/
structure Settles (s : Setting) (t : Tree) : Prop where
  isNested : s.nested → t.isNested = true
  settledAt {x : Tree} : x.IsBelow t → SettledAt s x

namespace Settles

variable {s : Setting} {t x : Tree}

theorem below (h : Settles s t) (hx : x.IsBelow t) : Settles s x where
  isNested hn := (hx.isNested_and_within (h.isNested hn)).1
  settledAt hy := h.settledAt (hy.trans hx)

variable (h : Settles s t)

include h

theorem within (hx : x.IsBelow t) (hn : s.nested) : x.span.Within t.span :=
  (hx.isNested_and_within (h.isNested hn)).2

theorem within_self (hn : s.nested) : t.span.Within t.span :=
  Tree.within_self (h.isNested hn)

/-! ### Empty slots -/

theorem absentAfter : s.Suits t (absentAfter t) :=
  Node.suits_absentAt fun hn => (h.within_self hn).endPoint

theorem absentBefore : s.Suits t (absentBefore t) :=
  Node.suits_absentAt fun hn => (h.within_self hn).startPoint

/-! ### Nodes -/

theorem widen {node : Node} (hx : x.IsBelow t) (hnode : s.Suits x node) : s.Suits t node :=
  hnode.mono (h.within hx)

theorem widenAs {p : NodeKind → Prop} {part : Calls → Option Node} (hx : x.IsBelow t)
    (hpart : s.Gives (s.SuitsAs x p) part) : s.Gives (s.SuitsAs t p) part :=
  hpart.imp fun _ hnode => ⟨h.widen hx hnode.1, hnode.2⟩

/-- The tree itself or one below it, whose nodes may stand over the span of the tree. -/
theorem inner (hx : x = t ∨ x.IsBelow t) : Settles s x ∧
    ∀ node : Node, s.Suits x node → s.Suits t node := by
  rcases hx with rfl | hx
  · exact ⟨h, fun _ hnode => hnode⟩
  · exact ⟨h.below hx, fun _ hnode => h.widen hx hnode⟩

theorem node (hlayout : Node.isLaidOut ⟨kind, t.span, children⟩ = true)
    (hchildren : ∀ child ∈ children, s.Suits t child) : s.Suits t ⟨kind, t.span, children⟩ :=
  Node.suits_of_children hlayout h.within_self hchildren

theorem gives (hlayout : Node.isLaidOut ⟨kind, t.span, children⟩ = true)
    (hchildren : ∀ child ∈ children, s.Suits t child) :
    s.Gives (s.Suits t) fun _ => some ⟨kind, t.span, children⟩ :=
  .answer (h.node hlayout hchildren)

theorem leaf (hlayout : kind.layout = [] ∨ kind.layout = [LayoutPart.anyNumber]) :
    s.Suits t (nodeOf kind t []) :=
  Node.suits_leaf hlayout h.within_self

theorem collect (hlayout : kind.layout = [LayoutPart.anyNumber])
    (hchildren : ∀ child ∈ children, s.Suits t child) : s.Suits t (nodeOf kind t children) :=
  h.node (by rw [Node.isLaidOut, hlayout, LayoutPart.admits_anyNumber]) hchildren

theorem other (hchildren : ∀ child ∈ children, s.Suits t child) :
    s.Suits t (otherNode t children) :=
  h.collect rfl hchildren

/-! ### Answers of the entry points -/

theorem expression (hx : x.IsBelow t) : s.Gives (s.Suits t) (·.expression x) :=
  (h.settledAt hx).expression.imp fun _ hnode => h.widen hx hnode

theorem expressionSlot (htree : ∀ x ∈ tree, x.IsBelow t) (hf : s.Suits t fallback) :
    s.Gives (s.Suits t) (slot ·.expression tree fallback) :=
  settled_slot (fun x hx => h.expression (htree x hx)) hf

theorem expressionField (name : String) (hf : s.Suits t fallback) :
    s.Gives (s.Suits t) (fieldSlot ·.expression t name fallback) :=
  h.expressionSlot (fun _ hx => Tree.isBelow_of_field? hx) hf

theorem firstExpression (hf : s.Suits t fallback) :
    s.Gives (s.Suits t) (slot ·.expression t.named.head? fallback) :=
  h.expressionSlot (fun _ hx => Tree.isBelow_of_named (List.mem_of_head? hx)) hf

theorem nthExpression (index : Nat) (hf : s.Suits t fallback) :
    s.Gives (s.Suits t) (slot ·.expression t.named[index]? fallback) :=
  h.expressionSlot (fun _ hx => Tree.isBelow_of_named (List.mem_of_getElem? hx)) hf

theorem expressions (htrees : ∀ x ∈ trees, x.IsBelow t) :
    s.Gives (fun nodes => ∀ node ∈ nodes, s.Suits t node) (trees.mapM ·.expression) :=
  settled_mapM_all fun x hx => h.expression (htrees x hx)

theorem namedExpressions :
    s.Gives (fun nodes => ∀ node ∈ nodes, s.Suits t node) (t.named.mapM ·.expression) :=
  h.expressions fun _ hx => Tree.isBelow_of_named hx

theorem statement (hx : x.IsBelow t) : s.Gives (s.Suits t) (·.statement x) :=
  (h.settledAt hx).statement.imp fun _ hnode => h.widen hx hnode.1

theorem statements :
    s.Gives (fun nodes => ∀ node ∈ nodes, s.Suits t node) (t.statements.mapM ·.statement) :=
  settled_mapM_all fun _ hx => h.statement (Tree.isBelow_of_statements hx)

/-! ### Types -/

theorem typeRef (hx : x.IsBelow t) : s.Gives (s.SuitsAs t (·.isTypeRef = true)) (·.typeRef x) :=
  h.widenAs hx (h.settledAt hx).typeRef

theorem typeRefs (htrees : ∀ x ∈ trees, x.IsBelow t) :
    s.Gives (fun nodes => ∀ node ∈ nodes, s.SuitsAs t (·.isTypeRef = true) node)
      (trees.mapM ·.typeRef) :=
  settled_mapM_all fun x hx => h.typeRef (htrees x hx)

theorem typeSlot (htree : ∀ x ∈ tree, x.IsBelow t) (hspan : s.nested → span.Within t.span) :
    s.Gives (s.SuitsAs t (·.isTypeSlot = true)) (slot ·.typeRef tree (Node.absentAt span)) := by
  refine settled_slot (fun x hx => ?_) ⟨Node.suits_absentAt hspan, rfl⟩
  refine (h.typeRef (htree x hx)).imp fun node hnode => ⟨hnode.1, ?_⟩
  exact Bool.or_eq_true_iff.mpr (.inl hnode.2)

theorem typeField (name : String) (hspan : s.nested → span.Within t.span) :
    s.Gives (s.SuitsAs t (·.isTypeSlot = true)) (fieldSlot ·.typeRef t name (Node.absentAt span)) :=
  h.typeSlot (fun _ hx => Tree.isBelow_of_field? hx) hspan

theorem areVariables (hx : x.IsBelow t) (hnodes : s.AreVariables x nodes) :
    s.AreVariables t nodes :=
  fun node hnode => ⟨h.widen hx (hnodes node hnode).1, (hnodes node hnode).2⟩

/-! ### Lists over their members -/

theorem spanning (hlayout : kind.layout = [LayoutPart.anyNumber])
    (htrees : trees.Sublist t.children) (hnodes : ∀ node ∈ nodes, ∃ x ∈ trees, s.Suits x node)
    (hf : trees = [] → s.Suits t fallback) : s.Suits t (spanning kind trees nodes fallback) := by
  unfold Lowering.spanning
  split
  · rename_i first last hfirst hlast
    refine Node.suits_of_children ?_ (fun hn => ?_) fun node hnode => ?_
    · rw [Node.isLaidOut, hlayout, LayoutPart.admits_anyNumber]
    · exact (Tree.within_through (h.isNested hn) htrees hfirst hlast).1
    · obtain ⟨x, hx, hsuits⟩ := hnodes node hnode
      exact hsuits.mono fun hn => (Tree.within_through (h.isNested hn) htrees hfirst hlast).2 x hx
  · rename_i hends
    cases trees with
    | nil => exact hf rfl
    | cons first rest =>
      exact absurd List.getLast?_cons (hends first _ rfl)

end Settles

theorem spanning_kind (h : fallback.kind = kind) :
    (spanning kind trees nodes fallback).kind = kind := by
  unfold spanning
  split
  · rfl
  · exact h

theorem exists_of_forall₂ {R : Tree → Node → Prop} (h : List.Forall₂ R trees nodes) :
    ∀ node ∈ nodes, ∃ x ∈ trees, R x node := by
  induction h with
  | nil => simp
  | cons hxy _ ih => grind

/-! ## Rules -/

/-- The rule settles every node below which the calls are settled. -/
def Settling (rule : Rule) : Prop :=
  ∀ {s : Setting} {t : Tree}, Settles s t → Settled s.silent (s.Suits t) (rule s.calls t)
    (rule s.calls' t)

theorem settling_leaf (kind : Tree → NodeKind) (hlayout : ∀ t, (kind t).layout = []) :
    Settling fun _ tree => some (nodeOf (kind tree) tree []) :=
  fun h => .answer (h.leaf (.inl (hlayout _)))

theorem settling_nameNode : Settling fun _ tree => some (nameNode tree) :=
  settling_leaf (fun tree => .simpleName tree.text) fun _ => rfl

theorem settling_literalNode (sort : LiteralSort) :
    Settling fun _ tree => some (literalNode sort tree) :=
  settling_leaf (fun tree => .literal sort tree.text) fun _ => rfl

theorem settling_commentNode : Settling fun _ tree => some (commentNode tree) :=
  settling_leaf (fun tree => .comment tree.text) fun _ => rfl

theorem settling_breakStatement : Settling fun _ tree => some (nodeOf .breakStatement tree []) :=
  settling_leaf (fun _ => .breakStatement) fun _ => rfl

theorem settling_continueStatement :
    Settling fun _ tree => some (nodeOf .continueStatement tree []) :=
  settling_leaf (fun _ => .continueStatement) fun _ => rfl

theorem settling_binary : Settling binary := by
  intro s t h
  refine (h.expressionField "left" h.absentBefore).bind fun left hleft => ?_
  refine (h.expressionField "right" h.absentAfter).bind fun right hright => ?_
  exact h.gives rfl (by simp [hleft, hright])

theorem settling_parenthesized : Settling parenthesized := by
  intro s t h
  refine (h.firstExpression h.absentAfter).bind fun inner hinner => ?_
  exact h.gives rfl (by simp [hinner])

theorem settling_otherExpression : Settling otherExpression := by
  intro s t h
  refine h.namedExpressions.bind fun nodes hnodes => ?_
  exact .answer (h.other hnodes)

theorem settling_asserting : Settling asserting := by
  intro s t h
  refine (h.nthExpression 0 h.absentAfter).bind fun test htest => ?_
  refine (h.nthExpression 1 h.absentAfter).bind fun message hmessage => ?_
  exact h.gives rfl (by simp [htest, hmessage])

theorem typeRef_isLaidOut (h : ∀ node ∈ nodes, node.kind.isTypeRef = true) :
    Node.isLaidOut ⟨.typeRef name, span, nodes⟩ = true :=
  LayoutPart.admits_many (by simpa using h)

theorem variable_isLaidOut {sort : ParameterSort} {value : Node} (h : type.kind.isTypeSlot = true) :
    Node.isLaidOut ⟨.variable name sort, span, [type, value]⟩ = true := by
  simp [Node.isLaidOut, NodeKind.layout, h]

theorem invocation_isLaidOut {receiver : Node} {arguments : List Node} :
    Node.isLaidOut ⟨.invocation name, span, receiver :: arguments⟩ = true := by
  simp [Node.isLaidOut, NodeKind.layout]

theorem lambda_isLaidOut {parameters : List Node}
    (h : ∀ node ∈ parameters, node.kind.isVariable = true) :
    Node.isLaidOut ⟨.lambda, span, parameters ++ [body]⟩ = true := by
  rw [Node.isLaidOut, List.map_append]
  exact LayoutPart.admits_many_append (by simpa using h) rfl

theorem typeDeclaration_isLaidOut {head : TypeHead} {decorators components : List Node}
    (hdecorators : ∀ node ∈ decorators, node.kind.isDecorator = true)
    (hcomponents : ∀ node ∈ components, node.kind.isVariable = true) (hbody : body.kind = .block) :
    Node.isLaidOut ⟨.typeDeclaration head, span, decorators ++ components ++ [body]⟩ = true := by
  rw [Node.isLaidOut, List.append_assoc, List.map_append, List.map_append, List.map_singleton,
    hbody]
  exact LayoutPart.admits_many_append (by simpa using hdecorators)
    (LayoutPart.admits_many_append (by simpa using hcomponents) rfl)

theorem methodDeclaration_isLaidOut {head : MethodHead} {decorators parameters : List Node}
    (hdecorators : ∀ node ∈ decorators, node.kind.isDecorator = true)
    (hparameters : ∀ node ∈ parameters, node.kind.isVariable = true)
    (htype : type.kind.isTypeSlot = true) (hbody : body.kind = .block ∨ body.kind = .absent) :
    Node.isLaidOut ⟨.methodDeclaration head, span, decorators ++ parameters ++ [type, body]⟩ =
      true := by
  rw [Node.isLaidOut, List.append_assoc, List.map_append, List.map_append]
  refine LayoutPart.admits_many_append (by simpa using hdecorators)
    (LayoutPart.admits_many_append (by simpa using hparameters) ?_)
  simp [htype, hbody]

theorem variableDeclaration_isLaidOut {modifiers : Modifiers} {declared : List Node}
    (htype : type.kind.isTypeSlot = true)
    (hdeclared : ∀ node ∈ declared, node.kind.isVariable = true) :
    Node.isLaidOut ⟨.variableDeclaration modifiers, span, type :: declared⟩ = true := by
  rw [Node.isLaidOut, List.map_cons, NodeKind.layout, LayoutPart.admits_one_cons, htype,
    Bool.true_and]
  exact LayoutPart.admits_many (by simpa using hdeclared)

theorem conditional_isLaidOut {test consequence alternative : Node}
    (hconsequence : consequence.kind = .block)
    (halternative : alternative.kind = .block ∨ alternative.kind = .conditional ∨
      alternative.kind = .absent) :
    Node.isLaidOut ⟨.conditional, span, [test, consequence, alternative]⟩ = true := by
  simpa [Node.isLaidOut, NodeKind.layout, hconsequence, or_assoc] using halternative

theorem switch_isLaidOut {subject : Node} {cases : List Node}
    (hcases : ∀ node ∈ cases, node.kind.isCase = true) :
    Node.isLaidOut ⟨.switch, span, subject :: cases⟩ = true := by
  rw [Node.isLaidOut, List.map_cons, NodeKind.layout, LayoutPart.admits_any_cons]
  exact LayoutPart.admits_many (by simpa using hcases)

theorem withStatement_isLaidOut {items : List Node} (hitems : ∀ node ∈ items, node.kind = .withItem)
    (hbody : body.kind = .block) :
    Node.isLaidOut ⟨.withStatement, span, items ++ [body]⟩ = true := by
  rw [Node.isLaidOut, List.map_append, List.map_singleton, hbody]
  exact LayoutPart.admits_many_append (by simpa using hitems) rfl

theorem tryStatement_isLaidOut {resources otherwise cleanup : Node} {catches : List Node}
    (hresources : resources.kind = .expressionList) (hbody : body.kind = .block)
    (hcatches : ∀ node ∈ catches, node.kind = .catchClause)
    (hotherwise : otherwise.kind = .elseClause ∨ otherwise.kind = .absent)
    (hcleanup : cleanup.kind = .finallyClause ∨ cleanup.kind = .absent) :
    Node.isLaidOut ⟨.tryStatement, span,
      resources :: body :: (catches ++ [otherwise, cleanup])⟩ = true := by
  rw [Node.isLaidOut, List.map_cons, List.map_cons, List.map_append, hresources, hbody]
  refine LayoutPart.admits_many_append (by simpa using hcatches) ?_
  simp [hotherwise, hcleanup]

section Clauses

variable {s : Setting} {resources otherwise : Node} {catches : List Node}
  (hbody : s.IsBlock t body) (hcatches : ∀ node ∈ catches, s.SuitsAs t (· = .catchClause) node)

include hbody hcatches

theorem clauses_within (hn : s.nested) :
    ((catches.getLast?.map Node.span).getD body.span).endPoint.Within t.span := by
  cases hlast : catches.getLast? with
  | none => exact (hbody.1.within hn).endPoint
  | some last => exact ((hcatches last (List.mem_of_getLast? hlast)).1.within hn).endPoint

/-- The slot of the last clause completes a `try` statement. -/
theorem settled_cleanup (h : Settles s t) {anchor : Span} {clause : Calls → Tree → Option Node}
    (hresources : s.SuitsAs t (· = .expressionList) resources)
    (hotherwise : s.SuitsAs t (fun kind => kind = .elseClause ∨ kind = .absent) otherwise)
    (hclause : ∀ x : Tree, x.IsBelow t → s.Gives (s.SuitsAs x (· = .finallyClause)) (clause · x))
    (hanchor : s.nested → anchor.Within t.span) :
    s.Gives (s.Suits t) fun calls => do
      let cleanup ← slot (clause calls) (t.namedOf "finally_clause").getLast? (Node.absentAt anchor)
      return nodeOf .tryStatement t (resources :: body :: (catches ++ [otherwise, cleanup])) := by
  refine (settled_slot (P := s.SuitsAs t fun kind => kind = .finallyClause ∨ kind = .absent)
    (fun x hx => ?_) ⟨Node.suits_absentAt hanchor, .inr rfl⟩).bind fun cleanup hcleanup => ?_
  · have hx := Tree.isBelow_of_namedOf (List.mem_of_getLast? hx)
    exact (hclause x hx).imp fun _ hnode => ⟨h.widen hx hnode.1, .inl hnode.2⟩
  · refine h.gives (tryStatement_isLaidOut hresources.2 hbody.2
      (fun node hnode => (hcatches node hnode).2) hotherwise.2 hcleanup.2) ?_
    simp only [List.mem_cons, List.mem_append, List.not_mem_nil, or_false]
    rintro node (rfl | rfl | hnode | rfl | rfl)
    · exact hresources.1
    · exact hbody.1
    · exact (hcatches node hnode).1
    · exact hotherwise.1
    · exact hcleanup.1

end Clauses

theorem settled_apply {silent : Prop} {P : Node → Prop} {calls calls' : Calls} {rules : RuleTable}
    {otherwise : Rule}
    (hrules : ∀ entry ∈ rules, entry.1 = t.kind →
      Settled silent P (entry.2 calls t) (entry.2 calls' t))
    (hother : Settled silent P (otherwise calls t) (otherwise calls' t)) :
    Settled silent P (rules.apply otherwise calls t) (rules.apply otherwise calls' t) := by
  rw [RuleTable.apply, RuleTable.apply]
  induction rules with
  | nil => exact hother
  | cons entry rest ih =>
    obtain ⟨kind, rule⟩ := entry
    have hrest := ih fun entry hentry => hrules entry (List.mem_cons_of_mem _ hentry)
    rw [List.lookup_cons]
    split
    · rename_i hkind
      exact hrules (kind, rule) (List.mem_cons_self ..) (beq_iff_eq.1 hkind).symm
    · exact hrest

theorem settled_conditionalOr {s : Setting} {rule conditional : Rule}
    (hrule : t.kind = "if_statement" → ∀ calls, rule calls t = conditional calls t)
    (hconditional : s.Gives (s.SuitsAs t (· = .conditional)) (conditional · t))
    (hother : s.Gives (s.Suits t) (rule · t)) : s.Gives (s.IsStatement t) (rule · t) := by
  by_cases hif : t.kind = "if_statement"
  · simp only [hrule hif]
    exact hconditional.imp fun _ hnode => ⟨hnode.1, fun _ => hnode.2⟩
  · exact hother.imp fun _ hnode => ⟨hnode, fun hkind => absurd hkind hif⟩

/-- Chains of calls that may go as deep as a node settle what is below it, if one more call
settles what may be met there. -/
theorem settles_tie {silent nested : Prop} {step : Calls → Calls} {met : Tree → Prop}
    (hstep : ∀ {bound bound' : Nat} {x : Tree}, met x →
      Settles ⟨silent, nested, tie step bound, tie step bound'⟩ x →
      SettledAt ⟨silent, nested, tie step (bound + 1), tie step (bound' + 1)⟩ x)
    {bound bound' : Nat} (hbound : t.depth ≤ bound + 1) (hbound' : t.depth ≤ bound' + 1)
    (hmet : ∀ x : Tree, x.IsBelow t → met x) (hnested : nested → t.isNested = true) :
    Settles ⟨silent, nested, tie step bound, tie step bound'⟩ t := by
  induction bound generalizing bound' t with
  | zero =>
    refine ⟨hnested, fun {x} hx => ?_⟩
    have hdepth := hx.depth_lt
    have hpos := x.depth_eq
    omega
  | succ bound ih =>
    refine ⟨hnested, fun {x} hx => ?_⟩
    have hdepth := hx.depth_lt
    have hpos := x.depth_eq
    obtain ⟨last, rfl⟩ : ∃ last, bound' = last + 1 := ⟨bound' - 1, by omega⟩
    refine hstep (hmet x hx) (ih (by omega) (by omega) (fun y hy => hmet y (hy.trans hx)) ?_)
    exact fun hn => (hx.isNested_and_within (hnested hn)).1

end CodeEvolution.Lowering
