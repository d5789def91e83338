import CodeEvolution.Proofs.Body.Slots
import CodeEvolution.Proofs.Node.Layout
/-!
# Siblings in the order of the source

A layout lists the children of a node by what they are, not by where they are written. Three
layouts differ from the source: the conditional expression of Python and the loop of Java that
tests last have their condition first, and the type of a Java method follows its parameters.
`written` puts the children of a node back into the order of the source.

Some pairs of children are out of order even so, since one of the two does not stand where the
source has it. `strays` lists them: the empty slot of an exception or of a return type that stands
behind all there is, the empty condition of a `for` loop that declares and updates its variable, the
name of an exception inside the list of its types, and a comment before the last label of a `switch`.
-/
namespace CodeEvolution

variable {last : Node}

namespace NodeKind

def isVariableDeclaration : NodeKind → Bool
  | .variableDeclaration _ => true
  | _ => false

/-- Kinds whose layout is not the order of the source, in some language. -/
def isReordered : NodeKind → Bool
  | .ternary => true
  | .whileLoop testLast => testLast
  | .methodDeclaration _ => true
  | _ => false

theorem isDecorator_apart {kind : NodeKind} (h : kind.isDecorator = true) :
    kind.isTypeRef = false := by
  cases kind with
  | decorator => rfl
  | _ => cases h

end NodeKind

namespace Node

def written (language : Language) (node : Node) : List Node :=
  match language, node.kind, node.children with
  | .python, .ternary, [condition, first, second] => [first, condition, second]
  | .java, .whileLoop true, [condition, body, alternative] => [body, condition, alternative]
  | .java, .methodDeclaration _, children =>
    children.filter (·.kind.isDecorator) ++ children.filter (·.kind.isTypeRef) ++
      children.filter fun child => !(child.kind.isDecorator || child.kind.isTypeRef)
  | _, _, children => children

/-- An empty slot at the very end of its parent. -/
def isLate (node child : Node) : Bool :=
  child.kind == .absent && child.span.startOffset == node.span.endOffset

/-- Whether one of two children does not stand where the source has it. -/
def strays (language : Language) (node earlier later : Node) : Bool :=
  match language, node.kind with
  | .python, .throwStatement => node.isLate earlier && !node.isLate later
  | .java, .methodDeclaration _ => node.isLate earlier && !node.isLate later
  | .java, .forLoop .classic =>
    earlier.kind == .absent && later.kind == .expressionList && !later.children.isEmpty &&
      node.children.head?.any fun init => init.children.any (·.kind.isVariableDeclaration)
  | .java, .catchClause => later.kind != .block && later.kind != .absent
  | .java, .caseClause _ => later.children.head?.any fun first =>
    first.kind.isComment && first.span.startOffset < earlier.span.endOffset
  | _, _ => false

/-- Of any two children, taken as the source has them, the first ends before the second starts,
or one of them strays. -/
def InOrder (language : Language) (node : Node) : Prop :=
  (node.written language).Pairwise fun earlier later =>
    earlier.span.endOffset ≤ later.span.startOffset ∨ node.strays language earlier later = true

def Tidy (language : Language) (node : Node) : Prop :=
  node.Everywhere (InOrder language)

variable {language : Language} {node : Node}

theorem le_or_isLate {earlier later : Node} (h : earlier.kind = .absent)
    (hspan : earlier.span = node.span.endPoint) :
    earlier.span.endOffset ≤ later.span.startOffset ∨
      (node.isLate earlier && !node.isLate later) = true := by
  have hearlier : node.isLate earlier = true := by
    simp [isLate, h, hspan, Span.endPoint, Span.emptyAt]
  cases hlater : node.isLate later with
  | false => exact .inr (by simp [hearlier])
  | true =>
    have hstart := beq_iff_eq.1 (Bool.and_eq_true_iff.1 hlater).2
    exact .inl (Nat.le_of_eq (by rw [hstart, hspan]; rfl))

theorem written_perm (language : Language) (node : Node) :
    (node.written language).Perm node.children := by
  unfold written
  split
  · rename_i hchildren
    rw [hchildren]
    exact .swap ..
  · rename_i hchildren
    rw [hchildren]
    exact .swap ..
  · have htypes : (node.children.filter fun child => !child.kind.isDecorator).filter
        (·.kind.isTypeRef) = node.children.filter (·.kind.isTypeRef) := by
      rw [List.filter_filter]
      refine List.filter_congr fun child _ => ?_
      cases hdecorator : child.kind.isDecorator with
      | false => simp
      | true => simp [NodeKind.isDecorator_apart hdecorator]
    have hrest : (node.children.filter fun child => !child.kind.isDecorator).filter
        (fun child => !child.kind.isTypeRef) =
          node.children.filter fun child => !(child.kind.isDecorator || child.kind.isTypeRef) := by
      rw [List.filter_filter]
      simp only [Bool.not_or, Bool.and_comm]
    rw [List.append_assoc, ← htypes, ← hrest]
    exact ((List.filter_append_perm ..).append_left _).trans (List.filter_append_perm ..)
  · exact .refl _

theorem written_eq_children (h : node.kind.isReordered = false) :
    node.written language = node.children := by
  unfold written
  split
  · rename_i hkind _
    rw [hkind] at h
    cases h
  · rename_i hkind _
    rw [hkind] at h
    cases h
  · rename_i hkind
    rw [hkind] at h
    cases h
  · rfl

/-! ## Rows -/

/-- Tidy nodes between two offsets, one after the other. -/
def Row (language : Language) (start stop : Nat) : List Node → Prop
  | [] => start ≤ stop
  | node :: rest =>
    start ≤ node.span.startOffset ∧ node.span.startOffset ≤ node.span.endOffset ∧
      node.Tidy language ∧ Row language node.span.endOffset stop rest

variable {start stop cut start' stop' : Nat} {nodes others : List Node} {kind : NodeKind}
  {span : Span} {children : List Node}

theorem Row.le (h : Row language start stop nodes) : start ≤ stop := by
  induction nodes generalizing start with
  | nil => exact h
  | cons node rest ih =>
    have := ih h.2.2.2
    have := h.1
    have := h.2.1
    omega

theorem Row.mono (h : Row language start stop nodes) (hstart : start' ≤ start)
    (hstop : stop ≤ stop') : Row language start' stop' nodes := by
  induction nodes generalizing start start' with
  | nil =>
    have hle : start ≤ stop := h
    show start' ≤ stop'
    omega
  | cons node rest ih =>
    exact ⟨Nat.le_trans hstart h.1, h.2.1, h.2.2.1, ih h.2.2.2 .refl⟩

theorem Row.append (h : Row language start cut nodes) (h' : Row language cut stop others) :
    Row language start stop (nodes ++ others) := by
  induction nodes generalizing start with
  | nil => exact h'.mono h .refl
  | cons node rest ih => exact ⟨h.1, h.2.1, h.2.2.1, ih h.2.2.2⟩

theorem Row.bounds (h : Row language start stop nodes) (hnode : node ∈ nodes) :
    start ≤ node.span.startOffset ∧ node.span.startOffset ≤ node.span.endOffset ∧
      node.span.endOffset ≤ stop ∧ node.Tidy language := by
  induction nodes generalizing start with
  | nil => cases hnode
  | cons first rest ih =>
    cases hnode with
    | head => exact ⟨h.1, h.2.1, h.2.2.2.le, h.2.2.1⟩
    | tail _ hnode =>
      obtain ⟨hstart, hbounds⟩ := ih h.2.2.2 hnode
      exact ⟨Nat.le_trans h.1 (Nat.le_trans h.2.1 hstart), hbounds⟩

theorem Row.pairwise (h : Row language start stop nodes) :
    nodes.Pairwise fun earlier later => earlier.span.endOffset ≤ later.span.startOffset := by
  induction nodes generalizing start with
  | nil => exact .nil
  | cons node rest ih => exact .cons (fun later hlater => (h.2.2.2.bounds hlater).1) (ih h.2.2.2)

theorem Row.upToLast (h : Row language start stop nodes) (hlast : nodes.getLast? = some last) :
    Row language start last.span.endOffset nodes := by
  induction nodes generalizing start with
  | nil => cases hlast
  | cons node rest ih =>
    cases rest with
    | nil =>
      cases hlast
      exact ⟨h.1, h.2.1, h.2.2.1, .refl⟩
    | cons second rest => exact ⟨h.1, h.2.1, h.2.2.1, ih h.2.2.2 (by simpa using hlast)⟩

theorem Row.tight (h : Row language start stop nodes) {first : Node}
    (hfirst : nodes.head? = some first) (hlast : nodes.getLast? = some last) :
    Row language first.span.startOffset last.span.endOffset nodes := by
  obtain ⟨rest, rfl⟩ := List.head?_eq_some_iff.1 hfirst
  have hrow := h.upToLast hlast
  exact ⟨.refl, hrow.2⟩

/-! ## Single nodes -/

theorem tidy_of_inOrder (h : node.InOrder language)
    (hchildren : ∀ child ∈ node.children, child.Tidy language) : node.Tidy language :=
  everywhere_iff.2 ⟨h, hchildren⟩

theorem tidy_of_row (h : Row language start stop (node.written language)) :
    node.Tidy language :=
  tidy_of_inOrder (h.pairwise.imp .inl) fun _ hchild =>
    (h.bounds ((written_perm ..).mem_iff.2 hchild)).2.2.2

theorem row_of_written (hstart : start ≤ span.startOffset) (hstop : span.endOffset ≤ stop)
    (h : Row language span.startOffset span.endOffset (written language ⟨kind, span, children⟩)) :
    Row language start stop [⟨kind, span, children⟩] :=
  ⟨hstart, h.le, tidy_of_row h, hstop⟩

theorem row_of_children (hkind : kind.isReordered = false) (hstart : start ≤ span.startOffset)
    (hstop : span.endOffset ≤ stop)
    (h : Row language span.startOffset span.endOffset children) :
    Row language start stop [⟨kind, span, children⟩] := by
  refine row_of_written hstart hstop ?_
  rwa [written_eq_children hkind]

theorem row_leaf (hspan : span.startOffset ≤ span.endOffset) (hstart : start ≤ span.startOffset)
    (hstop : span.endOffset ≤ stop) : Row language start stop [leaf kind span] := by
  have hwritten : ∀ child, child ∉ written language (leaf kind span) := fun child hchild => by
    simpa [leaf] using (written_perm ..).mem_iff.1 hchild
  have hrow : Row language 0 0 (written language (leaf kind span)) := by
    rw [List.eq_nil_iff_forall_not_mem.2 hwritten]
    exact .refl
  exact ⟨hstart, hspan, tidy_of_row hrow, hstop⟩

theorem row_absentAt (hspan : span.startOffset = span.endOffset)
    (hstart : start ≤ span.startOffset) (hstop : span.endOffset ≤ stop) :
    Row language start stop [absentAt span] :=
  row_leaf (Nat.le_of_eq hspan) hstart hstop

theorem Row.absentAfter (h : Row language start stop nodes) (hlast : nodes.getLast? = some last) :
    Row language start stop (nodes ++ [absentAt last.span.endPoint]) :=
  (h.upToLast hlast).append (row_absentAt rfl .refl
    (h.bounds (List.mem_of_getLast? hlast)).2.2.1)

theorem Row.leafBefore (h : Row language start stop (node :: nodes)) :
    Row language start stop (leaf kind node.span.startPoint :: node :: nodes) := by
  have hleaf : Row language start node.span.startOffset [leaf kind node.span.startPoint] :=
    row_leaf .refl h.1 .refl
  have hrest : Row language node.span.startOffset stop (node :: nodes) := ⟨.refl, h.2⟩
  exact hleaf.append hrest

end Node

end CodeEvolution
