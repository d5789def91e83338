import CodeEvolution.Proofs.Lowering.Ordered.JavaExpression
import CodeEvolution.Proofs.Lowering.Settled.JavaStatement
/-!
# Java declarations from parts in order

The rules for declarations build tidy nodes. The type of a method is written before its
parameters and follows them in the layout. A constructor of a record that repeats no parameters has
the empty slot of its return type behind its body.
-/
namespace CodeEvolution.Lowering.Java

open Syntax (Tree)
open Node (Row)

variable {calls : Calls} {t x : Tree} {start stop : Nat}

/-! ## Decorators, types and variables -/

section

variable (h : Orders .java calls t)

include h

theorem fits_decoratorArgument (hx : x.IsBelow t) :
    Yields (Fits .java x.span) (decoratorArgument calls x) := by
  unfold decoratorArgument
  split
  · have hx := h.below hx
    exact (hx.onlyField "value" hx.absentAfter).bind fun _ hvalue => yields_node rfl hvalue
  · exact h.expression hx

theorem fits_decorator : Yields (Fits .java t.span) (decorator calls t) := by
  unfold decorator
  cases hlist : t.field? "arguments" with
  | none => exact .answer h.leaf
  | some list =>
    have hbelow := Tree.isBelow_of_field? hlist
    have hwithin := hbelow.isNested_and_within h.isNested
    have harguments := Tree.inOrder_mono (Tree.inOrder_named hwithin.1) hwithin.2.1 hwithin.2.2.2
    refine (row_mapM harguments fun x hx => ?_).bind fun _ hnodes => yields_node rfl hnodes
    exact fits_decoratorArgument h ((Tree.isBelow_of_named hx).trans hbelow)

theorem row_decorators (horder : Tree.inOrder start stop (modifierTrees.select t) = true) :
    Yields (Row .java start stop) (decorators calls t) :=
  row_mapM (Tree.inOrder_sublist List.filter_sublist horder) fun _ hx =>
    fits_decorator (h.below (isBelow_of_modifierList (List.mem_filter.1 hx).1))

end

theorem inOrder_memberTrees (h : t.isNested = true) :
    Tree.inOrder t.span.startOffset t.span.endOffset (memberTrees t) = true := by
  refine Tree.inOrder_flatMap (Tree.inOrder_statements h) fun member hmember => ?_
  have hmember := ((Tree.isBelow_of_statements hmember).isNested_and_within h).1
  split
  · exact Tree.inOrder_statements hmember
  · exact Tree.inOrder_singleton.2 (Tree.within_self hmember)

section

variable (h : Orders .java calls t)

include h

theorem row_typeBody
    (horder : Tree.inOrder start t.span.endOffset ((Path.field "body").select t) = true) :
    YieldsIn .java start t.span.endOffset (typeBody calls (t.field? "body") t.span.endPoint) := by
  cases hbody : t.field? "body" with
  | none =>
    exact .answer (Node.row_leaf .refl (Tree.le_of_inOrder horder) .refl)
  | some body =>
    have hbelow := h.below (Tree.isBelow_of_field? hbody)
    have hbounds := bounds_of_field horder hbody
    refine (row_mapM (inOrder_memberTrees hbelow.isNested) fun x hx =>
      (hbelow.ordersAt (isBelow_of_memberTrees hx)).declaration).bind fun _ hmembers => ?_
    exact .answer (row_of_fits (fits_node rfl hmembers) hbounds.1 hbounds.2.2)

theorem row_parametersOf {name : String}
    (horder : Tree.inOrder start stop ((Path.field name).select t) = true) :
    Yields (Row .java start stop) (parametersOf calls (t.field? name)) := by
  cases hlist : t.field? name with
  | none => exact .answer (Tree.le_of_inOrder horder)
  | some list =>
    have hbounds := bounds_of_field horder hlist
    exact (row_parameters (h.below (Tree.isBelow_of_field? hlist))).imp fun _ hnodes =>
      hnodes.mono hbounds.1 hbounds.2.2

theorem fits_typeDeclaration (sort : TypeSort)
    (hparts : AllParts t typeParts) :
    Yields (Fits .java t.span) (typeDeclaration sort calls t) := by
  obtain ⟨cut, hdecorators, hparts⟩ := hparts.cut
  obtain ⟨cut', hcomponents, hbody⟩ := hparts.cut
  have hcomponents : Yields (Row .java cut cut') (components calls t sort) := by
    cases sort with
    | recordType => exact row_parametersOf h hcomponents
    | _ => exact .answer (Tree.le_of_inOrder hcomponents)
  rw [typeDeclaration_eq]
  refine (row_decorators h hdecorators).bind fun decorators hdecorators => ?_
  refine hcomponents.bind fun components hcomponents => ?_
  refine (row_typeBody h hbody.last).bind fun body hbody => ?_
  exact yields_node rfl ((hdecorators.append hcomponents).append hbody)

theorem fits_declarator : Yields (Fits .java t.span) (declarator calls t) :=
  (h.onlyField "value" h.absentAfter).bind fun _ hvalue =>
    yields_node rfl ((row_absentBefore .refl).append hvalue)

theorem fits_variableDeclaration (hparts : AllParts t variableParts) :
    Yields (Fits .java t.span) (variableDeclaration calls t) := by
  obtain ⟨cut, htype, hdeclarators⟩ := hparts.cut
  refine (h.typeField htype fun _ => row_absentBefore (Tree.le_of_inOrder htype)).bind
    fun type htype => ?_
  refine (row_mapM hdeclarators.last fun x hx =>
    fits_declarator (h.below (Tree.isBelow_of_namedOf hx))).bind fun _ hdeclarators => ?_
  exact yields_node rfl (htype.append hdeclarators)

theorem fits_enumConstant : Yields (Fits .java t.span) (enumConstant calls t) :=
  (row_onlyArguments h "arguments").bind fun _ hnodes => yields_node rfl hnodes

theorem fits_block : Yields (Fits .java t.span) (block calls t) :=
  h.statements.bind fun _ hnodes => yields_node rfl hnodes

end

/-! ## Methods -/

section Written

variable {head : MethodHead} {span : Span} {decorators parameters : List Node} {type body : Node}

theorem isVariable_apart {kind : NodeKind} (h : kind.isVariable = true) :
    kind.isDecorator = false ∧ kind.isTypeRef = false := by
  cases kind with
  | «variable» => exact ⟨rfl, rfl⟩
  | _ => cases h

/-- The type of a method is written between its decorators and its parameters. -/
theorem written_method (hdecorators : ∀ node ∈ decorators, node.kind.isDecorator = true)
    (hparameters : ∀ node ∈ parameters, node.kind.isVariable = true)
    (htype : type.kind.isTypeSlot = true) (hbody : body.kind = .block ∨ body.kind = .absent) :
    Node.written .java ⟨.methodDeclaration head, span, decorators ++ parameters ++ [type, body]⟩ =
      if type.kind.isTypeRef then decorators ++ [type] ++ (parameters ++ [body])
      else decorators ++ (parameters ++ [type, body]) := by
  have hbody : body.kind.isDecorator = false ∧ body.kind.isTypeRef = false := by
    rcases hbody with hbody | hbody <;> simp [hbody, NodeKind.isDecorator, NodeKind.isTypeRef]
  have htype : type.kind.isDecorator = false := by
    rcases Bool.or_eq_true_iff.1 htype with htype | htype
    · refine Bool.eq_false_iff.2 fun hdecorator => ?_
      simp [NodeKind.isDecorator_apart hdecorator] at htype
    · rw [beq_iff_eq.1 htype]
      rfl
  have hfirst : decorators.filter (·.kind.isDecorator) = decorators ∧
      decorators.filter (·.kind.isTypeRef) = [] ∧
      decorators.filter (fun node => !(node.kind.isDecorator || node.kind.isTypeRef)) = [] := by
    refine ⟨List.filter_eq_self.2 hdecorators, List.filter_eq_nil_iff.2 fun node hnode => ?_,
      List.filter_eq_nil_iff.2 fun node hnode => ?_⟩
    · simp [NodeKind.isDecorator_apart (hdecorators node hnode)]
    · simp [hdecorators node hnode]
  have hsecond : parameters.filter (·.kind.isDecorator) = [] ∧
      parameters.filter (·.kind.isTypeRef) = [] ∧
      parameters.filter (fun node => !(node.kind.isDecorator || node.kind.isTypeRef)) =
        parameters := by
    have happart := fun node hnode => isVariable_apart (hparameters node hnode)
    refine ⟨List.filter_eq_nil_iff.2 fun node hnode => ?_,
      List.filter_eq_nil_iff.2 fun node hnode => ?_, List.filter_eq_self.2 fun node hnode => ?_⟩
    · simp [(happart node hnode).1]
    · simp [(happart node hnode).2]
    · simp [happart node hnode]
  simp only [Node.written, List.filter_append, hfirst, hsecond, List.filter_cons, List.filter_nil,
    htype, hbody]
  cases type.kind.isTypeRef <;> simp

end Written

theorem inOrder_parameterEnd {list : Tree} {cut : Nat} (hlist : t.field? "parameters" = some list)
    (h : Tree.inOrder start cut ((Path.field "parameters").select t) = true) :
    Tree.inOrder start (parameterEnd t).endOffset ((Path.field "parameters").select t) = true ∧
      (parameterEnd t).endOffset ≤ cut := by
  rw [select_field hlist, Tree.inOrder_singleton] at h
  rw [select_field hlist, Tree.inOrder_singleton, parameterEnd, hlist]
  exact ⟨⟨h.1, h.2.1, .refl⟩, h.2.2⟩

theorem parameterEnd_isEmpty (t : Tree) :
    (parameterEnd t).startOffset = (parameterEnd t).endOffset := by
  unfold parameterEnd
  split <;> rfl

theorem row_methodBody (h : Orders .java calls t)
    (horder : Tree.inOrder start t.span.endOffset ((Path.field "body").select t) = true) :
    YieldsIn .java start t.span.endOffset (fieldSlot (block calls) t "body" (absentAfter t)) :=
  row_slot horder (fun _ hx => fits_block (h.below (Tree.isBelow_of_field? hx))) fun _ =>
    row_absentAfter (Tree.le_of_inOrder horder)

section Method

variable {head : MethodHead} {decorators parameters : List Node} {type body : Node}
  {first second : Nat} {s : Setting}

theorem fits_methodNode (hkinds : s.AreDecorators t decorators)
    (hdecorators : Row .java t.span.startOffset first decorators)
    (hparameters : s.AreVariables t parameters) (htype : type.kind.isTypeSlot = true)
    (hbodyKind : body.kind = .block ∨ body.kind = .absent)
    (hbody : Row .java second t.span.endOffset [body])
    (hmiddle : Row .java first second
      (if type.kind.isTypeRef then type :: parameters else parameters ++ [type])) :
    Fits .java t.span
      (nodeOf (.methodDeclaration head) t (decorators ++ parameters ++ [type, body])) := by
  refine Node.row_of_written .refl .refl ?_
  rw [written_method (fun node hnode => (hkinds node hnode).2)
    (fun node hnode => (hparameters node hnode).2) htype hbodyKind]
  split
  · rename_i hreturned
    rw [if_pos hreturned] at hmiddle
    simpa using hdecorators.append (hmiddle.append hbody)
  · rename_i hreturned
    rw [if_neg hreturned] at hmiddle
    simpa using hdecorators.append (hmiddle.append hbody)

/-- Without a type and a list of parameters the empty slot of the type stands behind the body. -/
theorem fits_compactNode (h : Orders .java calls t) (hkinds : s.AreDecorators t decorators)
    (hdecorators : Row .java t.span.startOffset first decorators)
    (hbodyKind : body.kind = .block ∨ body.kind = .absent)
    (hbody : Row .java first t.span.endOffset [body]) :
    Fits .java t.span (nodeOf (.methodDeclaration head) t
      (decorators ++ [] ++ [Node.absentAt t.span.endPoint, body])) := by
  have hstop : first ≤ t.span.endOffset := hbody.le
  have hbody := hbody.bounds (List.mem_singleton_self body)
  have habsent := (Row.bounds h.absentAfter (List.mem_singleton_self _)).2.2.2
  refine ⟨.refl, h.le, Node.tidy_of_inOrder ?_ fun child hchild => ?_, .refl⟩
  · rw [Node.InOrder, nodeOf, written_method (fun node hnode => (hkinds node hnode).2) (by simp)
      rfl hbodyKind]
    refine List.pairwise_append.2 ⟨hdecorators.pairwise.imp .inl,
      List.pairwise_pair.2 (Node.le_or_isLate rfl rfl),
      fun decorator hdecorator later hlater => .inl ?_⟩
    have hbefore := (hdecorators.bounds hdecorator).2.2.1
    rcases List.mem_pair.1 hlater with rfl | rfl
    · exact Nat.le_trans hbefore hstop
    · exact Nat.le_trans hbefore hbody.1
  · rcases List.mem_append.1 hchild with hchild | hchild
    · rw [List.append_nil] at hchild
      exact (hdecorators.bounds hchild).2.2.2
    · rcases List.mem_pair.1 hchild with rfl | rfl
      · exact habsent
      · exact hbody.2.2.2

end Method

theorem fits_method (h : Orders .java calls t) (isConstructor : Bool)
    (hparts : AllParts t methodParts) :
    Yields (Fits .java t.span) (method isConstructor calls t) := by
  obtain ⟨first, hdecorators, hparts⟩ := hparts.cut
  obtain ⟨second, htype, hparts⟩ := hparts.cut
  obtain ⟨third, hlist, hbody⟩ := hparts.cut
  have hbody := (settled_methodBody h.settles).and (row_methodBody h hbody.last)
  have hparameters := settled_parametersOf h.settles "parameters"
  rw [method_eq]
  refine ((settled_decorators h.settles).and (row_decorators h hdecorators)).bind
    fun decorators hdecorators => ?_
  cases hreturned : (if isConstructor then none else t.field? "type") with
  | some returned =>
    have hfield : t.field? "type" = some returned := by
      split at hreturned
      · cases hreturned
      · exact hreturned
    have hbelow := Tree.isBelow_of_field? hfield
    have hbounds := bounds_of_field htype hfield
    refine (hparameters.and (row_parametersOf h hlist)).bind fun parameters hparameters => ?_
    refine ((h.settles.settledAt hbelow).typeRef.and (h.ordersAt hbelow).typeRef).bind
      fun type htype => hbody.bind fun body hbody => .answer ?_
    refine fits_methodNode hdecorators.1 hdecorators.2 hparameters.1 ?_ hbody.1.2 hbody.2 ?_
    · exact Bool.or_eq_true_iff.mpr (.inl htype.1.2)
    · rw [if_pos htype.1.2]
      exact (row_of_fits htype.2 hbounds.1 hbounds.2.2).append hparameters.2
  | none =>
    have hlist := Tree.inOrder_mono hlist (Tree.le_of_inOrder htype) .refl
    cases hfield : t.field? "parameters" with
    | some list =>
      obtain ⟨hlist, hend⟩ := inOrder_parameterEnd hfield hlist
      rw [hfield] at hparameters
      have hrow := row_parametersOf h hlist
      rw [hfield] at hrow
      refine (hparameters.and hrow).bind fun parameters hparameters =>
        hbody.bind fun body hbody => .answer ?_
      refine fits_methodNode hdecorators.1 hdecorators.2 hparameters.1 rfl hbody.1.2 hbody.2 ?_
      exact hparameters.2.append (Node.row_absentAt (parameterEnd_isEmpty t)
        (Nat.le_of_eq (parameterEnd_isEmpty t).symm) hend)
    | none =>
      refine hbody.bind fun body hbody => .answer ?_
      rw [parameterEnd, hfield]
      exact fits_compactNode h hdecorators.1 hdecorators.2 hbody.1.2
        (hbody.2.mono (Tree.le_of_inOrder hlist) .refl)

theorem fits_declarationRules (h : Orders .java calls t) : ∀ entry ∈ declarationRules,
    entry.1 = t.kind → Yields (Fits .java t.span) (entry.2 calls t) := by
  have hleaf {kind : NodeKind} : Yields (Fits .java t.span) (some (nodeOf kind t [])) :=
    .answer h.leaf
  simp only [declarationRules, List.forall_mem_cons, List.not_mem_nil, false_implies, implies_true,
    and_true]
  exact ⟨fun _ => hleaf, fun _ => hleaf, fun hkind => fits_typeDeclaration h _ (h.parts hkind rfl),
    fun hkind => fits_typeDeclaration h _ (h.parts hkind rfl),
    fun hkind => fits_typeDeclaration h _ (h.parts hkind rfl),
    fun hkind => fits_typeDeclaration h _ (h.parts hkind rfl),
    fun hkind => fits_typeDeclaration h _ (h.parts hkind rfl),
    fun hkind => fits_variableDeclaration h (h.parts hkind rfl),
    fun hkind => fits_variableDeclaration h (h.parts hkind rfl),
    fun hkind => fits_method h _ (h.parts hkind rfl),
    fun hkind => fits_method h _ (h.parts hkind rfl),
    fun hkind => fits_method h _ (h.parts hkind rfl),
    fun hkind => fits_method h _ (h.parts hkind rfl),
    fun _ => fits_enumConstant h, fun _ => hleaf, fun _ => hleaf⟩

end CodeEvolution.Lowering.Java
