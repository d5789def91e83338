import CodeEvolution.Lowering.Java.Declaration
import CodeEvolution.Proofs.Lowering.JavaExpression
/-!
# What the rules for Java declarations read

The reading of every rule for packages, imports, types and their members, and the proof that the
rule agrees with it. Texts are taken over for names, supertypes, packages and imports. Modifier
lists and lists of supertypes pass over comments.
-/
namespace CodeEvolution.Lowering.Java

open Syntax (Tree Deletion)
open Lowering.Path
open Lowering.Reading (within onKind offKind takes_cases)
open Lowering.Agreement (meets_cons meets_append fieldText_eq option_map_text_eq map_text_eq
  flatMap_eq)

variable {x y : Option Tree} {k : Agreement commentKinds} {d : Deletion commentKinds} {s t : Tree}
  (isConstructor : Bool)

/-! ## Modifiers and decorators -/

def decoratorArgumentReading : Reading :=
  onKind ["element_value_pair"] [(field "value", .expression), (field "key", .text)] ++
  offKind ["element_value_pair"] [(here, .expression)]

instance : decoratorArgumentReading.Takes commentKinds := takes_cases (by decide) rfl

theorem rel_decoratorArgument (h : k.Meets decoratorArgumentReading s t) :
    k.Answers k.Nodes (decoratorArgument k.calls s) (decoratorArgument k.calls' t) := by
  obtain ⟨hpair, hvalue⟩ := meets_append.1 h
  rw [decoratorArgument, decoratorArgument, ← h.kind_eq]
  split
  · rename_i hkind
    have h := hpair.of_onKind (by simpa using hkind)
    simp only [meets_cons] at h
    refine k.bind (k.expressionSlot h.1) fun _ _ hvalue => ?_
    rw [fieldText_eq h.2.1]
    exact k.unary hvalue
  · rename_i hkind
    exact hvalue.here_of_offKind (by simpa using hkind)

def decoratorReading : Reading :=
  (field "name", .text) :: within (field "arguments") (within named decoratorArgumentReading)

theorem rel_decorator (h : k.Meets decoratorReading s t) :
    k.Answers k.Nodes (decorator k.calls s) (decorator k.calls' t) := by
  obtain ⟨hname, harguments⟩ := meets_cons.1 h
  have hlist := rel_toList_iff.1 harguments.of_within
  rw [decorator, decorator, fieldText_eq hname]
  generalize s.field? "arguments" = x at hlist
  generalize t.field? "arguments" = y at hlist
  cases hlist with
  | none => exact k.answers .nil
  | some hcd =>
    exact k.bind (k.mapM (hcd.of_within.imp fun _ _ hcd => rel_decoratorArgument hcd))
      fun _ _ harguments => k.answers harguments

theorem rel_modifierList (hst : s.Reformats t) :
    List.Forall₂ Tree.Reformats (modifierList s) (modifierList t) := by
  have hlist : Option.Rel Tree.Reformats
      (s.children.find? fun child => child.kind == "modifiers")
      (t.children.find? fun child => child.kind == "modifiers") :=
    rel_find? hst.children fun c d hcd => by rw [hcd.kind_eq]
  rw [modifierList, modifierList]
  generalize s.children.find? (fun child => child.kind == "modifiers") = x at hlist
  generalize t.children.find? (fun child => child.kind == "modifiers") = y at hlist
  cases hlist with
  | none => exact .nil
  | some hcd => exact hcd.children

def modifierTrees : Path :=
  ⟨modifierList, rel_modifierList⟩

instance : modifierTrees.Lists commentKinds := by
  refine ⟨fun d t => ?_⟩
  have hlist : (t.without d).children.find? (fun child => child.kind == "modifiers") =
      (t.children.find? fun child => child.kind == "modifiers").map (Tree.without d) := by
    rw [Tree.without_children, Tree.find?_without (by simp)]
    intro x hx
    have hkind : x.kind = "modifiers" := by simpa using List.find?_some (Option.mem_def.1 hx)
    exact d.keeps_of_kind (by rw [hkind]; rfl)
  show modifierList (t.without d) = ((modifierList t).filter d.keeps).map (Tree.without d)
  rw [modifierList, modifierList, hlist]
  cases t.children.find? (fun child => child.kind == "modifiers") with
  | none => rfl
  | some list => exact Tree.without_children d list

theorem foldl_addModifier_without (trees : List Tree) (modifiers : Modifiers) :
    ((trees.filter d.keeps).map (Tree.without d)).foldl addModifier modifiers =
      trees.foldl addModifier modifiers := by
  induction trees generalizing modifiers with
  | nil => rfl
  | cons x rest ih =>
    rw [List.filter_cons, List.foldl_cons]
    rcases d.keeps_or_drops x with hx | hx
    · have hadd : addModifier modifiers (x.without d) = addModifier modifiers x := by
        rw [addModifier, addModifier, Tree.without_kind]
      rw [if_pos hx, List.map_cons, List.foldl_cons, hadd, ih]
    · have hadd : addModifier modifiers x = modifiers := by
        rcases kind_of_isCommentOf (d.isComment hx) with hkind | hkind <;> simp [addModifier, hkind]
      rw [if_neg (by simp [Deletion.keeps, hx]), hadd, ih]

theorem modifiers_eq (h : k.Meets [] s t) : modifiers s = modifiers t := by
  obtain hst | ⟨d, rfl⟩ := k.change h
  · refine List.rel_foldl (P := Eq) ?_ rfl (rel_modifierList hst)
    rintro m _ rfl c d hcd
    rw [addModifier, addModifier, hcd.kind_eq]
  · have hlist : modifierList (s.without d) =
        ((modifierList s).filter d.keeps).map (Tree.without d) :=
      (inferInstance : modifierTrees.Lists commentKinds).leads d s
    rw [modifiers, modifiers, hlist, foldl_addModifier_without]

instance : (modifierTrees.having fun kind =>
    kind == "annotation" || kind == "marker_annotation").Skips commentKinds :=
  skips_having (by decide)

def decoratorsReading : Reading :=
  within (modifierTrees.having fun kind => kind == "annotation" || kind == "marker_annotation")
    decoratorReading

theorem rel_decorators (h : k.Meets decoratorsReading s t) :
    k.Answers (List.Forall₂ k.Nodes) (decorators k.calls s) (decorators k.calls' t) :=
  k.mapM (h.of_within.imp fun _ _ hcd => rel_decorator hcd)

/-! ## Declarations -/

def packageReading : Reading :=
  [((named.having fun kind => kind != "annotation" && kind != "marker_annotation").first, .text)]

theorem agrees_packageDeclaration : Agrees packageDeclaration packageReading := by
  intro k s t h
  simp only [packageReading, meets_cons, select_first_having] at h
  have hname := option_map_text_eq h.1
  refine k.answer (k.of_kind_eq ?_ .nil)
  exact congrArg (fun name => NodeKind.other "package" (Option.getD name "")) hname

def importReading : Reading :=
  [((named.having fun kind => kind == "scoped_identifier" || kind == "identifier").first, .text)]

theorem hasAsterisk_eq (h : k.Meets [] s t) :
    (s.children.any fun child => child.kind == "asterisk") =
      t.children.any fun child => child.kind == "asterisk" := by
  obtain hst | ⟨d, rfl⟩ := k.change h
  · exact any_eq_of_rel hst.children fun _ _ hcd => by rw [hcd.kind_eq]
  · rw [Tree.without_children, Tree.any_without (by simp)]
    intro x hx
    rcases kind_of_isCommentOf (d.isComment hx) with hkind | hkind <;> rw [hkind] <;> rfl

theorem agrees_importing : Agrees importing importReading := by
  intro k s t h
  simp only [importReading, meets_cons, select_first_having] at h
  have hpath : (s.named.find? fun child =>
        child.kind == "scoped_identifier" || child.kind == "identifier").map Tree.text =
      (t.named.find? fun child =>
        child.kind == "scoped_identifier" || child.kind == "identifier").map Tree.text :=
    option_map_text_eq h.1
  have hwildcard := hasAsterisk_eq h.2
  unfold importing
  dsimp only
  rw [hpath, hwildcard, h.2.hasToken_eq]
  exact k.answers .nil

def supertypeReading : Reading :=
  onKind ["superclass"] [(named, .collapsed)] ++
  onKind ["super_interfaces", "extends_interfaces"] [(named / named, .collapsed)]

theorem supertypesIn_eq (h : k.Meets supertypeReading s t) : supertypesIn s = supertypesIn t := by
  obtain ⟨hclass, hinterfaces⟩ := meets_append.1 h
  have hlists (hkind : s.kind = "super_interfaces" ∨ s.kind = "extends_interfaces") :
      (s.named.flatMap fun list => list.named.map Tree.collapsed) =
        t.named.flatMap fun list => list.named.map Tree.collapsed := by
    have h : k.Meets (within named [(named, .collapsed)]) s t :=
      hinterfaces.of_onKind (by simpa using hkind)
    refine flatMap_eq h (fun _ _ hcd => map_text_eq (meets_cons.1 hcd).1) fun list hlist => ?_
    rw [Tree.named, Tree.children_of_isCommentOf hlist]
    rfl
  rw [supertypesIn, supertypesIn, ← h.kind_eq]
  split
  case h_1 hkind =>
    have h := hclass.of_onKind (by simp [hkind])
    simp only [meets_cons] at h
    exact map_text_eq h.1
  case h_2 hkind => exact hlists (.inl hkind)
  case h_3 hkind => exact hlists (.inr hkind)
  case h_4 => rfl

theorem supertypesIn_of_comment (h : t.isCommentOf commentKinds = true) : supertypesIn t = [] := by
  rcases kind_of_isCommentOf h with hkind | hkind <;> simp [supertypesIn, hkind]

theorem rel_memberTrees (hst : s.Reformats t) :
    List.Forall₂ Tree.Reformats (memberTrees s) (memberTrees t) := by
  refine List.rel_flatMap hst.statements fun c d hcd => ?_
  rw [hcd.kind_eq]
  split
  · exact hcd.statements
  · exact .cons hcd .nil

instance : Path.Lists commentKinds ⟨memberTrees, rel_memberTrees⟩ := by
  refine ⟨fun d t => ?_⟩
  simp only [memberTrees, Tree.without_statements, List.filter_flatMap, List.map_flatMap]
  refine Tree.flatMap_without (fun member _ hkeeps => ?_) fun member _ hdrops => ?_
  · rw [Tree.without_kind, Tree.without_statements]
    split
    · rfl
    · simp [hkeeps]
  · rcases kind_of_isCommentOf (d.isComment hdrops) with hkind | hkind <;>
      simp [hkind, Deletion.keeps, hdrops]

def typeBodyReading : Reading :=
  [(⟨memberTrees, rel_memberTrees⟩, .declaration)]

theorem rel_typeBody {a b : Span} (h : List.Forall₂ (k.Meets typeBodyReading) x.toList y.toList) :
    k.Answers k.Nodes (typeBody k.calls x a) (typeBody k.calls' y b) := by
  cases rel_toList_iff.1 h with
  | none => exact k.answer k.leaf
  | some hcd => exact k.statements rfl rfl hcd

def componentsReading : TypeSort → Reading
  | .recordType => within (field "parameters") parametersReading
  | _ => []

def typeDeclarationReading (sort : TypeSort) : Reading :=
  decoratorsReading ++ componentsReading sort ++ within (field "body") typeBodyReading ++
  [(field "name", .text)] ++ within named supertypeReading

def parametersOf (calls : Calls) : Option Tree → Option (List Node)
  | some list => parameters calls list
  | none => some []

theorem rel_parametersOf (h : List.Forall₂ (k.Meets parametersReading) x.toList y.toList) :
    k.Answers (List.Forall₂ k.Nodes) (parametersOf k.calls x) (parametersOf k.calls' y) := by
  cases rel_toList_iff.1 h with
  | none => exact k.answer .nil
  | some hcd => exact rel_parameters hcd

def components (calls : Calls) (tree : Tree) : TypeSort → Option (List Node)
  | .recordType => parametersOf calls (tree.field? "parameters")
  | _ => some []

theorem typeDeclaration_eq (sort : TypeSort) (calls : Calls) (tree : Tree) :
    typeDeclaration sort calls tree = do
      let decorators ← decorators calls tree
      let components ← components calls tree sort
      let body ← typeBody calls (tree.field? "body") tree.span.endPoint
      let head : TypeHead :=
        ⟨tree.fieldText "name", sort, modifiers tree, tree.named.flatMap supertypesIn, []⟩
      return nodeOf (.typeDeclaration head) tree (decorators ++ components ++ [body]) := by
  unfold typeDeclaration
  cases sort <;> simp only [components, parametersOf] <;> cases tree.field? "parameters" <;> rfl

theorem rel_components {sort : TypeSort} (h : k.Meets (componentsReading sort) s t) :
    k.Answers (List.Forall₂ k.Nodes) (components k.calls s sort) (components k.calls' t sort) := by
  cases sort with
  | recordType => exact rel_parametersOf (Agreement.Meets.of_within h)
  | _ => exact k.answer .nil

theorem agrees_typeDeclaration (sort : TypeSort) :
    Agrees (typeDeclaration sort) (typeDeclarationReading sort) := by
  intro k s t h
  simp only [typeDeclarationReading, meets_append, meets_cons] at h
  obtain ⟨⟨⟨⟨hdecorators, hcomponents⟩, hbody⟩, hname, hst⟩, hsupertypes⟩ := h
  have hsupertypes : s.named.flatMap supertypesIn = t.named.flatMap supertypesIn :=
    flatMap_eq hsupertypes (fun _ _ hcd => supertypesIn_eq hcd) fun _ => supertypesIn_of_comment
  rw [typeDeclaration_eq, typeDeclaration_eq]
  refine k.bind (rel_decorators hdecorators) fun _ _ hdecorators => ?_
  refine k.bind (rel_components hcomponents) fun _ _ hcomponents => ?_
  refine k.bind (rel_typeBody hbody.of_within) fun _ _ hbody => ?_
  rw [fieldText_eq hname, modifiers_eq hst, hsupertypes]
  exact k.answer (k.node
    (List.rel_append (List.rel_append hdecorators hcomponents) (.cons hbody .nil)))

def blockReading : Reading :=
  [(Path.statements, .statement)]

theorem agrees_block : Agrees block blockReading :=
  fun k _ _ h => k.statements rfl rfl h

theorem rel_blockSlot {m n : Node} (h : List.Forall₂ (k.Meets blockReading) x.toList y.toList)
    (hmn : k.Nodes m n) :
    k.Answers k.Nodes (slot (block k.calls) x m) (slot (block k.calls') y n) :=
  k.slot (rel_toList_iff.1 (h.imp fun c d hcd => agrees_block k c d hcd)) hmn

def returnReading : Bool → Reading
  | true => []
  | false => [(field "type", .typeRef)]

def methodReading (isConstructor : Bool) : Reading :=
  decoratorsReading ++ within (field "parameters") parametersReading ++
  returnReading isConstructor ++ within (field "body") blockReading ++ [(field "name", .text)]

/-- The end of the parameter list of a method, where a missing return type is put. -/
def parameterEnd (tree : Tree) : Span :=
  match tree.field? "parameters" with
  | some list => list.span.endPoint
  | none => tree.span.endPoint

theorem method_eq (calls : Calls) (tree : Tree) :
    method isConstructor calls tree = do
      let decorators ← decorators calls tree
      let parameters ← parametersOf calls (tree.field? "parameters")
      let returnType ← slot calls.typeRef (if isConstructor then none else tree.field? "type")
        (Node.absentAt (parameterEnd tree))
      let body ← fieldSlot (block calls) tree "body" (absentAfter tree)
      let head : MethodHead := ⟨tree.fieldText "name", modifiers tree, isConstructor, false⟩
      return nodeOf (.methodDeclaration head) tree
        (decorators ++ parameters ++ [returnType, body]) := by
  unfold method
  simp only [parametersOf, parameterEnd]
  cases tree.field? "parameters" <;> rfl

theorem rel_returned {isConstructor : Bool} (h : k.Meets (returnReading isConstructor) s t) :
    List.Forall₂ (k.Uses .typeRef) (if isConstructor then none else s.field? "type").toList
      (if isConstructor then none else t.field? "type").toList := by
  cases isConstructor with
  | true => exact .nil
  | false => exact (meets_cons.1 h).1

theorem agrees_method : Agrees (method isConstructor) (methodReading isConstructor) := by
  intro k s t h
  simp only [methodReading, meets_append, meets_cons] at h
  obtain ⟨⟨⟨⟨hdecorators, hparameters⟩, hreturn⟩, hbody⟩, hname, hst⟩ := h
  rw [method_eq, method_eq]
  refine k.bind (rel_decorators hdecorators) fun _ _ hdecorators => ?_
  refine k.bind (rel_parametersOf hparameters.of_within) fun _ _ hparameters => ?_
  refine k.bind (k.typeSlot (rel_returned hreturn)) fun _ _ hreturn => ?_
  refine k.bind (rel_blockSlot hbody.of_within k.leaf) fun _ _ hbody => ?_
  rw [fieldText_eq hname, modifiers_eq hst]
  exact k.answers (List.rel_append (List.rel_append hdecorators hparameters)
    (.cons hreturn (.cons hbody .nil)))

def declaratorReading : Reading :=
  [(field "value", .expression), (field "name", .text)]

theorem rel_declarator (h : k.Meets declaratorReading s t) :
    k.Answers k.Nodes (declarator k.calls s) (declarator k.calls' t) := by
  simp only [declaratorReading, meets_cons] at h
  refine k.bind (k.expressionSlot h.1) fun _ _ hvalue => ?_
  rw [fieldText_eq h.2.1]
  exact k.binary k.leaf hvalue

def variableReading : Reading :=
  (field "type", .typeRef) :: within (namedOf "variable_declarator") declaratorReading

theorem agrees_variableDeclaration : Agrees variableDeclaration variableReading := by
  intro k s t h
  obtain ⟨htype, hdeclarators⟩ := meets_cons.1 h
  refine k.bind (k.typeSlot htype) fun _ _ htype => ?_
  refine k.bind (k.mapM (hdeclarators.of_within.imp fun _ _ hcd => rel_declarator hcd))
    fun _ _ hdeclarators => ?_
  rw [modifiers_eq h.nil]
  exact k.answers (.cons htype hdeclarators)

def constantReading : Reading :=
  (field "name", .text) :: within (field "arguments") argumentsReading

theorem agrees_enumConstant : Agrees enumConstant constantReading := by
  intro k s t h
  obtain ⟨hname, harguments⟩ := meets_cons.1 h
  refine k.bind (rel_argumentsOf harguments.of_within) fun _ _ harguments => ?_
  rw [fieldText_eq hname]
  exact k.answers harguments

def declarationReadings : List (String × Reading) := [
  ("package_declaration", packageReading),
  ("import_declaration", importReading),
  ("class_declaration", typeDeclarationReading .classType),
  ("interface_declaration", typeDeclarationReading .interfaceType),
  ("enum_declaration", typeDeclarationReading .enumType),
  ("record_declaration", typeDeclarationReading .recordType),
  ("annotation_type_declaration", typeDeclarationReading .decoratorType),
  ("field_declaration", variableReading),
  ("constant_declaration", variableReading),
  ("method_declaration", methodReading false),
  ("annotation_type_element_declaration", methodReading false),
  ("constructor_declaration", methodReading true),
  ("compact_constructor_declaration", methodReading true),
  ("enum_constant", constantReading),
  ("line_comment", textReading),
  ("block_comment", textReading)]

theorem agrees_declarationRules :
    List.Forall₂ (fun rule reading => rule.1 = reading.1 ∧ Agrees rule.2 reading.2)
      declarationRules declarationReadings := by
  simp only [declarationRules, declarationReadings, List.forall₂_cons, List.forall₂_nil_left_iff,
    and_true, agrees_packageDeclaration, agrees_importing, agrees_typeDeclaration,
    agrees_variableDeclaration, agrees_method, agrees_enumConstant, agrees_commentNode]

end CodeEvolution.Lowering.Java
