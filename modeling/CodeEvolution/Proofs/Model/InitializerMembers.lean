import CodeEvolution.Proofs.Body.Members
/-!
# The members that an initializer gives to its class

The initializer of a class is read twice: for the attributes of the class, which are taken from all
its assignments, and for the variables of its body, which come from its plain assignments alone.
The first reading opens only the outermost collection of a target and does not ask for the
operator. Both are described here by the assignments of the initializer, and agree where every
assignment that names something new names the same members either way.
-/
namespace CodeEvolution

variable {a : Attribute} {traits : ClassTraits} (attributes : List Attribute) {c : ModelClass}
  {className : String} {classSpan : Span} (added : List Attribute)

namespace Node

/-- The members that an assignment is made to, whatever its operator, with only the outermost
collection opened. -/
def directMembers (receiver : String) (assignment : Node) : List String :=
  (assignment.child? 0).toList.flatMap fun target =>
    target.directTargets.filterMap (memberName? receiver)

/-- Given some names, an assignment names the same members either way, or none that is new. -/
def ReadsAlike (receiver : String) (given : List String) (assignment : Node) : Prop :=
  assignment.directMembers receiver = assignment.plainMembers receiver ∨
    ∀ name ∈ assignment.directMembers receiver ++ assignment.plainMembers receiver, name ∈ given

/-- Assignments read alike one after the other, from some given names on. -/
def ReadAlike (receiver : String) : List String → List Node → Prop
  | _, [] => True
  | given, assignment :: rest =>
    assignment.ReadsAlike receiver given ∧
      ReadAlike receiver (given ++ assignment.plainMembers receiver) rest

instance decidableReadsAlike (receiver : String) (given : List String) (assignment : Node) :
    Decidable (assignment.ReadsAlike receiver given) :=
  inferInstanceAs (Decidable (_ ∨ _))

instance decidableReadAlike (receiver : String) :
    (given : List String) → (assignments : List Node) →
      Decidable (ReadAlike receiver given assignments)
  | _, [] => inferInstanceAs (Decidable True)
  | given, assignment :: rest =>
    have := decidableReadAlike receiver (given ++ assignment.plainMembers receiver) rest
    inferInstanceAs (Decidable (_ ∧ _))

theorem foldl_eq_of_readAlike {receiver : String} {given seen : List String}
    {assignments : List Node} (h : ReadAlike receiver given assignments)
    (hgiven : ∀ name ∈ given, name ∈ seen) :
    (assignments.flatMap (directMembers receiver)).foldl appendNew seen =
      (assignments.flatMap (plainMembers receiver)).foldl appendNew seen := by
  induction assignments generalizing given seen with
  | nil => rfl
  | cons assignment rest ih =>
    obtain ⟨halike, hrest⟩ := h
    have hstep : (assignment.directMembers receiver).foldl appendNew seen =
        (assignment.plainMembers receiver).foldl appendNew seen := by
      rcases halike with hsame | hold
      · rw [hsame]
      · rw [foldl_appendNew_of_seen fun name hname =>
            hgiven name (hold name (List.mem_append_left _ hname)),
          foldl_appendNew_of_seen fun name hname =>
            hgiven name (hold name (List.mem_append_right _ hname))]
    rw [List.flatMap_cons, List.flatMap_cons, List.foldl_append, List.foldl_append, hstep]
    refine ih hrest fun name hname => mem_foldl_appendNew.mpr ?_
    exact (List.mem_append.mp hname).imp_left (hgiven name)

end Node

/-! ## Attributes of a class -/

namespace Attribute

variable {file : FileContext} {className : String} {classSpan : Span}

theorem ofInitializerAssignment_names (operation receiver : String) (assignment : Node) :
    (ofInitializerAssignment file className classSpan operation receiver assignment).map name =
      assignment.directMembers receiver := by
  unfold ofInitializerAssignment Node.directMembers
  cases assignment.child? 0 with
  | none => rfl
  | some target =>
    rw [Option.toList_some, List.flatMap_singleton, List.map_filterMap]
    refine List.filterMap_congr fun other _ => ?_
    unfold Node.memberName?
    cases other.kind
    case fieldAccess =>
      dsimp only
      split <;> rfl
    all_goals rfl

theorem ofInitializerAssignment_operation {operation receiver : String} {assignment : Node}
    (h : a ∈ ofInitializerAssignment file className classSpan operation receiver assignment) :
    a.declaringOperation = some operation := by
  unfold ofInitializerAssignment at h
  split at h
  · exact absurd h List.not_mem_nil
  · obtain ⟨target, -, ha⟩ := List.mem_filterMap.mp h
    split at ha
    · split at ha
      · rw [← Option.some.inj ha]
      · cases ha
    · cases ha

theorem addNew_names (a : Attribute) :
    (addNew attributes a).map name = appendNew (attributes.map name) a.name := by
  have hany : (attributes.any fun b => b.name == a.name) =
      (attributes.map name).contains a.name := by
    rw [Bool.eq_iff_iff, List.any_eq_true, List.contains_iff_mem, List.mem_map]
    simp only [beq_iff_eq]
  rw [addNew, appendNew, hany]
  split
  · rfl
  · rw [List.map_append, List.map_singleton]

theorem foldl_addNew_names :
    (added.foldl addNew attributes).map name =
      (added.map name).foldl appendNew (attributes.map name) := by
  induction added generalizing attributes with
  | nil => rfl
  | cons a rest ih => rw [List.foldl_cons, ih, addNew_names, List.map_cons, List.foldl_cons]

theorem foldl_addNew_grows :
    ∃ new, added.foldl addNew attributes = attributes ++ new ∧ ∀ a ∈ new, a ∈ added := by
  induction added generalizing attributes with
  | nil => exact ⟨[], by simp, by simp⟩
  | cons a rest ih =>
    obtain ⟨new, hnew, hmem⟩ := ih (addNew attributes a)
    rw [List.foldl_cons, hnew, addNew]
    split
    · exact ⟨new, rfl, fun b hb => List.mem_cons_of_mem _ (hmem b hb)⟩
    · refine ⟨a :: new, by rw [List.append_assoc, List.singleton_append], ?_⟩
      exact List.forall_mem_cons.mpr
        ⟨List.mem_cons_self, fun b hb => List.mem_cons_of_mem _ (hmem b hb)⟩

def IsOfClass (a : Attribute) : Prop :=
  a.declaringOperation = none

theorem ofClassAssignment?_isOfClass {assignment : Node}
    (h : ofClassAssignment? file className classSpan traits assignment = some a) : a.IsOfClass := by
  unfold ofClassAssignment? at h
  split at h
  · cases h
  · split at h
    · rw [← Option.some.inj h]
      rfl
    · split at h
      · split at h
        · rw [← Option.some.inj h]
          rfl
        · cases h
      · cases h
    · cases h

theorem afterMember_isOfClass {typeName : String} {attributes : List Attribute}
    (h : ∀ a ∈ attributes, a.IsOfClass) (member : Node) :
    ∀ a ∈ afterMember file className classSpan traits typeName attributes member,
      a.IsOfClass := by
  intro a ha
  unfold afterMember at ha
  split at ha
  · rcases List.mem_append.mp ha with ha | ha
    · exact h a ha
    · obtain ⟨declarator, -, hdeclarator⟩ := List.mem_filterMap.mp ha
      split at hdeclarator
      · rw [← Option.some.inj hdeclarator]
        rfl
      · cases hdeclarator
  · rcases List.mem_append.mp ha with ha | ha
    · exact h a ha
    · rw [List.mem_singleton.mp ha]
      rfl
  · split at ha
    · rename_i assigned hassigned
      unfold addNew at ha
      split at ha
      · exact h a ha
      · rcases List.mem_append.mp ha with ha | ha
        · exact h a ha
        · rw [List.mem_singleton.mp ha]
          exact ofClassAssignment?_isOfClass hassigned
    · exact h a ha
  · exact h a ha

theorem ofComponent?_isOfClass {component : Node}
    (h : ofComponent? file className classSpan component = some a) : a.IsOfClass := by
  unfold ofComponent? at h
  split at h
  · rw [← Option.some.inj h]
    rfl
  · cases h

theorem foldl_afterMember_isOfClass {typeName : String} {attributes : List Attribute}
    (h : ∀ a ∈ attributes, a.IsOfClass) (members : List Node) :
    ∀ a ∈ members.foldl (afterMember file className classSpan traits typeName) attributes,
      a.IsOfClass := by
  induction members generalizing attributes with
  | nil => exact h
  | cons member rest ih => exact ih (afterMember_isOfClass h member)

end Attribute

namespace ModelClass

def declaredNames (c : ModelClass) : List String :=
  (c.attributes.filter fun a => a.declaringOperation == none).map Attribute.name

def namesDeclaredBy (c : ModelClass) (operation : String) : List String :=
  (c.attributes.filter fun a => a.declaringOperation == some operation).map Attribute.name

/-- The one initializer of a type declaration, an instance method, and the name of its receiver. -/
structure HasInitializer (node initializer : Node) (receiver : String) : Prop where
  only : (membersOf node).filter (isInitializer .python) = [initializer]
  inInstance : ∀ head, initializer.kind = .methodDeclaration head →
    Operation.placementOf head initializer = .inInstance
  receiver : Operation.receiverOf? .python .inInstance initializer = some receiver

/-- What a class and the body of its initializer say about the members that some assignments
name. The class goes by their direct targets and the body by the plain ones. -/
structure TellsMembers (c : ModelClass) (receiver : String) (assignments : List Node)
    (initializer : Operation) : Prop where
  attributes : c.namesDeclaredBy initializer.name =
    (firstOccurrences (assignments.flatMap (Node.directMembers receiver))).filter
      (!c.declaredNames.contains ·)
  members : memberNames initializer.body.declarations =
    firstOccurrences (assignments.flatMap (Node.plainMembers receiver))
  agree : Node.ReadAlike receiver c.declaredNames assignments →
    c.namesDeclaredBy initializer.name =
      (memberNames initializer.body.declarations).filter (!c.declaredNames.contains ·)

theorem names_of_added {operation : String} {declared added : List Attribute}
    (hattributes : c.attributes = added.foldl Attribute.addNew declared)
    (hdeclared : ∀ a ∈ declared, a.IsOfClass)
    (hadded : ∀ a ∈ added, a.declaringOperation = some operation) :
    c.declaredNames = declared.map Attribute.name ∧
      c.namesDeclaredBy operation = (firstOccurrences (added.map Attribute.name)).filter
        (!c.declaredNames.contains ·) := by
  obtain ⟨new, hnew, hmem⟩ := Attribute.foldl_addNew_grows declared added
  have hnames := Attribute.foldl_addNew_names declared added
  rw [hnew, List.map_append, foldl_appendNew] at hnames
  have hofClass : (declared.filter fun a => a.declaringOperation == none) = declared :=
    List.filter_eq_self.mpr fun a ha => beq_iff_eq.mpr (hdeclared a ha)
  have hnone : (new.filter fun a => a.declaringOperation == none) = [] :=
    List.filter_eq_nil_iff.mpr fun a ha => by simp [hadded a (hmem a ha)]
  have hother : (declared.filter fun a => a.declaringOperation == some operation) = [] :=
    List.filter_eq_nil_iff.mpr fun a ha => by simp [show _ = none from hdeclared a ha]
  have hall : (new.filter fun a => a.declaringOperation == some operation) = new :=
    List.filter_eq_self.mpr fun a ha => beq_iff_eq.mpr (hadded a (hmem a ha))
  have hdeclaredNames : c.declaredNames = declared.map Attribute.name := by
    rw [declaredNames, hattributes, hnew, List.filter_append, hofClass, hnone, List.append_nil]
  refine ⟨hdeclaredNames, ?_⟩
  rw [hdeclaredNames, namesDeclaredBy, hattributes, hnew, List.filter_append, hother, hall,
    List.nil_append]
  exact List.append_cancel_left hnames

section Initializer

variable {file : FileContext} {node initializer : Node} {receiver : String}

theorem receiver_parameter
    (h : Operation.receiverOf? .python .inInstance initializer = some receiver) :
    ∃ sort span children,
      initializer.parameters.head? = some ⟨.variable receiver sort, span, children⟩ := by
  rw [show Operation.receiverOf? .python .inInstance initializer =
    initializer.parameters.head?.bind _ from rfl] at h
  obtain ⟨⟨kind, span, children⟩, hhead, hname⟩ := Option.bind_eq_some_iff.mp h
  cases kind
  case «variable» name sort =>
    obtain rfl := Option.some.inj hname
    exact ⟨sort, span, children, hhead⟩
  all_goals cases hname

theorem ofInitializer_eq {head : MethodHead} (hkind : initializer.kind = .methodDeclaration head)
    (hreceiver : Operation.receiverOf? .python .inInstance initializer = some receiver) :
    Attribute.ofInitializer file className classSpan initializer =
      initializer.bodyAssignments.flatMap
        (Attribute.ofInitializerAssignment file className classSpan head.name receiver) := by
  obtain ⟨sort, span, children, hparameter⟩ := receiver_parameter hreceiver
  unfold Attribute.ofInitializer Node.bodyAssignments
  rw [hkind, hparameter]
  cases hbody : initializer.body? with
  | none => rfl
  | some block =>
    have hblock : block.kind.passesAssignments = true := by
      rw [Node.isBlock_of_body? hbody]
      rfl
    rw [Option.toList_some, List.flatMap_singleton, Node.assignments_eq hblock,
      ← Node.assignmentsIn_eq_flatMap]

theorem HasInitializer.kind (h : HasInitializer node initializer receiver) :
    ∃ head, initializer.kind = .methodDeclaration head ∧ head.name = "__init__" := by
  have hmem : initializer ∈ (membersOf node).filter (isInitializer .python) := by
    rw [h.only]
    exact List.mem_singleton_self _
  have hinit := (List.mem_filter.mp hmem).2
  unfold isInitializer at hinit
  split at hinit
  · rename_i head hkind
    exact ⟨head, hkind, (Option.some.inj (beq_iff_eq.mp hinit)).symm⟩
  · cases hinit

theorem operationsNamed_initializer {inInterface : Bool} {head : MethodHead}
    (h : HasInitializer node initializer receiver)
    (hkind : initializer.kind = .methodDeclaration head)
    (hoperations : c.operations =
      (membersOf node).filterMap (Operation.ofMember? file className classSpan inInterface)) :
    c.operationsNamed "__init__" =
      [Operation.ofMethod file className classSpan .inInstance inInterface head initializer] := by
  let operation? := Operation.ofMember? file className classSpan inInterface
  have hname : ∀ member, (operation? member).filter (fun o => o.name == "__init__") =
      if isInitializer .python member then operation? member else none := by
    intro member
    simp only [operation?, Operation.ofMember?, isInitializer]
    cases member.kind
    case methodDeclaration head =>
      by_cases hinit : "__init__" = head.name
      · simp [Operation.ofMethod, Language.initializerName?, ← hinit, Option.filter]
      · simp [Operation.ofMethod, Language.initializerName?, hinit, Option.filter, Ne.symm hinit]
    all_goals rfl
  calc c.operationsNamed "__init__"
      = (membersOf node).filterMap fun member =>
          (operation? member).filter fun o => o.name == "__init__" := by
        rw [operationsNamed, hoperations, List.filter_filterMap]
    _ = ((membersOf node).filter (isInitializer .python)).filterMap operation? := by
        rw [List.filterMap_filter]
        exact List.filterMap_congr fun member _ => hname member
    _ = _ := by
        rw [h.only]
        simp only [operation?, List.filterMap_cons, List.filterMap_nil, Operation.ofMember?, hkind,
          h.inInstance head hkind]

theorem ofDeclaration_namesDeclaredBy (name : String) (head : TypeHead)
    (hlanguage : file.language = .python) (h : HasInitializer node initializer receiver) :
    (ofDeclaration file name head node).namesDeclaredBy "__init__" =
      (firstOccurrences
        (initializer.bodyAssignments.flatMap (Node.directMembers receiver))).filter
          (!(ofDeclaration file name head node).declaredNames.contains ·) := by
  obtain ⟨methodHead, hkind, hname⟩ := h.kind
  let className := Text.qualified file.package name
  let added := initializer.bodyAssignments.flatMap
    (Attribute.ofInitializerAssignment file className node.span methodHead.name receiver)
  have hinitialized : ((membersOf node).filter (isInitializer file.language)).flatMap
      (Attribute.ofInitializer file className node.span) = added := by
    rw [hlanguage, h.only, List.flatMap_singleton, ofInitializer_eq hkind h.receiver]
  have hattributes : (ofDeclaration file name head node).attributes =
      added.foldl Attribute.addNew _ :=
    congrArg (List.foldl Attribute.addNew _) hinitialized
  have hadded : ∀ a ∈ added, a.declaringOperation = some "__init__" := by
    intro a ha
    obtain ⟨assignment, -, hassignment⟩ := List.mem_flatMap.mp ha
    exact hname ▸ Attribute.ofInitializerAssignment_operation hassignment
  have hnames : added.map Attribute.name =
      initializer.bodyAssignments.flatMap (Node.directMembers receiver) := by
    rw [List.map_flatMap]
    exact List.flatMap_congr fun assignment _ =>
      Attribute.ofInitializerAssignment_names methodHead.name receiver assignment
  rw [← hnames]
  refine (names_of_added hattributes ?_ hadded).2
  refine Attribute.foldl_afterMember_isOfClass (fun a ha => ?_) _
  obtain ⟨component, -, hcomponent⟩ := List.mem_filterMap.mp ha
  exact Attribute.ofComponent?_isOfClass hcomponent

theorem ofMethod_memberNames (head : MethodHead) (className : String) (inInterface : Bool)
    (hlanguage : file.language = .python) (h : HasInitializer node initializer receiver)
    (hinside : initializer.Everywhere fun below => below.span.startOffset ≠ node.span.startOffset)
    (hplace : initializer.Everywhere (Node.AssignsInPlace receiver)) :
    memberNames (Operation.ofMethod file className node.span .inInstance inInterface head
        initializer).body.declarations =
      firstOccurrences (initializer.bodyAssignments.flatMap (Node.plainMembers receiver)) := by
  let around := Body.surroundings file.language file.path node.span
    (Operation.receiverOf? file.language .inInstance initializer) initializer
  have hreceiver : around.receiver? = some receiver := by
    simp only [around, Body.surroundings, hlanguage]
    exact h.receiver
  have hinside' : Body.IsInside around initializer := hinside
  exact Body.memberNames_ofMethod hreceiver hinside' hplace _

end Initializer

end ModelClass

namespace Samples

def inClass (kind : NodeKind) (children : List Node) : Node :=
  ⟨kind, { startOffset := 8, endOffset := 60 }, children⟩

def nameOf (identifier : String) : Node :=
  inClass (.simpleName identifier) []

def selfMember (name : String) : Node :=
  inClass (.fieldAccess name) [nameOf "self"]

def assign (operator : String) (target : Node) : Node :=
  inClass (.assignment operator) [target, inClass .absent [], nameOf "v"]

/-- `class A` with the attribute `b` and an initializer of some statements. -/
def initializerOf (statements : List Node) : Node :=
  inClass (.methodDeclaration ⟨"__init__", {}, false, false⟩)
    [inClass (.variable "self" .regular) [], inClass (.variable "v" .regular) [],
      inClass .absent [], inClass .block statements]

@[inherit_doc initializerOf]
def declarationOf (statements : List Node) : Node :=
  ⟨.typeDeclaration ⟨"A", .classType, {}, [], []⟩, { startOffset := 0, endOffset := 60 },
    [inClass .block [assign "=" (nameOf "b"), initializerOf statements]]⟩

def modelOf (statements : List Node) : ModelClass :=
  .ofDeclaration ⟨"m.py", .python, "m"⟩ "A" ⟨"A", .classType, {}, [], []⟩ (declarationOf statements)

/-- `self.a, self.b = v` and `self.n = v`, and then `if v: self.n += v`. -/
def counting : List Node :=
  [assign "=" (inClass (.collection .tuple) [selfMember "a", selfMember "b"]),
    assign "=" (selfMember "n"),
    inClass .conditional
      [nameOf "v", inClass .block [assign "+=" (selfMember "n")], inClass .absent []]]

/-- `self.a, (self.c, self.d) = v` -/
def nestedTargets : List Node :=
  [assign "=" (inClass (.collection .tuple)
    [selfMember "a", inClass (.collection .tuple) [selfMember "c", selfMember "d"]])]

end Samples

namespace ModelClass

theorem hasInitializer_declaration (statements : List Node) :
    HasInitializer (Samples.declarationOf statements) (Samples.initializerOf statements)
      "self" where
  only := rfl
  inInstance _ hkind := NodeKind.methodDeclaration.inj hkind ▸ rfl
  receiver := rfl

/-- A class takes as attributes of its initializer all that its assignments name directly, and the
body of the initializer lists what its plain assignments name. -/
theorem ofDeclaration_tellsMembers {file : FileContext} {node initializer : Node}
    {receiver : String} (name : String) (head : TypeHead)
    (hlanguage : file.language = .python) (h : HasInitializer node initializer receiver)
    (hinside : initializer.Everywhere fun below => below.span.startOffset ≠ node.span.startOffset)
    (hplace : initializer.Everywhere (Node.AssignsInPlace receiver)) :
    ∃ operation, (ofDeclaration file name head node).operationsNamed "__init__" = [operation] ∧
      (ofDeclaration file name head node).TellsMembers receiver initializer.bodyAssignments
        operation := by
  obtain ⟨methodHead, hkind, hname⟩ := h.kind
  have hattributes := ofDeclaration_namesDeclaredBy name head hlanguage h
  have hmembers := ofMethod_memberNames methodHead (Text.qualified file.package name)
    (traitsOf file.language head node).isInterface hlanguage h hinside hplace
  rw [← hname] at hattributes
  refine ⟨_, operationsNamed_initializer h hkind rfl, hattributes, hmembers, fun halike => ?_⟩
  have hsame := Node.foldl_eq_of_readAlike halike fun _ hgiven => hgiven
  rw [foldl_appendNew, foldl_appendNew] at hsame
  rw [hmembers]
  exact hattributes.trans (List.append_cancel_left hsame)

open Samples in
theorem ofDeclaration_tellsMembers_counting :
    HasInitializer (declarationOf counting) (initializerOf counting) "self" ∧
      ((initializerOf counting).Everywhere fun below =>
        below.span.startOffset ≠ (declarationOf counting).span.startOffset) ∧
      (initializerOf counting).Everywhere (Node.AssignsInPlace "self") ∧
      Node.ReadAlike "self" (modelOf counting).declaredNames
        (initializerOf counting).bodyAssignments ∧
      (modelOf counting).namesDeclaredBy "__init__" = ["a", "n"] ∧
      ∃ operation, (modelOf counting).operationsNamed "__init__" = [operation] ∧
        (modelOf counting).TellsMembers "self" (initializerOf counting).bodyAssignments
          operation := by
  have h := hasInitializer_declaration counting
  have hinside : (initializerOf counting).Everywhere fun below =>
      below.span.startOffset ≠ (declarationOf counting).span.startOffset := by
    unfold Node.Everywhere
    decide
  have hplace : (initializerOf counting).Everywhere (Node.AssignsInPlace "self") := by
    unfold Node.Everywhere
    decide +kernel
  exact ⟨h, hinside, hplace, by decide +kernel, rfl,
    ofDeclaration_tellsMembers "A" _ rfl h hinside hplace⟩

open Samples in
/-- The two readings of an initializer differ. An assignment with an operator gives the class an
attribute that the body does not have, and members below the first level of a target are missing
from the attributes. -/
theorem ofDeclaration_misses_members :
    HasInitializer (declarationOf [assign "+=" (selfMember "n")])
        (initializerOf [assign "+=" (selfMember "n")]) "self" ∧
      (modelOf [assign "+=" (selfMember "n")]).namesDeclaredBy "__init__" = ["n"] ∧
      ((modelOf [assign "+=" (selfMember "n")]).operationsNamed "__init__").map
        (memberNames ·.body.declarations) = [[]] ∧
      HasInitializer (declarationOf nestedTargets) (initializerOf nestedTargets) "self" ∧
      (modelOf nestedTargets).namesDeclaredBy "__init__" = ["a"] ∧
      ((modelOf nestedTargets).operationsNamed "__init__").map
        (memberNames ·.body.declarations) = [["a", "c", "d"]] :=
  ⟨hasInitializer_declaration _, rfl, rfl, hasInitializer_declaration _, rfl, rfl⟩

end ModelClass

end CodeEvolution
