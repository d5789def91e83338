import CodeEvolution.Delta.Basic
import CodeEvolution.Model.OfUnit
import CodeEvolution.Proofs.Alignment.IdentityVariables
import CodeEvolution.Proofs.Delta.Partition
/-!
# The difference of a model and itself

Pairing goes first come, first served, so classes, operations and attributes are paired with
themselves, also where several have the same name or signature. The body of an operation is then
aligned with itself, and no variable is removed, added or renamed.
-/
namespace CodeEvolution

variable {c : ModelClass} (file : FileContext) (config : Config) (receivers : List String)

def Model.HasMethodBodies (model : Model) : Prop :=
  ∀ c ∈ model.classes, ∀ o ∈ c.operations, o.body.IsOfMethod

theorem Operation.ofMethod_body_isOfMethod (className : String) (classSpan : Span)
    (placement : Placement) (inInterface : Bool) (head : MethodHead) (method : Node) :
    (ofMethod file className classSpan placement inInterface head method).body.IsOfMethod :=
  ⟨_, _, _, rfl⟩

theorem ModelClass.ofDeclaration_isOfMethod (name : String) (head : TypeHead) (node : Node) :
    ∀ o ∈ (ofDeclaration file name head node).operations, o.body.IsOfMethod := by
  intro o ho
  obtain ⟨member, -, hmember⟩ := List.mem_filterMap.mp ho
  unfold Operation.ofMember? at hmember
  split at hmember
  · exact Option.some.inj hmember ▸ Operation.ofMethod_body_isOfMethod ..
  · simp at hmember

theorem ModelClass.ofFunctions_isOfMethod (root : Node) :
    ∀ o ∈ (ofFunctions file root).operations, o.body.IsOfMethod := by
  intro o ho
  obtain ⟨function, -, hfunction⟩ := List.mem_filterMap.mp ho
  unfold Operation.ofFunction? at hfunction
  split at hfunction
  · exact Option.some.inj hfunction ▸ Operation.ofMethod_body_isOfMethod ..
  · simp at hfunction

theorem Model.mem_ofUnit {unit : CompilationUnit} (hc : c ∈ (ofUnit unit).classes) :
    c = .ofFunctions (FileContext.ofUnit unit) unit.root ∨
      ∃ d ∈ Node.typesAmong none unit.root.children,
        c = .ofDeclaration (FileContext.ofUnit unit) d.name d.head d.node := by
  simp only [ofUnit] at hc
  split at hc
  · rcases List.mem_cons.mp hc with rfl | hc
    · exact Or.inl rfl
    · obtain ⟨d, hd, rfl⟩ := List.mem_map.mp hc
      exact Or.inr ⟨d, hd, rfl⟩
  · obtain ⟨d, hd, rfl⟩ := List.mem_map.mp hc
    exact Or.inr ⟨d, hd, rfl⟩

theorem Model.ofUnit_hasMethodBodies (unit : CompilationUnit) : (ofUnit unit).HasMethodBodies := by
  intro c hc
  rcases mem_ofUnit hc with rfl | ⟨d, -, rfl⟩
  · exact ModelClass.ofFunctions_isOfMethod _ _
  · exact ModelClass.ofDeclaration_isOfMethod _ _ _ _

theorem Model.HasMethodBodies.append {m n : Model} (hm : m.HasMethodBodies)
    (hn : n.HasMethodBodies) : (m.append n).HasMethodBodies := by
  intro c hc
  rcases List.mem_append.mp hc with hc | hc
  · exact hm c hc
  · exact hn c hc

/-- An operation paired with itself, whose variables are all unchanged. -/
structure OperationPair.IsUnchanged (pair : OperationPair) : Prop where
  after : pair.after = pair.before
  removed : pair.alignment.variableDelta.removed = []
  added : pair.alignment.variableDelta.added = []
  renamed : pair.alignment.variableDelta.renamed = []

structure ClassDelta.IsUnchanged (d : ClassDelta) : Prop where
  matchedBy : d.matchedBy = .byName
  removedOperations : d.removedOperations = []
  addedOperations : d.addedOperations = []
  removedAttributes : d.removedAttributes = []
  addedAttributes : d.addedAttributes = []
  commonOperations : ∀ pair ∈ d.commonOperations, pair.IsUnchanged

structure ModelDelta.IsUnchanged (delta : ModelDelta) : Prop where
  removedClasses : delta.removedClasses = []
  addedClasses : delta.addedClasses = []
  commonClasses : ∀ d ∈ delta.commonClasses, d.IsUnchanged

theorem OperationPair.ofOperations_isReflexive (o : Operation) :
    Comparison.IsReflexive
      { before := o.body, after := o.body, receivers,
        maxReplacements := config.maxReplacements } :=
  ⟨rfl, rfl, rfl⟩

theorem OperationPair.ofOperations_isUnchanged {o : Operation} (h : o.body.IsOfMethod) :
    (ofOperations config receivers o o).IsUnchanged := by
  have hdelta := Comparison.align_variableDelta (ofOperations_isReflexive config receivers o) h
  constructor
  · rfl
  · exact congrArg VariableDelta.removed hdelta
  · exact congrArg VariableDelta.added hdelta
  · exact congrArg VariableDelta.renamed hdelta

namespace ClassDelta

theorem pairOperations_self (operations : List Operation) :
    pairOperations operations operations =
      { removed := []
        added := []
        common := sortByPosition (operations.map Operation.key) (fun p => p.1.key)
          (operations.map fun o => (o, o)) } := by
  have hself := Partition.of_self Operation.signatureKey operations
  simp [pairOperations, hself]

theorem mem_commonOperations_self {config : Config} {pair : OperationPair} :
    pair ∈ (ofClasses config c c .byName).commonOperations ↔
      ∃ o ∈ c.operations, pair = .ofOperations config c.language.receivers o o := by
  simp only [ofClasses, pairOperations_self, List.mem_map, (sortByPosition_perm _ _ _).mem_iff]
  constructor
  · rintro ⟨p, ⟨o, ho, rfl⟩, rfl⟩
    exact ⟨o, ho, rfl⟩
  · rintro ⟨o, ho, rfl⟩
    exact ⟨(o, o), ⟨o, ho, rfl⟩, rfl⟩

theorem ofClasses_self_isUnchanged (h : ∀ o ∈ c.operations, o.body.IsOfMethod) :
    (ofClasses config c c .byName).IsUnchanged := by
  have hattributes := Partition.of_self Attribute.matchKey c.attributes
  have hoperations := pairOperations_self c.operations
  constructor
  · rfl
  · simp only [ofClasses, hoperations]
  · simp only [ofClasses, hoperations]
  · simp only [ofClasses, hattributes]
  · simp only [ofClasses, hattributes]
  · intro pair hpair
    obtain ⟨o, ho, rfl⟩ := mem_commonOperations_self.mp hpair
    exact OperationPair.ofOperations_isUnchanged config _ (h o ho)

end ClassDelta

namespace ModelDelta

theorem ofModels_allPaired {before after : Model} {common : List (ModelClass × ModelClass)}
    (h : Partition.of (fun b a => b.qualifiedName == a.qualifiedName) before.classes after.classes =
      ⟨[], [], common⟩) :
    (ofModels config before after).removedClasses = [] ∧
      (ofModels config before after).addedClasses = [] ∧
      (ofModels config before after).commonClasses.Perm
        (common.map fun p => .ofClasses config p.1 p.2 .byName) := by
  have hnone : SimilarPair.choose config.classSimilarityThreshold [] [] = [] := by
    simp [SimilarPair.choose, SimilarPair.candidates]
  simp only [ofModels, h, hnone]
  refine ⟨rfl, rfl, ?_⟩
  simp only [List.filterMap_nil, List.append_nil]
  exact ((sortByPosition_perm _ _ _).map _).trans (by simp [Function.comp_def])

theorem ofModels_self (model : Model) :
    (ofModels config model model).removedClasses = [] ∧
      (ofModels config model model).addedClasses = [] ∧
      (ofModels config model model).commonClasses.Perm
        (model.classes.map fun c => .ofClasses config c c .byName) := by
  have hself := ofModels_allPaired config (Partition.of_self ModelClass.qualifiedName model.classes)
  rwa [List.map_map] at hself

theorem mem_commonClasses_self {config : Config} {model : Model} {d : ClassDelta} :
    d ∈ (ofModels config model model).commonClasses ↔
      ∃ c ∈ model.classes, d = .ofClasses config c c .byName := by
  rw [(ofModels_self config model).2.2.mem_iff, List.mem_map]
  simp only [eq_comm]

theorem ofModels_self_isUnchanged {model : Model} (h : model.HasMethodBodies) :
    (ofModels config model model).IsUnchanged := by
  obtain ⟨hremoved, hadded, -⟩ := ofModels_self config model
  refine ⟨hremoved, hadded, ?_⟩
  intro d hd
  obtain ⟨c, hc, rfl⟩ := mem_commonClasses_self.mp hd
  exact ClassDelta.ofClasses_self_isUnchanged config (h c hc)

end ModelDelta

end CodeEvolution
