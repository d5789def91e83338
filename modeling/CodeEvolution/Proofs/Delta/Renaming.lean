import CodeEvolution.Proofs.Delta.Unchanged
/-!
# The difference made by a new name of an operation

If an operation is the only one of its signature in its class and gets a name that is new there,
then its signature is found on one side only, before and after. The pass for names left over does
not pair the two either, so it is the one operation that was removed, and under its new name the
one that was added. Everything else is paired with itself.
-/
namespace CodeEvolution

variable {position : Nat} {c : ModelClass} {o : Operation} {name : String} (config : Config)

def Operation.renamed (o : Operation) (name : String) : Operation :=
  { o with name }

theorem Operation.hasSameParameters_renamed (o : Operation) (name : String) :
    o.hasSameParameters (o.renamed name) = true := by
  rw [hasSameParameters, Bool.and_eq_true, beq_iff_eq, beq_iff_eq]
  exact ⟨rfl, rfl⟩

def ModelClass.renameOperation (c : ModelClass) (position : Nat) (name : String) : ModelClass :=
  { c with operations := c.operations.modify position fun o => o.renamed name }

def Model.renameOperation (m : Model) (position operation : Nat) (name : String) : Model :=
  { m with classes := m.classes.modify position fun c => c.renameOperation operation name }

theorem exists_modify_split {α : Type} {items : List α} {a : α} (h : items[position]? = some a)
    (f : α → α) :
    ∃ front back, items = front ++ a :: back ∧ items.modify position f = front ++ f a :: back := by
  obtain ⟨hposition, rfl⟩ := List.getElem?_eq_some_iff.mp h
  refine ⟨items.take position, items.drop (position + 1), ?_, ?_⟩
  · rw [← List.drop_eq_getElem_cons hposition, List.take_append_drop]
  · exact List.modify_eq_take_cons_drop hposition

/-- Two classes paired by their name, whose members are all paired with themselves but for one
operation that was removed and one that was added. -/
structure ClassDelta.IsExchange (d : ClassDelta) (removed added : Operation) : Prop where
  matchedBy : d.matchedBy = .byName
  removedOperations : d.removedOperations = [removed]
  addedOperations : d.addedOperations = [added]
  removedAttributes : d.removedAttributes = []
  addedAttributes : d.addedAttributes = []
  commonOperations : ∀ pair ∈ d.commonOperations, pair.IsUnchanged

/-- All classes of a model are unchanged but for one operation that was removed and one that was
added to the same class. -/
structure ModelDelta.IsExchange (delta : ModelDelta) (removed added : Operation) : Prop where
  removedClasses : delta.removedClasses = []
  addedClasses : delta.addedClasses = []
  commonClasses : ∃ d others, delta.commonClasses.Perm (d :: others) ∧
    d.IsExchange removed added ∧ ∀ d ∈ others, d.IsUnchanged

namespace ClassDelta

section Renamed

variable {front back : List Operation} {o : Operation} {name : String}
  (hunique : o.signatureKey ∉ (front ++ back).map Operation.signatureKey)
  (hfresh : ∀ p ∈ front ++ o :: back, p.name ≠ name)

include hunique hfresh

theorem pairOperations_renamed :
    let paired := pairOperations (front ++ o :: back) (front ++ o.renamed name :: back)
    paired.removed = [o] ∧ paired.added = [o.renamed name] ∧
      ∀ p ∈ paired.common, p.1 ∈ front ++ back ∧ p.2 = p.1 := by
  have hname : o.name ≠ name := hfresh o (by simp)
  have hold : ∀ p ∈ o.renamed name :: back, o.signatureKey ≠ p.signatureKey := by
    intro p hp heq
    rcases List.mem_cons.mp hp with rfl | hp
    · exact hname (congrArg Prod.fst heq)
    · exact hunique (List.mem_map.mpr ⟨p, List.mem_append_right _ hp, heq.symm⟩)
  have hnew : ∀ p ∈ back, p.signatureKey ≠ (o.renamed name).signatureKey := by
    intro p hp heq
    exact hfresh p (by simp [hp]) (congrArg Prod.fst heq)
  have hexact := Partition.of_replaced Operation.signatureKey front hold hnew
  have hleft : renewed? [o] [o.renamed name] o = none := by
    simp [renewed?, countNamed, Operation.renamed, hname.symm]
  simp only [pairOperations, hexact]
  refine ⟨by simp [hleft], by simp [hleft], ?_⟩
  intro p hp
  rw [(sortByPosition_perm _ _ _).mem_iff] at hp
  simp only [hleft, List.filterMap_cons, Option.map_none, List.filterMap_nil, List.append_nil] at hp
  obtain ⟨q, hq, rfl⟩ := List.mem_map.mp hp
  exact ⟨hq, rfl⟩

end Renamed

theorem ofClasses_renamed_isExchange (hbodies : ∀ p ∈ c.operations, p.body.IsOfMethod)
    (ho : c.operations[position]? = some o)
    (hunique : (c.operations.map Operation.signatureKey).count o.signatureKey = 1)
    (hfresh : ∀ p ∈ c.operations, p.name ≠ name) :
    (ofClasses config c (c.renameOperation position name) .byName).IsExchange o
      (o.renamed name) := by
  obtain ⟨front, back, hbefore, hafter⟩ := exists_modify_split ho fun o => o.renamed name
  rw [hbefore] at hunique hfresh hbodies
  have halone : o.signatureKey ∉ (front ++ back).map Operation.signatureKey := by
    rw [← List.count_eq_zero]
    simp only [List.map_append, List.map_cons, List.count_append, List.count_cons_self] at hunique ⊢
    omega
  have hattributes := Partition.of_self Attribute.matchKey c.attributes
  have hoperations := pairOperations_renamed halone hfresh
  rw [← hafter, ← hbefore] at hoperations
  obtain ⟨hremoved, hadded, hcommon⟩ := hoperations
  simp only [ofClasses, ModelClass.renameOperation, hattributes]
  refine ⟨rfl, hremoved, hadded, rfl, rfl, ?_⟩
  intro pair hpair
  obtain ⟨p, hp, rfl⟩ := List.mem_map.mp hpair
  obtain ⟨hmem, heq⟩ := hcommon p hp
  rw [heq]
  apply OperationPair.ofOperations_isUnchanged
  apply hbodies
  exact List.mem_append.mpr ((List.mem_append.mp hmem).imp_right (List.mem_cons_of_mem o))

end ClassDelta

namespace ModelDelta

theorem ofModels_renamed_isExchange {model : Model} (hbodies : model.HasMethodBodies)
    {operation : Nat} (hc : model.classes[position]? = some c)
    (ho : c.operations[operation]? = some o)
    (hunique : (c.operations.map Operation.signatureKey).count o.signatureKey = 1)
    (hfresh : ∀ p ∈ c.operations, p.name ≠ name) :
    (ofModels config model (model.renameOperation position operation name)).IsExchange o
      (o.renamed name) := by
  obtain ⟨front, back, hbefore, hafter⟩ :=
    exists_modify_split hc fun c => c.renameOperation operation name
  have hpaired := Partition.of_updated ModelClass.qualifiedName (b := c)
    (a := c.renameOperation operation name) (beq_self_eq_true c.qualifiedName) front back
  rw [← hbefore, ← hafter] at hpaired
  obtain ⟨hremoved, hadded, hperm⟩ :=
    @ofModels_allPaired config model (model.renameOperation position operation name) _ hpaired
  have hbodiesAt : ∀ d ∈ front ++ c :: back, ∀ p ∈ d.operations, p.body.IsOfMethod := by
    rw [← hbefore]
    exact hbodies
  refine ⟨hremoved, hadded, .ofClasses config c (c.renameOperation operation name) .byName,
    (front ++ back).map (fun c => .ofClasses config c c .byName), ?_, ?_, ?_⟩
  · refine hperm.trans ?_
    simp only [List.map_append, List.map_cons, List.map_map]
    exact List.perm_middle
  · exact ClassDelta.ofClasses_renamed_isExchange config (hbodiesAt c (by simp)) ho hunique hfresh
  · intro d hd
    obtain ⟨e, he, rfl⟩ := List.mem_map.mp hd
    apply ClassDelta.ofClasses_self_isUnchanged
    apply hbodiesAt
    exact List.mem_append.mpr ((List.mem_append.mp he).imp_right (List.mem_cons_of_mem c))

end ModelDelta

end CodeEvolution
