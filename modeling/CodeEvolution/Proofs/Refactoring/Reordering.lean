import CodeEvolution.Proofs.Delta.Reordering
import CodeEvolution.Proofs.Refactoring.Clashes
import CodeEvolution.Proofs.Samples
import Mathlib.Data.List.Perm.Basic
/-!
# Reordering declarations is not a change

The order of classes, operations and attributes is not looked at where each is the only one of its
key. So of a model and a reordering of it nothing is told, whatever rules are tried in whatever
order, and nothing is left to explain.
-/
namespace CodeEvolution

theorem Decorator.areConsistent_of_nodup {decorators : List Decorator}
    (h : (decorators.map Decorator.name).Nodup) : AreConsistent decorators := by
  intro d hd e he hclash
  have heq : d = e := List.inj_on_of_nodup_map h hd he hclash.1
  exact hclash.2 (congrArg Decorator.arguments heq)

namespace ModelDelta

variable (config : Config) {m m' : Model} (hunique : m.HasUniqueKeys) (h : m.IsReordering m')

include hunique h

theorem decoratorProposals_reordered : (ofModels config m m').decoratorProposals = [] := by
  simp only [decoratorProposals, List.append_eq_nil_iff, List.flatMap_eq_nil_iff,
    Inference.ofClassDecorators, Inference.ofMethodDecorators, List.map_eq_nil_iff]
  constructor
  · intro d hd
    obtain ⟨c, hc, c', hcc', rfl⟩ := (ofModels_reordered config hunique h).2.2 d hd
    change DecoratorChange.between c.decorators c'.decorators = []
    rw [hcc'.decorators, DecoratorChange.between_self_eq_nil_iff]
    exact Decorator.areConsistent_of_nodup (hunique.classDecorators c hc)
  · intro pair hpair
    obtain ⟨c, hc, o, ho, rfl⟩ := mem_operationPairs_reordered config hunique h hpair
    apply DecoratorChange.between_self_eq_nil_iff.mpr
    exact Decorator.areConsistent_of_nodup (hunique.operationDecorators c hc o ho)

end ModelDelta

theorem ModelDelta.IsUnchanged.isEmpty {delta : ModelDelta} (h : delta.IsUnchanged) :
    delta.isEmpty = true := by
  simp only [ModelDelta.isEmpty, h.removedClasses, h.addedClasses, List.isEmpty_nil, Bool.true_and,
    List.all_eq_true]
  intro d hd
  have hd := h.commonClasses d hd
  simp [ClassDelta.hasChanges, hd.removedOperations, hd.addedOperations, hd.removedAttributes,
    hd.addedAttributes]

theorem ModelDelta.IsUnchanged.operations_perm {config : Config} {m m' : Model}
    (h : (ofModels config m m').IsUnchanged) :
    List.Perm ((ofModels config m m').operationPairs.map OperationPair.before)
      (m.classes.flatMap ModelClass.operations) := by
  have hclasses := before_classes_perm config m m'
  rw [h.removedClasses, List.nil_append] at hclasses
  have hmembers : ∀ d ∈ (ofModels config m m').commonClasses,
      List.Perm (d.commonOperations.map OperationPair.before) d.before.operations := by
    intro d hd
    have hexact := (commonClasses_isExact config m m' d hd).before_operations
    rwa [(h.commonClasses d hd).removedOperations, List.nil_append] at hexact
  rw [ModelDelta.operationPairs, List.map_flatMap]
  refine (List.Perm.flatMap_left _ hmembers).trans ?_
  have hflat := hclasses.flatMap_right ModelClass.operations
  rwa [List.flatMap_map] at hflat

/-- Reordering the classes of a model, and the operations and attributes inside them, is not a
change: the difference is empty, every operation is paired with itself and its statements are linked
to themselves, no refactoring is told and nothing is left to explain. -/
theorem Inference.run_reordered (config : Config) {m m' : Model} (hbodies : m.HasMethodBodies)
    (hunique : m.HasUniqueKeys) (h : m.IsReordering m') :
    let delta := ModelDelta.ofModels config m m'
    delta.isEmpty = true ∧
      List.Perm (delta.operationPairs.map OperationPair.before)
        (m.classes.flatMap ModelClass.operations) ∧
      (∀ pair ∈ delta.operationPairs, pair.IsIdentity) ∧
      (run config delta).refactorings = [] ∧ (run config delta).unexplained = [] := by
  have hdelta := ModelDelta.ofModels_reordered_isUnchanged config hunique h hbodies
  refine ⟨hdelta.isEmpty, hdelta.operations_perm, ?_, ?_, run_unchanged_unexplained config hdelta⟩
  · intro pair hpair
    obtain ⟨c, hc, o, ho, rfl⟩ := ModelDelta.mem_operationPairs_reordered config hunique h hpair
    exact OperationPair.ofOperations_isIdentity config _ (hbodies c hc o ho)
  · rw [run_unchanged_eq_nil_iff config hdelta]
    exact fun _ => ModelDelta.decoratorProposals_reordered config hunique h

namespace ReversedDeclarations

def reverseMembers (c : ModelClass) : ModelClass :=
  { c with operations := c.operations.reverse, attributes := c.attributes.reverse }

def reverse (m : Model) : Model :=
  { m with classes := (m.classes.map reverseMembers).reverse }

theorem isReordering_reverse (m : Model) : m.IsReordering (reverse m) := by
  refine ⟨m.classes.reverse, List.reverse_perm _, ?_⟩
  rw [reverse, ← List.map_reverse, List.forall₂_map_right_iff, List.forall₂_same]
  exact fun c _ => ⟨List.reverse_perm _, List.reverse_perm _, rfl⟩

open Samples (unplaced)

def field (name : String) : Node :=
  unplaced (.variableDeclaration {})
    [unplaced (.typeRef "int") [],
      unplaced (.variable name .regular) [unplaced .absent [], unplaced .absent []]]

def method (name result : String) : Node :=
  unplaced (.methodDeclaration ⟨name, {}, false, false⟩)
    [unplaced (.decorator "Checked") [], unplaced (.decorator "Pure") [],
      unplaced (.typeRef "int") [],
      unplaced .block [unplaced .returnStatement [unplaced (.simpleName result) []]]]

def type (name : String) (members : List Node) : Node :=
  unplaced (.typeDeclaration ⟨name, .classType, {}, [], []⟩)
    [unplaced (.decorator "Entity") [], unplaced .block members]

/-- A file with two classes of two fields and two methods each. -/
def file : CompilationUnit where
  path := "Shapes.java"
  language := .java
  root := unplaced .compilationUnit
    [type "Point" [field "x", field "y", method "left" "x", method "top" "y"],
      type "Size" [field "width", field "height", method "right" "width", method "bottom" "height"]]

def model : Model :=
  .ofUnit file

def outline (m : Model) : List (String × List String × List String) :=
  m.classes.map fun c =>
    (c.qualifiedName, c.operations.map Operation.name, c.attributes.map Attribute.name)

theorem model_hasUniqueKeys : model.HasUniqueKeys where
  classes := by decide +kernel
  operations := by decide +kernel
  attributes := by decide +kernel
  classDecorators := by decide +kernel
  operationDecorators := by decide +kernel

theorem run_reordered_reverse :
    model.HasMethodBodies ∧ model.HasUniqueKeys ∧ model.IsReordering (reverse model) ∧
      outline model =
        [("Point", ["left", "top"], ["x", "y"]),
          ("Size", ["right", "bottom"], ["width", "height"])] ∧
      outline (reverse model) =
        [("Size", ["bottom", "right"], ["height", "width"]),
          ("Point", ["top", "left"], ["y", "x"])] ∧
      (Inference.run {} (.ofModels {} model (reverse model))).refactorings = [] ∧
      (Inference.run {} (.ofModels {} model (reverse model))).unexplained = [] := by
  have hbodies : model.HasMethodBodies := Model.ofUnit_hasMethodBodies file
  have hreordering := isReordering_reverse model
  obtain ⟨-, -, -, hnone, hexplained⟩ :=
    Inference.run_reordered {} hbodies model_hasUniqueKeys hreordering
  exact ⟨hbodies, model_hasUniqueKeys, hreordering, by decide +kernel, by decide +kernel, hnone,
    hexplained⟩

end ReversedDeclarations

end CodeEvolution
