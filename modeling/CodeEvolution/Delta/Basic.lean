import CodeEvolution.Alignment.Basic
import CodeEvolution.Config.Basic
import CodeEvolution.Delta.Partition
import CodeEvolution.Delta.Similarity
import CodeEvolution.Event
/-!
# The difference of two models

Classes are paired by qualified name and then by similarity; attributes and operations of paired
classes by what they are matched by, operations also by a name that is left over once on either
side. Whatever is not paired was removed or added.
-/
namespace CodeEvolution

variable (config : Config)

inductive ClassMatch where
  | byName
  | bySimilarity (score : Binary64)
deriving DecidableEq, Repr

def ClassMatch.score : ClassMatch → Binary64
  | .byName => .one
  | .bySimilarity score => score

structure OperationPair where
  before : Operation
  after : Operation
  alignment : Alignment
deriving Repr

namespace OperationPair

def ofOperations (receivers : List String) (before after : Operation) : OperationPair :=
  { before
    after
    alignment := Comparison.align
      { before := before.body
        after := after.body
        receivers
        maxReplacements := config.maxReplacements } }

end OperationPair

structure ClassDelta where
  before : ModelClass
  after : ModelClass
  matchedBy : ClassMatch
  removedOperations : List Operation
  addedOperations : List Operation
  commonOperations : List OperationPair
  removedAttributes : List Attribute
  addedAttributes : List Attribute
  commonAttributes : List (Attribute × Attribute)
deriving Repr

namespace ClassDelta

def countNamed (operations : List Operation) (name : String) : Nat :=
  (operations.filter fun o => o.name == name).length

def renewed? (removed added : List Operation) (o : Operation) : Option Operation :=
  if countNamed removed o.name = 1 ∧ countNamed added o.name = 1 then
    added.find? fun a => a.name == o.name
  else none

def pairOperations (before after : List Operation) : Partition Operation :=
  let exact := Partition.of (fun b a => b.signatureKey == a.signatureKey) before after
  let renewed := exact.removed.filterMap fun o =>
    (renewed? exact.removed exact.added o).map fun a => (o, a)
  let taken := renewed.map fun p => p.2.key
  { removed := exact.removed.filter fun o => (renewed? exact.removed exact.added o).isNone
    added := exact.added.filter fun a => !taken.contains a.key
    common := sortByPosition (before.map Operation.key) (fun p => p.1.key)
      (exact.common ++ renewed) }

def ofClasses (before after : ModelClass) (matchedBy : ClassMatch) : ClassDelta :=
  let attributes := Partition.of (fun b a => b.matchKey == a.matchKey)
    before.attributes after.attributes
  let operations := pairOperations before.operations after.operations
  { before
    after
    matchedBy
    removedOperations := operations.removed
    addedOperations := operations.added
    commonOperations := operations.common.map fun p =>
      .ofOperations config before.language.receivers p.1 p.2
    removedAttributes := attributes.removed
    addedAttributes := attributes.added
    commonAttributes := attributes.common }

def isRenamedOrMoved (delta : ClassDelta) : Bool :=
  match delta.matchedBy with
  | .byName => false
  | .bySimilarity _ => true

def hasChanges (delta : ClassDelta) : Bool :=
  !(delta.removedOperations.isEmpty && delta.addedOperations.isEmpty &&
    delta.removedAttributes.isEmpty && delta.addedAttributes.isEmpty)

end ClassDelta

structure ModelDelta where
  before : Model
  after : Model
  removedClasses : List ModelClass
  addedClasses : List ModelClass
  commonClasses : List ClassDelta
deriving Repr

variable (delta : ModelDelta) (name : String)

namespace ModelDelta

def notAt (positions : List Nat) (items : List α) : List α :=
  (items.zipIdx.filter fun entry => !positions.contains entry.2).map Prod.fst

abbrev ClassPair := ModelClass × ModelClass × ClassMatch

def similarClasses? (removed added : List ModelClass) (pair : SimilarPair) : Option ClassPair :=
  match removed[pair.before]?, added[pair.after]? with
  | some b, some a => some (b, a, .bySimilarity pair.score)
  | _, _ => none

def ofModels (before after : Model) : ModelDelta :=
  let named := Partition.of (fun b a => b.qualifiedName == a.qualifiedName)
    before.classes after.classes
  let similar := SimilarPair.choose config.classSimilarityThreshold named.removed named.added
  let pairs : List ClassPair := (named.common.map fun p => (p.1, p.2, .byName)) ++
    similar.filterMap (similarClasses? named.removed named.added)
  let sorted := sortByPosition (before.classes.map ModelClass.qualifiedName)
    (fun pair => pair.1.qualifiedName) pairs
  { before
    after
    removedClasses := notAt (similar.map SimilarPair.before) named.removed
    addedClasses := notAt (similar.map SimilarPair.after) named.added
    commonClasses := sorted.map fun pair => .ofClasses config pair.1 pair.2.1 pair.2.2 }

def events : List Event :=
  delta.commonClasses.map fun d =>
    .classesMatched d.before.qualifiedName d.after.qualifiedName d.matchedBy.score

def removedOperations (delta : ModelDelta) : List Operation :=
  delta.removedClasses.flatMap ModelClass.operations ++
    delta.commonClasses.flatMap ClassDelta.removedOperations

def addedOperations (delta : ModelDelta) : List Operation :=
  delta.addedClasses.flatMap ModelClass.operations ++
    delta.commonClasses.flatMap ClassDelta.addedOperations

def removedAttributes (delta : ModelDelta) : List Attribute :=
  delta.removedClasses.flatMap ModelClass.attributes ++
    delta.commonClasses.flatMap ClassDelta.removedAttributes

def addedAttributes (delta : ModelDelta) : List Attribute :=
  delta.addedClasses.flatMap ModelClass.attributes ++
    delta.commonClasses.flatMap ClassDelta.addedAttributes

def operationPairs : List OperationPair :=
  delta.commonClasses.flatMap ClassDelta.commonOperations

def pairOfBefore? : Option ClassDelta :=
  delta.commonClasses.find? fun d => d.before.qualifiedName == name

def pairOfAfter? : Option ClassDelta :=
  delta.commonClasses.find? fun d => d.after.qualifiedName == name

def afterName : String :=
  match delta.pairOfBefore? name with
  | some d => d.after.qualifiedName
  | none => name

def isEmpty (delta : ModelDelta) : Bool :=
  delta.removedClasses.isEmpty && delta.addedClasses.isEmpty &&
    delta.commonClasses.all fun d => !d.hasChanges

end ModelDelta

end CodeEvolution
