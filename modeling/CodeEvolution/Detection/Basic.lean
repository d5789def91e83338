import CodeEvolution.Detection.Cache
import CodeEvolution.Model.OfUnit
import CodeEvolution.Refactoring.Run
/-!
# Detection of refactorings between two snapshots

The model of a snapshot is put together from the models of its files in order of path; files
that cannot be read are left out and reported. Models of files are kept in a cache, which changes
what happens on the way but not the answer.
-/
namespace CodeEvolution

structure SkippedFile where
  file : String
  reason : String
deriving DecidableEq, Repr

namespace SkippedFile

def toJson (s : SkippedFile) : Json :=
  .obj [("file", .str s.file), ("reason", .str s.reason)]

end SkippedFile

structure SnapshotModel where
  model : Model := {}
  skipped : List SkippedFile := []
deriving Repr

structure Detection where
  before : Model
  after : Model
  refactorings : List Refactoring
  unexplained : List DeltaKey
  skipped : List SkippedFile
deriving Repr

structure Traced (store : ModelStore) (α : Type) where
  value : α
  events : List Event
  cache : store.Cache

/-- A detector keeps models in some store; the program's own is the one of recent models. -/
structure Detector (store : ModelStore := .recent) where
  grammar : Grammar
  config : Config

namespace Detector

variable {store : ModelStore} (detector : Detector store) (cache : store.Cache)

def capacity : Nat :=
  if detector.config.modelCacheSize = 0 then 1000 else detector.config.modelCacheSize

def emptyCache : store.Cache :=
  store.ofCapacity detector.capacity

/-- The model of a file, from the cache if it was read before. A file that cannot be read is not
kept. -/
def buildFile (file : SourceFile) : Traced store (Except Failure Model) :=
  match store.lookUp cache (store.keyOf file) with
  | (some model, cache) => ⟨.ok model, [.cacheHit file.path], cache⟩
  | (none, cache) =>
    match CompilationUnit.ofSource detector.grammar file.path file.text with
    | .error failure => ⟨.error failure, [], cache⟩
    | .ok unit =>
      let model := Model.ofUnit unit
      ⟨.ok model, Model.eventsOfUnit unit ++ [.fileParsed file.path model.classes.length],
        store.put cache (store.keyOf file) model⟩

def addFile (snapshot : SnapshotModel) (path : String) (result : Except Failure Model) :
    SnapshotModel :=
  match result with
  | .ok model => { snapshot with model := snapshot.model.append model }
  | .error failure =>
    { snapshot with skipped := snapshot.skipped ++ [⟨path, failure.message⟩] }

def skipEvents (path : String) (result : Except Failure Model) : List Event :=
  match result with
  | .ok _ => []
  | .error failure => [.fileSkipped path failure.message]

def readFile (sofar : Traced store SnapshotModel) (file : SourceFile) :
    Traced store SnapshotModel :=
  let built := detector.buildFile sofar.cache file
  ⟨addFile sofar.value file.path built.value,
    sofar.events ++ built.events ++ skipEvents file.path built.value, built.cache⟩

def buildModel (snapshot : Snapshot) : Traced store SnapshotModel :=
  snapshot.files.foldl detector.readFile ⟨{}, [], cache⟩

def infer (before after : SnapshotModel) : Detection × List Event :=
  let delta := ModelDelta.ofModels detector.config before.model after.model
  let inference := Inference.run detector.config delta
  ({ before := before.model
     after := after.model
     refactorings := inference.refactorings
     unexplained := inference.unexplained
     skipped := before.skipped ++ after.skipped },
   delta.events ++ inference.events)

def detect (before after : Snapshot) : Traced store Detection :=
  let first := detector.buildModel cache before
  let second := detector.buildModel first.cache after
  let result := detector.infer first.value second.value
  ⟨result.1, first.events ++ second.events ++ result.2, second.cache⟩

end Detector

end CodeEvolution
