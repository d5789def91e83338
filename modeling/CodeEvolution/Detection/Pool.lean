import CodeEvolution.Detection.Basic
/-!
# Reading files at the same time

The files of a snapshot may be read by tasks that run at the same time on one cache, at most a given
number of them. A task looks its file up, reads it if it was not found, and keeps what it has read;
between these steps any other task may move. A task that has ended keeps its place in the pool until
its result is collected. What the tasks have found is put together in order of path once all are
collected, whatever the order of their moves was.
-/
namespace CodeEvolution

structure ReadingTask where
  place : Nat
  file : SourceFile
deriving DecidableEq, Repr

inductive ReadingStage where
  | spawned
  | missed
  | parsed (model : Model)
  | ended (result : Except Failure Model)

structure RunningTask where
  task : ReadingTask
  stage : ReadingStage := .spawned

structure FinishedTask where
  task : ReadingTask
  result : Except Failure Model

structure ReadingPool (store : ModelStore) where
  limit : Nat
  cache : store.Cache
  waiting : List ReadingTask
  running : List RunningTask := []
  finished : List FinishedTask := []

inductive PoolMove where
  | start
  | advance (position : Nat)
  | collect (position : Nat)
deriving DecidableEq, Repr

variable {store : ModelStore}

/-- A task takes a step. The cache is read or changed in one go; a task that has ended stays as it
is. -/
def ReadingStage.step (detector : Detector store) (cache : store.Cache) (file : SourceFile) :
    ReadingStage → store.Cache × ReadingStage
  | .spawned =>
    match store.lookUp cache (store.keyOf file) with
    | (some model, cache) => (cache, .ended (.ok model))
    | (none, cache) => (cache, .missed)
  | .missed =>
    match CompilationUnit.ofSource detector.grammar file.path file.text with
    | .error failure => (cache, .ended (.error failure))
    | .ok unit => (cache, .parsed (Model.ofUnit unit))
  | .parsed model => (store.put cache (store.keyOf file) model, .ended (.ok model))
  | .ended result => (cache, .ended result)

namespace ReadingPool

def ofSnapshot (limit : Nat) (cache : store.Cache) (snapshot : Snapshot) : ReadingPool store :=
  { limit := max limit 1
    cache
    waiting := snapshot.files.mapIdx fun place file => ⟨place, file⟩ }

def start (pool : ReadingPool store) : ReadingPool store :=
  match pool.waiting with
  | task :: waiting =>
    if pool.running.length < pool.limit then
      { pool with waiting, running := pool.running ++ [{ task }] }
    else pool
  | [] => pool

def advance (detector : Detector store) (pool : ReadingPool store) (position : Nat) :
    ReadingPool store :=
  match pool.running[position]? with
  | none => pool
  | some { task, stage } =>
    let next := stage.step detector pool.cache task.file
    { pool with
      cache := next.1
      running := pool.running.set position { task, stage := next.2 } }

def collect (pool : ReadingPool store) (position : Nat) : ReadingPool store :=
  match pool.running[position]? with
  | some { task, stage := .ended result } =>
    { pool with
      running := pool.running.eraseIdx position
      finished := pool.finished ++ [{ task, result }] }
  | _ => pool

/-- The pool after a move. A move that is not possible changes nothing. -/
def move (detector : Detector store) (pool : ReadingPool store) : PoolMove → ReadingPool store
  | .start => pool.start
  | .advance position => pool.advance detector position
  | .collect position => pool.collect position

def run (detector : Detector store) (pool : ReadingPool store) (schedule : List PoolMove) :
    ReadingPool store :=
  schedule.foldl (move detector) pool

def isDone (pool : ReadingPool store) : Bool :=
  pool.waiting.isEmpty && pool.running.isEmpty

def merged (pool : ReadingPool store) : SnapshotModel :=
  (pool.finished.mergeSort fun a b => a.task.place ≤ b.task.place).foldl
    (fun snapshot done => Detector.addFile snapshot done.task.file.path done.result) {}

def rounds (count : Nat) : List PoolMove :=
  (List.replicate count [PoolMove.start, .advance 0, .collect 0]).flatten

/-- A schedule that is long enough for some files: a task is started, takes at most three steps and
is collected. -/
def oldestFirst (files : Nat) : List PoolMove :=
  rounds (5 * files)

end ReadingPool

namespace Detector

def buildModelBySchedule (detector : Detector store) (cache : store.Cache) (snapshot : Snapshot)
    (schedule : List PoolMove) : SnapshotModel × store.Cache :=
  let pool := ReadingPool.ofSnapshot detector.config.maxConcurrency cache snapshot
  let done := pool.run detector schedule
  (done.merged, done.cache)

def detectBySchedule (detector : Detector store) (cache : store.Cache) (before after : Snapshot)
    (scheduleBefore scheduleAfter : List PoolMove) : Detection × store.Cache :=
  let first := detector.buildModelBySchedule cache before scheduleBefore
  let second := detector.buildModelBySchedule first.2 after scheduleAfter
  ((detector.infer first.1 second.1).1, second.2)

def detectConcurrently (detector : Detector store) (cache : store.Cache) (before after : Snapshot) :
    Detection × store.Cache :=
  detector.detectBySchedule cache before after
    (ReadingPool.oldestFirst before.files.length) (ReadingPool.oldestFirst after.files.length)

end Detector

end CodeEvolution
