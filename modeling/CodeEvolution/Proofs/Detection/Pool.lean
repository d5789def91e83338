import CodeEvolution.Detection.Pool
import CodeEvolution.Proofs.Detection.Session
/-!
# Reading at the same time gives the same model

Whatever the order in which the tasks of a pool move, a task that has ended has found what reading
its file on its own gives: a model is only kept under the key of its file, so a task that finds one
there may trust it. No task is lost on the way, and the results are put in order of place at the
end. Hence every schedule that gets all tasks done gives the model that reading file after file
gives. Every move that changes the pool brings it nearer to its end, and some move always does.
-/
namespace CodeEvolution

variable {stage : ReadingStage} (position : Nat) (snapshot : Snapshot) (move : PoolMove)

theorem exists_split_of_getElem? {α : Type} {l : List α} {i : Nat} {a : α} (h : l[i]? = some a) :
    ∃ front back, l = front ++ a :: back ∧ front.length = i := by
  obtain ⟨hi, rfl⟩ := List.getElem?_eq_some_iff.mp h
  refine ⟨l.take i, l.drop (i + 1), ?_, List.length_take_of_le (Nat.le_of_lt hi)⟩
  rw [← List.drop_eq_getElem_cons hi, List.take_append_drop]

section Pools

variable {store : ModelStore} {cache : store.Cache}

namespace ReadingPool

/-- What a move may make of a pool. -/
inductive Effect (detector : Detector store) (pool : ReadingPool store) :
    ReadingPool store → Prop
  | nothing : Effect detector pool pool
  | start {task : ReadingTask} {waiting : List ReadingTask}
      (hwaiting : pool.waiting = task :: waiting) (hroom : pool.running.length < pool.limit) :
      Effect detector pool { pool with waiting, running := pool.running ++ [{ task }] }
  | advance {front back : List RunningTask} {task : ReadingTask} {stage : ReadingStage}
      (hrunning : pool.running = front ++ ⟨task, stage⟩ :: back) :
      Effect detector pool
        { pool with
          cache := (stage.step detector pool.cache task.file).1
          running := front ++ ⟨task, (stage.step detector pool.cache task.file).2⟩ :: back }
  | collect {front back : List RunningTask} {task : ReadingTask} {result : Except Failure Model}
      (hrunning : pool.running = front ++ ⟨task, .ended result⟩ :: back) :
      Effect detector pool
        { pool with
          running := front ++ back
          finished := pool.finished ++ [⟨task, result⟩] }

variable {detector : Detector store} {pool : ReadingPool store}

theorem start_effect : Effect detector pool pool.start := by
  unfold start
  split
  · rename_i task waiting hwaiting
    split
    · rename_i hroom
      exact .start hwaiting hroom
    · exact .nothing
  · exact .nothing

theorem advance_effect : Effect detector pool (pool.advance detector position) := by
  unfold advance
  split
  · exact .nothing
  · rename_i task stage hget
    obtain ⟨front, back, hrunning, rfl⟩ := exists_split_of_getElem? hget
    have hset : ∀ next, pool.running.set front.length next = front ++ next :: back := by
      simp [hrunning]
    simp only [hset]
    exact .advance hrunning

theorem collect_effect : Effect detector pool (pool.collect position) := by
  unfold collect
  split
  · rename_i task result hget
    obtain ⟨front, back, hrunning, rfl⟩ := exists_split_of_getElem? hget
    have herase : pool.running.eraseIdx front.length = front ++ back := by
      simp [hrunning, List.eraseIdx_append_of_length_le]
    rw [herase]
    exact .collect hrunning
  · exact .nothing

theorem move_effect : Effect detector pool (pool.move detector move) := by
  cases move with
  | start => exact start_effect
  | advance position => exact advance_effect position
  | collect position => exact collect_effect position

end ReadingPool

def ReadingStage.Agrees (detector : Detector store) (file : SourceFile) : ReadingStage → Prop
  | .spawned => True
  | .missed => True
  | .parsed model => detector.read file = .ok model
  | .ended result => detector.read file = result

theorem ReadingStage.step_agrees {kind : SourceFile → Prop} (hfinds : store.FindsLastPut)
    (hapart : store.KeyedApart kind) {detector : Detector store} {file : SourceFile}
    (hcache : detector.Keeps kind cache) (hfile : kind file) (h : stage.Agrees detector file) :
    detector.Keeps kind (stage.step detector cache file).1 ∧
      (stage.step detector cache file).2.Agrees detector file := by
  cases stage with
  | spawned =>
    have hkeeps := hcache.lookUp (store.keyOf file)
    cases hfound : store.lookUp cache (store.keyOf file) with
    | mk found next =>
      rw [hfound] at hkeeps
      cases found with
      | some model =>
        simp only [step, hfound]
        exact ⟨hkeeps, hcache.read_of_lookUp hfinds hapart hfile (by rw [hfound])⟩
      | none =>
        simp only [step, hfound]
        exact ⟨hkeeps, trivial⟩
  | missed =>
    cases hsource : CompilationUnit.ofSource detector.grammar file.path file.text with
    | error failure =>
      simp only [step, hsource]
      exact ⟨hcache, by simp [Agrees, Detector.read, hsource, Except.map]⟩
    | ok unit =>
      simp only [step, hsource]
      exact ⟨hcache, by simp [Agrees, Detector.read, hsource, Except.map]⟩
  | parsed model => exact ⟨hcache.put hfile h, h⟩
  | ended result => exact ⟨hcache, h⟩

namespace ReadingPool

/-- No task of a pool is lost, and what the tasks know is right. -/
structure IsSound (detector : Detector store) (kind : SourceFile → Prop)
    (tasks : List ReadingTask) (pool : ReadingPool store) : Prop where
  keeps : detector.Keeps kind pool.cache
  tasks : (pool.finished.map FinishedTask.task ++ pool.running.map RunningTask.task ++
    pool.waiting).Perm tasks
  running : ∀ r ∈ pool.running, r.stage.Agrees detector r.task.file
  finished : ∀ f ∈ pool.finished, f.result = detector.read f.task.file

section Sound

variable {detector : Detector store} {kind : SourceFile → Prop} {pool next : ReadingPool store}
  {tasks : List ReadingTask} (hfinds : store.FindsLastPut) (hapart : store.KeyedApart kind)
  (hfiles : ∀ task ∈ tasks, kind task.file)

include hfinds hapart hfiles

theorem Effect.isSound (heffect : Effect detector pool next)
    (h : pool.IsSound detector kind tasks) : next.IsSound detector kind tasks := by
  cases heffect with
  | nothing => exact h
  | @start task waiting hwaiting hroom =>
    refine ⟨h.keeps, ?_, ?_, h.finished⟩
    · have htasks := h.tasks
      rw [hwaiting] at htasks
      simpa using htasks
    · intro r hr
      rcases List.mem_append.mp hr with hr | hr
      · exact h.running r hr
      · obtain rfl := List.mem_singleton.mp hr
        trivial
  | @advance front back task stage hrunning =>
    have hmem : (⟨task, stage⟩ : RunningTask) ∈ pool.running := by simp [hrunning]
    have htask : task ∈ tasks := h.tasks.subset (by simp [hrunning])
    obtain ⟨hcache, hagrees⟩ := ReadingStage.step_agrees hfinds hapart h.keeps
      (hfiles task htask) (h.running _ hmem)
    refine ⟨hcache, ?_, ?_, h.finished⟩
    · have htasks := h.tasks
      rw [hrunning] at htasks
      simpa using htasks
    · intro r hr
      rcases List.mem_append.mp hr with hr | hr
      · exact h.running r (hrunning ▸ List.mem_append_left _ hr)
      · rcases List.mem_cons.mp hr with rfl | hr
        · exact hagrees
        · exact h.running r (hrunning ▸ List.mem_append_right _ (List.mem_cons_of_mem _ hr))
  | @collect front back task result hrunning =>
    have hmem : (⟨task, .ended result⟩ : RunningTask) ∈ pool.running := by simp [hrunning]
    refine ⟨h.keeps, ?_, ?_, ?_⟩
    · refine List.Perm.trans ?_ h.tasks
      -- The task that is collected leaves its place between the others and comes before them.
      have hmoved : (task :: (front ++ back).map RunningTask.task).Perm
          (pool.running.map RunningTask.task) := by
        rw [hrunning, List.map_append, List.map_append]
        exact List.perm_middle.symm
      have hjoined := (hmoved.append_left (pool.finished.map FinishedTask.task)).append_right
        pool.waiting
      simpa using hjoined
    · intro r hr
      apply h.running r
      rw [hrunning]
      rcases List.mem_append.mp hr with hr | hr
      · exact List.mem_append_left _ hr
      · exact List.mem_append_right _ (List.mem_cons_of_mem _ hr)
    · intro f hf
      rcases List.mem_append.mp hf with hf | hf
      · exact h.finished f hf
      · obtain rfl := List.mem_singleton.mp hf
        exact (h.running _ hmem).symm

theorem IsSound.run (h : pool.IsSound detector kind tasks) (schedule : List PoolMove) :
    (pool.run detector schedule).IsSound detector kind tasks := by
  induction schedule generalizing pool with
  | nil => exact h
  | cons move rest ih => exact ih ((move_effect move).isSound hfinds hapart hfiles h)

end Sound

variable {detector : Detector store} {kind : SourceFile → Prop} {pool : ReadingPool store}

def tasksOf (snapshot : Snapshot) : List ReadingTask :=
  snapshot.files.mapIdx ReadingTask.mk

theorem tasksOf_files : (tasksOf snapshot).map ReadingTask.file = snapshot.files := by
  apply List.ext_getElem <;> simp [tasksOf]

theorem tasksOf_places :
    (tasksOf snapshot).map ReadingTask.place = List.range snapshot.files.length := by
  apply List.ext_getElem <;> simp [tasksOf]

theorem ofSnapshot_isSound (limit : Nat) (hcache : detector.Keeps kind cache)
    (snapshot : Snapshot) :
    (ofSnapshot limit cache snapshot).IsSound detector kind (tasksOf snapshot) where
  keeps := hcache
  tasks := List.Perm.refl _
  running := by simp [ofSnapshot]
  finished := by simp [ofSnapshot]

theorem foldl_addFile_of_read {done : List FinishedTask}
    (h : ∀ f ∈ done, f.result = detector.read f.task.file) (sofar : SnapshotModel) :
    done.foldl (fun snapshot f => Detector.addFile snapshot f.task.file.path f.result) sofar =
      (done.map fun f => f.task.file).foldl
        (fun snapshot file => Detector.addFile snapshot file.path (detector.read file)) sofar := by
  induction done generalizing sofar with
  | nil => rfl
  | cons f rest ih =>
    rw [List.foldl_cons, List.map_cons, List.foldl_cons, h f List.mem_cons_self]
    exact ih (fun g hg => h g (List.mem_cons_of_mem _ hg)) _

theorem IsSound.merged_eq {snapshot : Snapshot}
    (h : pool.IsSound detector kind (tasksOf snapshot)) (hdone : pool.isDone = true) :
    pool.merged = detector.readAll snapshot := by
  obtain ⟨hwaiting, hrunning⟩ : pool.waiting = [] ∧ pool.running = [] := by
    simpa [isDone] using hdone
  have hperm : (pool.finished.map FinishedTask.task).Perm (tasksOf snapshot) := by
    simpa [hwaiting, hrunning] using h.tasks
  let sorted := pool.finished.mergeSort fun a b => a.task.place ≤ b.task.place
  have hsorted : sorted.Perm pool.finished := List.mergeSort_perm _ _
  have hall := (hsorted.map FinishedTask.task).trans hperm
  have hplaces : ((tasksOf snapshot).map ReadingTask.place).Pairwise (· < ·) := by
    rw [tasksOf_places]
    exact List.pairwise_lt_range
  have hlisted : (tasksOf snapshot).Pairwise fun a b => a.place ≤ b.place :=
    (List.pairwise_map.mp hplaces).imp Nat.le_of_lt
  have hordered : (sorted.map FinishedTask.task).Pairwise fun a b => a.place ≤ b.place := by
    rw [List.pairwise_map]
    refine List.Pairwise.imp of_decide_eq_true (List.pairwise_mergeSort ?_ ?_ pool.finished)
    · intro a b c hab hbc
      exact decide_eq_true (Nat.le_trans (of_decide_eq_true hab) (of_decide_eq_true hbc))
    · intro a b
      simpa using Nat.le_total a.task.place b.task.place
  -- Places are different, so there is one way to list the tasks by place.
  have htasks : sorted.map FinishedTask.task = tasksOf snapshot := by
    refine hall.eq_of_pairwise ?_ hordered hlisted
    intro a b ha hb hab hba
    exact List.inj_on_of_nodup_map (hplaces.imp Nat.ne_of_lt) (hall.subset ha) hb
      (Nat.le_antisymm hab hba)
  have hread : ∀ f ∈ sorted, f.result = detector.read f.task.file :=
    fun f hf => h.finished f (hsorted.subset hf)
  have hfiles : (sorted.map fun f => f.task.file) = snapshot.files := by
    rw [← tasksOf_files snapshot, ← htasks, List.map_map]
    rfl
  calc pool.merged
      = (sorted.map fun f => f.task.file).foldl
          (fun snapshot file => Detector.addFile snapshot file.path (detector.read file)) {} :=
        foldl_addFile_of_read hread {}
    _ = detector.readAll snapshot := by rw [hfiles]; rfl

end ReadingPool

/-- The most moves that a task at a stage still makes, its collection included. -/
def ReadingStage.movesLeft : ReadingStage → Nat
  | .spawned => 4
  | .missed => 3
  | .parsed _ => 2
  | .ended _ => 1

theorem ReadingStage.step_movesLeft_lt (detector : Detector store) (cache : store.Cache)
    (file : SourceFile) (h : 1 < stage.movesLeft) :
    (stage.step detector cache file).2.movesLeft < stage.movesLeft := by
  cases stage with
  | spawned =>
    rcases hfound : store.lookUp cache (store.keyOf file) with ⟨_ | model, next⟩ <;>
      simp [step, hfound, movesLeft]
  | missed =>
    cases hsource : CompilationUnit.ofSource detector.grammar file.path file.text <;>
      simp [step, hsource, movesLeft]
  | parsed model => simp [step, movesLeft]
  | ended result => simp [movesLeft] at h

namespace ReadingPool

def movesLeft (pool : ReadingPool store) : Nat :=
  5 * pool.waiting.length + (pool.running.map fun r => r.stage.movesLeft).sum

variable {detector : Detector store} {pool next : ReadingPool store}

theorem isDone_iff : pool.isDone = true ↔ pool.movesLeft = 0 := by
  have hstage : ∀ r : RunningTask, r.stage.movesLeft ≠ 0 := by
    intro r
    cases r.stage <;> simp [ReadingStage.movesLeft]
  cases hwaiting : pool.waiting <;> cases hrunning : pool.running <;>
    simp [isDone, movesLeft, hwaiting, hrunning, hstage]

theorem Effect.limit (h : Effect detector pool next) : next.limit = pool.limit := by
  cases h <;> rfl

theorem Effect.movesLeft_lt (h : Effect detector pool next) :
    next = pool ∨ next.movesLeft < pool.movesLeft := by
  cases h with
  | nothing => exact Or.inl rfl
  | @start task waiting hwaiting hroom =>
    right
    simp [movesLeft, hwaiting, ReadingStage.movesLeft]
    omega
  | @advance front back task stage hrunning =>
    by_cases hended : 1 < stage.movesLeft
    · right
      have hstep := ReadingStage.step_movesLeft_lt detector pool.cache task.file hended
      simp [movesLeft, hrunning]
      omega
    · -- A task that has ended takes no further step.
      left
      cases stage with
      | ended result => simp [ReadingStage.step, ← hrunning]
      | _ => simp [ReadingStage.movesLeft] at hended
  | @collect front back task result hrunning =>
    right
    simp [movesLeft, hrunning, ReadingStage.movesLeft]

theorem move_movesLeft_le (detector : Detector store) (pool : ReadingPool store) (move : PoolMove) :
    (pool.move detector move).movesLeft ≤ pool.movesLeft := by
  rcases (move_effect move : Effect detector pool _).movesLeft_lt with h | h
  · exact Nat.le_of_eq (congrArg movesLeft h)
  · exact Nat.le_of_lt h

theorem start_running (pool : ReadingPool store) :
    ∃ more, pool.start.running = pool.running ++ more := by
  unfold start
  split
  · split
    · exact ⟨_, rfl⟩
    · exact ⟨[], (List.append_nil _).symm⟩
  · exact ⟨[], (List.append_nil _).symm⟩

theorem oldest_movesLeft_lt (detector : Detector store) {r : RunningTask} {rest : List RunningTask}
    (hrunning : pool.running = r :: rest) :
    ((pool.advance detector 0).collect 0).movesLeft < pool.movesLeft := by
  obtain ⟨task, stage⟩ := r
  by_cases hended : 1 < stage.movesLeft
  · have hcollect := move_movesLeft_le detector (pool.advance detector 0) (.collect 0)
    have hstep := ReadingStage.step_movesLeft_lt detector pool.cache task.file hended
    refine Nat.lt_of_le_of_lt hcollect ?_
    simpa [advance, hrunning, movesLeft] using hstep
  · cases stage with
    | ended result =>
      simp [advance, collect, hrunning, ReadingStage.step, movesLeft, ReadingStage.movesLeft]
    | _ => simp [ReadingStage.movesLeft] at hended

/-- A round leaves fewer moves, unless there is none left. -/
theorem round_movesLeft_le (detector : Detector store) (hlimit : 0 < pool.limit) :
    (pool.run detector [.start, .advance 0, .collect 0]).movesLeft ≤ pool.movesLeft - 1 := by
  change ((pool.start.advance detector 0).collect 0).movesLeft ≤ pool.movesLeft - 1
  cases hrunning : pool.running with
  | cons r rest =>
    obtain ⟨more, hmore⟩ := start_running pool
    rw [hrunning, List.cons_append] at hmore
    have hlt := oldest_movesLeft_lt detector hmore
    have hstart : pool.start.movesLeft ≤ pool.movesLeft := move_movesLeft_le detector pool .start
    omega
  | nil =>
    cases hwaiting : pool.waiting with
    | nil => simp [start, advance, collect, hrunning, hwaiting, movesLeft]
    | cons task waiting =>
      have hadvance := move_movesLeft_le detector pool.start (.advance 0)
      have hcollect := move_movesLeft_le detector (pool.start.advance detector 0) (.collect 0)
      have hlt : pool.start.movesLeft = pool.movesLeft - 1 := by
        simp [start, hrunning, hwaiting, hlimit, movesLeft, ReadingStage.movesLeft]
        omega
      calc _ ≤ (pool.start.advance detector 0).movesLeft := hcollect
        _ ≤ pool.start.movesLeft := hadvance
        _ = pool.movesLeft - 1 := hlt

theorem run_append (first second : List PoolMove) :
    pool.run detector (first ++ second) = (pool.run detector first).run detector second :=
  List.foldl_append

theorem run_limit (detector : Detector store) (pool : ReadingPool store)
    (schedule : List PoolMove) :
    (pool.run detector schedule).limit = pool.limit := by
  induction schedule generalizing pool with
  | nil => rfl
  | cons move rest ih => exact (ih _).trans (move_effect move).limit

theorem run_rounds_movesLeft_le (detector : Detector store) (hlimit : 0 < pool.limit)
    (count : Nat) :
    (pool.run detector (rounds count)).movesLeft ≤ pool.movesLeft - count := by
  induction count generalizing pool with
  | zero => exact le_rfl
  | succ count ih =>
    have hround := round_movesLeft_le detector hlimit
    have hrounds : rounds (count + 1) = [.start, .advance 0, .collect 0] ++ rounds count := rfl
    rw [hrounds, run_append]
    have hrest := ih ((run_limit detector pool [.start, .advance 0, .collect 0]).symm ▸ hlimit)
    omega

theorem run_rounds_isDone (hlimit : 0 < pool.limit) {count : Nat}
    (hcount : pool.movesLeft ≤ count) : (pool.run detector (rounds count)).isDone = true := by
  have hleft := run_rounds_movesLeft_le detector hlimit count
  exact isDone_iff.mpr (by omega)

theorem ofSnapshot_movesLeft (limit : Nat) (cache : store.Cache) (snapshot : Snapshot) :
    (ofSnapshot limit cache snapshot).movesLeft = 5 * snapshot.files.length := by
  simp [ofSnapshot, movesLeft]

end ReadingPool

namespace Detector

variable (detector : Detector store) (cache : store.Cache) (snapshot : Snapshot)

/-- A cache that a detector may have: it was empty at first, then requests were answered and
snapshots were read by pools, to the end or not, all of files of a kind. -/
inductive Reaches (detector : Detector store) (kind : SourceFile → Prop) : store.Cache → Prop
  | fresh : Reaches detector kind detector.emptyCache
  | answered {cache : store.Cache} {request : Request} (hcache : Reaches detector kind cache)
      (hfiles : ∀ file ∈ request.files, kind file) :
      Reaches detector kind (detector.answer cache request).2
  | scheduled {cache : store.Cache} {snapshot : Snapshot} (hcache : Reaches detector kind cache)
      (hfiles : ∀ file ∈ snapshot.files, kind file) (schedule : List PoolMove) :
      Reaches detector kind (detector.buildModelBySchedule cache snapshot schedule).2

def poolFor (detector : Detector store) (cache : store.Cache) (snapshot : Snapshot) :
    ReadingPool store :=
  .ofSnapshot detector.config.maxConcurrency cache snapshot

def Completes (detector : Detector store) (cache : store.Cache) (snapshot : Snapshot)
    (schedule : List PoolMove) : Prop :=
  ((detector.poolFor cache snapshot).run detector schedule).isDone = true

section Schedules

variable {detector : Detector store} {kind : SourceFile → Prop} {cache : store.Cache}
  {snapshot : Snapshot} (hfinds : store.FindsLastPut) (hapart : store.KeyedApart kind)

include hfinds hapart

theorem poolFor_run_isSound (hcache : detector.Keeps kind cache)
    (hfiles : ∀ file ∈ snapshot.files, kind file) (schedule : List PoolMove) :
    ((detector.poolFor cache snapshot).run detector schedule).IsSound detector kind
      (ReadingPool.tasksOf snapshot) := by
  apply (ReadingPool.ofSnapshot_isSound _ hcache snapshot).run hfinds hapart
  intro task htask
  apply hfiles
  rw [← ReadingPool.tasksOf_files snapshot]
  exact List.mem_map_of_mem htask

theorem Reaches.keeps (h : detector.Reaches kind cache) : detector.Keeps kind cache := by
  induction h with
  | fresh => exact keeps_emptyCache detector kind
  | answered _ hfiles ih => exact (answer_spec hfinds hapart ih hfiles).2
  | scheduled _ hfiles schedule ih =>
    exact (poolFor_run_isSound hfinds hapart ih hfiles schedule).keeps

theorem buildModelBySchedule_eq_readAll (hcache : detector.Keeps kind cache)
    (hfiles : ∀ file ∈ snapshot.files, kind file) {schedule : List PoolMove}
    (hdone : detector.Completes cache snapshot schedule) :
    (detector.buildModelBySchedule cache snapshot schedule).1 = detector.readAll snapshot :=
  (poolFor_run_isSound hfinds hapart hcache hfiles schedule).merged_eq hdone

theorem detectBySchedule_eq_detect (hcache : detector.Keeps kind cache) {before after : Snapshot}
    (hbefore : ∀ file ∈ before.files, kind file) (hafter : ∀ file ∈ after.files, kind file)
    {first second : List PoolMove} (hfirst : detector.Completes cache before first)
    (hsecond : detector.Completes (detector.buildModelBySchedule cache before first).2 after
      second) :
    (detector.detectBySchedule cache before after first second).1 =
      (detector.detect cache before after).value := by
  have hbetween : detector.Keeps kind (detector.buildModelBySchedule cache before first).2 :=
    (poolFor_run_isSound hfinds hapart hcache hbefore first).keeps
  have hmodel := buildModelBySchedule_eq_readAll hfinds hapart hcache hbefore hfirst
  have hmodel' := buildModelBySchedule_eq_readAll hfinds hapart hbetween hafter hsecond
  have hplain := buildModel_value hfinds hapart hbefore hcache
  have hplain' := buildModel_value hfinds hapart hafter
    (buildModel_keeps hfinds hapart hbefore hcache)
  simp only [detectBySchedule, detect, hmodel, hmodel', hplain, hplain']

end Schedules

theorem poolFor_limit_pos : 0 < (detector.poolFor cache snapshot).limit :=
  Nat.le_max_right _ 1

theorem exists_completes (schedule : List PoolMove) :
    ∃ rest, detector.Completes cache snapshot (schedule ++ rest) := by
  let pool := (detector.poolFor cache snapshot).run detector schedule
  refine ⟨ReadingPool.rounds pool.movesLeft, ?_⟩
  rw [Completes, ReadingPool.run_append]
  apply ReadingPool.run_rounds_isDone _ le_rfl
  rw [ReadingPool.run_limit]
  exact detector.poolFor_limit_pos cache snapshot

theorem oldestFirst_completes :
    detector.Completes cache snapshot (ReadingPool.oldestFirst snapshot.files.length) :=
  ReadingPool.run_rounds_isDone (detector.poolFor_limit_pos cache snapshot)
    (Nat.le_of_eq (ReadingPool.ofSnapshot_movesLeft _ _ _))

/-- Let a store find what was last put, let the digests of files of a kind not collide and their
paths hold no NUL, and let a detector have got to some cache, by whatever it did before with such
files. Whenever a pool has read all files of a snapshot, by any schedule, it has found the model and
the failures that reading file after file finds, and so the same is detected between two snapshots.
Every schedule can be carried to its end, and on the way every move that changes the pool leaves
fewer moves. -/
theorem schedules_eq_sequential (hfinds : store.FindsLastPut) {kind : SourceFile → Prop}
    (hcollision : store.NoCollision kind) (hplain : ∀ file, kind file → file.HasPlainPath)
    (detector : Detector store) (cache : store.Cache) (hcache : detector.Reaches kind cache)
    (before after : Snapshot) (hbefore : ∀ file ∈ before.files, kind file)
    (hafter : ∀ file ∈ after.files, kind file) :
    (∀ schedule, detector.Completes cache before schedule →
        (detector.buildModelBySchedule cache before schedule).1 =
          (detector.buildModel cache before).value) ∧
      (∀ first second, detector.Completes cache before first →
        detector.Completes (detector.buildModelBySchedule cache before first).2 after second →
          (detector.detectBySchedule cache before after first second).1 =
            (detector.detect cache before after).value) ∧
      (∀ schedule, ∃ rest, detector.Completes cache before (schedule ++ rest)) ∧
      (∀ schedule move,
        let pool := (detector.poolFor cache before).run detector schedule
        pool.move detector move = pool ∨ (pool.move detector move).movesLeft < pool.movesLeft) ∧
      (detector.detectConcurrently cache before after).1 =
        (detector.detect cache before after).value := by
  have hapart := hcollision.keyedApart hplain
  have hkeeps := hcache.keeps hfinds hapart
  refine ⟨?_, ?_, detector.exists_completes cache before, ?_, ?_⟩
  · intro schedule hdone
    rw [buildModelBySchedule_eq_readAll hfinds hapart hkeeps hbefore hdone,
      buildModel_value hfinds hapart hbefore hkeeps]
  · intro first second hfirst hsecond
    exact detectBySchedule_eq_detect hfinds hapart hkeeps hbefore hafter hfirst hsecond
  · exact fun schedule move => (ReadingPool.move_effect move).movesLeft_lt
  · exact detectBySchedule_eq_detect hfinds hapart hkeeps hbefore hafter
      (detector.oldestFirst_completes _ _) (detector.oldestFirst_completes _ _)

end Detector

end Pools

namespace TwiceDecorated

/-- The cache with room for one model, after one file was asked for. -/
def usedCache : store.Cache :=
  (crowded.answer crowded.emptyCache (.file file)).2

/-- Three tasks start, and the last one moves first. -/
def interleaved : List PoolMove :=
  [.start, .start, .start, .advance 2, .advance 0, .advance 1, .advance 2, .collect 2, .advance 1]

end TwiceDecorated

open TwiceDecorated in
theorem Detector.schedules_eq_sequential_interleaved :
    store.FindsLastPut ∧ store.NoCollision (· ∈ files) ∧ (∀ file ∈ files, file.HasPlainPath) ∧
      crowded.Reaches (· ∈ files) usedCache ∧
      ∃ rest, crowded.Completes usedCache ⟨files⟩ (interleaved ++ rest) ∧
        (crowded.buildModelBySchedule usedCache ⟨files⟩ (interleaved ++ rest)).1 =
          (crowded.buildModel usedCache ⟨files⟩).value := by
  have hfinds : store.FindsLastPut := ModelStore.recent_findsLastPut digest
  have hreached : crowded.Reaches (· ∈ files) usedCache := .answered .fresh (by decide +kernel)
  obtain ⟨hsame, -, hcomplete, -⟩ := Detector.schedules_eq_sequential hfinds store_noCollision
    files_plain crowded usedCache hreached ⟨files⟩ ⟨files⟩ (fun _ hfile => hfile)
    (fun _ hfile => hfile)
  obtain ⟨rest, hrest⟩ := hcomplete interleaved
  exact ⟨hfinds, store_noCollision, files_plain, hreached, rest, hrest, hsame _ hrest⟩

end CodeEvolution
