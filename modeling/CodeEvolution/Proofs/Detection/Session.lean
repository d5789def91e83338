import CodeEvolution.Proofs.Detection.SameSnapshot
/-!
# Requests one after another

A detector keeps its cache from one request to the next. Where no path holds a NUL and no digests
collide the cache does not show: every answer is the one that a detector with an empty cache gives,
the model of a snapshot is made of the models of its files in order of path, a file that cannot be
read is never kept, and the cache stays within its capacity. What one request keeps true of the
cache is shown first, then what any number of them do.
-/
namespace CodeEvolution

namespace Snapshot

variable {file other : SourceFile} {files : List SourceFile}

theorem mem_insertFile (h : other ∈ insertFile file files) : other = file ∨ other ∈ files := by
  induction files with
  | nil => simpa [insertFile] using h
  | cons first rest ih =>
    unfold insertFile at h
    split at h
    · rcases List.mem_cons.mp h with h | h
      · exact Or.inl h
      · exact Or.inr (List.mem_cons_of_mem _ h)
    · split at h
      · exact List.mem_cons.mp h
      · rcases List.mem_cons.mp h with h | h
        · exact Or.inr (h ▸ List.mem_cons_self)
        · exact (ih h).imp_right (List.mem_cons_of_mem _)

theorem insertFile_pairwise (h : files.Pairwise fun f g => f.path < g.path) :
    (insertFile file files).Pairwise fun f g => f.path < g.path := by
  induction files with
  | nil => exact List.pairwise_singleton _ _
  | cons first rest ih =>
    obtain ⟨hfirst, hrest⟩ := List.pairwise_cons.mp h
    unfold insertFile
    split
    · rename_i hpath
      exact List.pairwise_cons.mpr ⟨fun g hg => hpath ▸ hfirst g hg, hrest⟩
    · rename_i hpath
      split
      · rename_i hlt
        refine List.pairwise_cons.mpr ⟨fun g hg => ?_, h⟩
        rcases List.mem_cons.mp hg with rfl | hg
        · exact hlt
        · exact String.lt_trans hlt (hfirst g hg)
      · rename_i hlt
        have hbefore : first.path < file.path := by
          have hle := String.not_lt.mp hlt
          exact String.not_le.mp fun hge => hpath (String.le_antisymm hge hle)
        refine List.pairwise_cons.mpr ⟨fun g hg => ?_, ih hrest⟩
        rcases mem_insertFile hg with rfl | hg
        · exact hbefore
        · exact hfirst g hg

theorem ofFiles_pairwise (files : List SourceFile) :
    (ofFiles files).files.Pairwise fun f g => f.path < g.path := by
  have hrun : ∀ (files : List SourceFile) (snapshot : Snapshot),
      (snapshot.files.Pairwise fun f g => f.path < g.path) →
        (files.foldl insert snapshot).files.Pairwise fun f g => f.path < g.path := by
    intro files
    induction files with
    | nil => exact fun _ h => h
    | cons file rest ih => exact fun snapshot h => ih _ (insertFile_pairwise h)
  exact hrun files {} List.Pairwise.nil

end Snapshot

def Model.concat (models : List Model) : Model :=
  ⟨models.flatMap Model.classes, models.flatMap Model.imports⟩

namespace Detector

variable {store : ModelStore}

def modelsOf (detector : Detector store) (snapshot : Snapshot) : List Model :=
  snapshot.files.filterMap fun file => (detector.read file).toOption

def failuresOf (detector : Detector store) (snapshot : Snapshot) : List SkippedFile :=
  snapshot.files.filterMap fun file =>
    match detector.read file with
    | .ok _ => none
    | .error failure => some ⟨file.path, failure.message⟩

theorem readAll_eq (detector : Detector store) (snapshot : Snapshot) :
    detector.readAll snapshot =
      ⟨Model.concat (detector.modelsOf snapshot), detector.failuresOf snapshot⟩ := by
  -- The induction leaves open what the files before have given.
  have hrun : ∀ (files : List SourceFile) (sofar : SnapshotModel),
      files.foldl (fun sofar file => addFile sofar file.path (detector.read file)) sofar =
        ⟨sofar.model.append (Model.concat (detector.modelsOf ⟨files⟩)),
          sofar.skipped ++ detector.failuresOf ⟨files⟩⟩ := by
    intro files
    induction files with
    | nil => intro sofar; simp [modelsOf, failuresOf, Model.concat, Model.append]
    | cons file rest ih =>
      intro sofar
      rw [List.foldl_cons, ih]
      cases hread : detector.read file with
      | error failure =>
        simp [addFile, modelsOf, failuresOf, hread, Except.toOption]
      | ok model =>
        simp [addFile, modelsOf, failuresOf, hread, Except.toOption, Model.concat, Model.append]
  exact hrun snapshot.files {}

end Detector

inductive Request where
  | file (file : SourceFile)
  | model (snapshot : Snapshot)
  | detection (before after : Snapshot)

inductive Answer where
  | file (result : Except Failure Model)
  | model (snapshot : SnapshotModel)
  | detection (detection : Detection)

namespace Request

def files : Request → List SourceFile
  | .file source => [source]
  | .model snapshot => snapshot.files
  | .detection before after => before.files ++ after.files

end Request

namespace Detector

variable {store : ModelStore}

def answer (detector : Detector store) (cache : store.Cache) : Request → Answer × store.Cache
  | .file file =>
    let built := detector.buildFile cache file
    (.file built.value, built.cache)
  | .model snapshot =>
    let built := detector.buildModel cache snapshot
    (.model built.value, built.cache)
  | .detection before after =>
    let found := detector.detect cache before after
    (.detection found.value, found.cache)

def session (detector : Detector store) (cache : store.Cache) :
    List Request → List Answer × store.Cache
  | [] => ([], cache)
  | request :: rest =>
    let first := detector.answer cache request
    let others := detector.session first.2 rest
    (first.1 :: others.1, others.2)

/-- The answer to a request whose files are all read on their own. -/
def plainAnswer (detector : Detector store) : Request → Answer
  | .file file => .file (detector.read file)
  | .model snapshot => .model (detector.readAll snapshot)
  | .detection before after =>
    .detection (detector.infer (detector.readAll before) (detector.readAll after)).1

section Runs

variable {detector : Detector store} {kind : SourceFile → Prop} {cache : store.Cache}
  {request : Request} {requests : List Request} (hfinds : store.FindsLastPut)
  (hapart : store.KeyedApart kind)

include hfinds hapart

theorem answer_spec (h : detector.Keeps kind cache) (hfiles : ∀ file ∈ request.files, kind file) :
    (detector.answer cache request).1 = detector.plainAnswer request ∧
      detector.Keeps kind (detector.answer cache request).2 := by
  cases request with
  | file file =>
    obtain ⟨hvalue, hkeeps⟩ :=
      buildFile_spec hfinds hapart h (hfiles file (List.mem_singleton_self file))
    exact ⟨congrArg Answer.file hvalue, hkeeps⟩
  | model snapshot =>
    exact ⟨congrArg Answer.model (buildModel_value hfinds hapart hfiles h),
      buildModel_keeps hfinds hapart hfiles h⟩
  | detection before after =>
    obtain ⟨hbefore, hafter⟩ := List.forall_mem_append.mp hfiles
    have hbetween := buildModel_keeps hfinds hapart hbefore h
    refine ⟨?_, buildModel_keeps hfinds hapart hafter hbetween⟩
    simp only [answer, detect, plainAnswer, buildModel_value hfinds hapart hbefore h,
      buildModel_value hfinds hapart hafter hbetween]

theorem session_spec (h : detector.Keeps kind cache)
    (hfiles : ∀ request ∈ requests, ∀ file ∈ request.files, kind file) :
    (detector.session cache requests).1 = requests.map detector.plainAnswer ∧
      detector.Keeps kind (detector.session cache requests).2 := by
  induction requests generalizing cache with
  | nil => exact ⟨rfl, h⟩
  | cons request rest ih =>
    obtain ⟨hanswer, hnext⟩ := answer_spec hfinds hapart h (hfiles request List.mem_cons_self)
    obtain ⟨hanswers, hkeeps⟩ := ih hnext fun other hother =>
      hfiles other (List.mem_cons_of_mem _ hother)
    exact ⟨congrArg₂ List.cons hanswer hanswers, hkeeps⟩

end Runs

/-- A file is not found in a cache, and nothing was ever put under its key. -/
def NeverKept (detector : Detector store) (cache : store.Cache) (file : SourceFile) : Prop :=
  (store.lookUp cache (store.keyOf file)).1 = none ∧
    ∃ accesses, cache = store.after detector.capacity accesses ∧
      ∀ model, .put (store.keyOf file) model ∉ accesses

theorem Keeps.neverKept {detector : Detector store} {kind : SourceFile → Prop}
    {cache : store.Cache} {file : SourceFile} {failure : Failure} (hfinds : store.FindsLastPut)
    (hapart : store.KeyedApart kind) (h : detector.Keeps kind cache) (hfile : kind file)
    (hread : detector.read file = .error failure) : detector.NeverKept cache file := by
  have hnever : ∀ model, detector.read file ≠ .ok model := by simp [hread]
  constructor
  · rw [Option.eq_none_iff_forall_ne_some]
    exact fun model hfound => hnever model (h.read_of_lookUp hfinds hapart hfile hfound)
  · obtain ⟨accesses, hcache, hputs⟩ := h
    refine ⟨accesses, hcache, fun model hput => ?_⟩
    obtain ⟨other, hother, hkey, hok⟩ := hputs _ _ hput
    exact hnever model (hapart other file hother hfile hkey ▸ hok)

/-- Let a store find what was last put, and let the digests of the files asked for not collide. After
any requests whose paths hold no NUL, each has got the answer of a detector with an empty cache; the
model of a snapshot is made of the models of its files in order of path, and the others are listed
in that order; a file that cannot be read is never kept, and if the store keeps within its room, no
more models are kept than the configuration allows. -/
theorem session_eq_fresh (hfinds : store.FindsLastPut) {kind : SourceFile → Prop}
    (hcollision : store.NoCollision kind) (hplain : ∀ file, kind file → file.HasPlainPath)
    (detector : Detector store) (requests : List Request)
    (hrequests : ∀ request ∈ requests, ∀ file ∈ request.files, kind file) :
    let outcome := detector.session detector.emptyCache requests
    outcome.1 =
        requests.map (fun request => (detector.answer detector.emptyCache request).1) ∧
      (∀ snapshot : Snapshot, (∀ file ∈ snapshot.files, kind file) →
        (detector.buildModel outcome.2 snapshot).value =
          ⟨Model.concat (detector.modelsOf snapshot), detector.failuresOf snapshot⟩) ∧
      (∀ files, (Snapshot.ofFiles files).files.Pairwise fun f g => f.path < g.path) ∧
      (∀ file failure, kind file → detector.read file = .error failure →
        detector.NeverKept outcome.2 file) ∧
      (store.HasRoom → store.size outcome.2 ≤
        if detector.config.modelCacheSize = 0 then 1000 else detector.config.modelCacheSize) := by
  intro outcome
  have hapart := hcollision.keyedApart hplain
  have hfresh := detector.keeps_emptyCache kind
  obtain ⟨hanswers, hkeeps⟩ := session_spec hfinds hapart hfresh hrequests
  refine ⟨?_, ?_, Snapshot.ofFiles_pairwise, ?_, ?_⟩
  · rw [hanswers]
    exact List.map_congr_left fun request hrequest =>
      (answer_spec hfinds hapart hfresh (hrequests request hrequest)).1.symm
  · intro snapshot hfiles
    rw [buildModel_value hfinds hapart hfiles hkeeps, readAll_eq]
  · exact fun file failure hfile hread => hkeeps.neverKept hfinds hapart hfile hread
  · intro hroom
    obtain ⟨accesses, hcache, -⟩ := hkeeps
    rw [hcache]
    exact (hroom.after detector.capacity accesses).2

end Detector

namespace TwiceDecorated

/-- Room for one model only. -/
def crowded : Detector store :=
  { detector with config := { modelCacheSize := 1 } }

/-- A file of no known language is among those asked for. -/
def requests : List Request :=
  [.file file, .file notes, .file copy, .file file, .model ⟨[file, copy, notes]⟩,
    .detection ⟨[file]⟩ ⟨[copy, notes]⟩]

end TwiceDecorated

open TwiceDecorated in
theorem Detector.session_eq_fresh_crowded :
    store.FindsLastPut ∧ store.NoCollision (· ∈ files) ∧ store.HasRoom ∧
      (∀ file ∈ files, file.HasPlainPath) ∧
      (∀ request ∈ requests, ∀ file ∈ request.files, file ∈ files) ∧
      (crowded.session crowded.emptyCache requests).1 =
        requests.map (fun request => (crowded.answer crowded.emptyCache request).1) ∧
      crowded.NeverKept (crowded.session crowded.emptyCache requests).2 notes ∧
      store.size (crowded.session crowded.emptyCache requests).2 ≤ 1 := by
  have hfinds : store.FindsLastPut := ModelStore.recent_findsLastPut digest
  have hroom : store.HasRoom := ModelStore.recent_hasRoom digest
  have hrequests : ∀ request ∈ requests, ∀ file ∈ request.files, file ∈ files := by
    decide +kernel
  obtain ⟨failure, hnotes⟩ : ∃ failure, crowded.read notes = .error failure := by
    have hlanguage : Language.ofPath? notes.path = none := by cbv
    exact ⟨.unsupportedLanguage notes.path,
      by simp [Detector.read, CompilationUnit.ofSource, hlanguage, Except.map]⟩
  obtain ⟨hanswers, -, -, hnever, hsize⟩ := Detector.session_eq_fresh hfinds store_noCollision
    files_plain crowded requests hrequests
  exact ⟨hfinds, store_noCollision, hroom, files_plain, hrequests, hanswers,
    hnever notes failure (by decide +kernel) hnotes, hsize hroom⟩

end CodeEvolution
