import CodeEvolution.Detection.Basic
import Mathlib.Data.List.Induction
/-!
# The cache does not show

Of a store two things are assumed: a cache with room gives for a key the model last put under it or
nothing, and different files that are asked for have different keys. A detector puts a model only
under the key of the file that it was read from, so a model found for a file is the one that reading
the file gives. One step of reading keeps this and so does any number of them.
-/
namespace CodeEvolution

namespace ModelStore

inductive Access (store : ModelStore) where
  | lookUp (key : store.Key)
  | put (key : store.Key) (model : Model)

variable {store : ModelStore}

def access (cache : store.Cache) : store.Access → store.Cache
  | .lookUp key => (store.lookUp cache key).2
  | .put key model => store.put cache key model

def after (store : ModelStore) (capacity : Nat) (accesses : List store.Access) : store.Cache :=
  accesses.foldl access (store.ofCapacity capacity)

def LastPut (key : store.Key) (model : Model) (accesses : List store.Access) : Prop :=
  ∃ earlier later, accesses = earlier ++ .put key model :: later ∧ ∀ other, .put key other ∉ later

/-- What is found under a key is the model last put under it. -/
def FindsLastPut (store : ModelStore) : Prop :=
  ∀ capacity accesses key model, 0 < capacity →
    (store.lookUp (store.after capacity accesses) key).1 = some model → LastPut key model accesses

/-- A cache has the room that was asked for, and putting a model keeps within it. -/
structure HasRoom (store : ModelStore) : Prop where
  fresh : ∀ capacity, store.capacity (store.ofCapacity capacity) = capacity ∧
    store.size (store.ofCapacity capacity) = 0
  lookUp : ∀ cache key, store.capacity (store.lookUp cache key).2 = store.capacity cache ∧
    store.size (store.lookUp cache key).2 ≤ store.size cache
  put : ∀ cache key model, store.capacity (store.put cache key model) = store.capacity cache ∧
    store.size (store.put cache key model) ≤ store.capacity cache

/-- The digests of files of a kind do not collide. -/
def NoCollision (store : ModelStore) (kind : SourceFile → Prop) : Prop :=
  ∀ f g, kind f → kind g → store.keyOf f = store.keyOf g → f.keyText = g.keyText

def KeyedApart (store : ModelStore) (kind : SourceFile → Prop) : Prop :=
  ∀ f g, kind f → kind g → store.keyOf f = store.keyOf g → f = g

theorem LastPut.append {key : store.Key} {model : Model} {accesses : List store.Access}
    {last : store.Access} (h : LastPut key model accesses)
    (hlast : ∀ other, .put key other ≠ last) :
    LastPut key model (accesses ++ [last]) := by
  obtain ⟨earlier, later, rfl, hlater⟩ := h
  refine ⟨earlier, later ++ [last], by simp, fun other hother => ?_⟩
  rcases List.mem_append.mp hother with hother | hother
  · exact hlater other hother
  · exact hlast other (List.mem_singleton.mp hother)

theorem LastPut.mem {key : store.Key} {model : Model} {accesses : List store.Access}
    (h : LastPut key model accesses) : .put key model ∈ accesses := by
  obtain ⟨earlier, later, rfl, -⟩ := h
  simp

theorem after_append (capacity : Nat) (accesses : List store.Access) (last : store.Access) :
    store.after capacity (accesses ++ [last]) = access (store.after capacity accesses) last := by
  rw [after, List.foldl_append]
  rfl

theorem HasRoom.after (h : store.HasRoom) (capacity : Nat) (accesses : List store.Access) :
    store.capacity (store.after capacity accesses) = capacity ∧
      store.size (store.after capacity accesses) ≤ capacity := by
  induction accesses using List.reverseRecOn with
  | nil => exact ⟨(h.fresh capacity).1, (h.fresh capacity).2 ▸ Nat.zero_le _⟩
  | append_singleton accesses last ih =>
    rw [after_append]
    cases last with
    | lookUp key =>
      obtain ⟨hcapacity, hsize⟩ := h.lookUp (store.after capacity accesses) key
      exact ⟨hcapacity.trans ih.1, Nat.le_trans hsize ih.2⟩
    | put key model =>
      obtain ⟨hcapacity, hsize⟩ := h.put (store.after capacity accesses) key model
      exact ⟨hcapacity.trans ih.1, Nat.le_trans hsize (Nat.le_of_eq ih.1)⟩

end ModelStore

theorem eq_of_append_cons_eq {α : Type} {mark : α} {first second rest others : List α}
    (hfirst : mark ∉ first) (hsecond : mark ∉ second)
    (h : first ++ mark :: rest = second ++ mark :: others) : first = second ∧ rest = others := by
  induction first generalizing second with
  | nil =>
    cases second with
    | nil => exact ⟨rfl, List.tail_eq_of_cons_eq h⟩
    | cons a second =>
      rw [List.nil_append, List.cons_append] at h
      exact absurd (List.head_eq_of_cons_eq h ▸ List.mem_cons_self) hsecond
  | cons a first ih =>
    cases second with
    | nil =>
      rw [List.nil_append, List.cons_append] at h
      exact absurd ((List.head_eq_of_cons_eq h).symm ▸ List.mem_cons_self) hfirst
    | cons b second =>
      rw [List.cons_append, List.cons_append] at h
      obtain ⟨rfl, htail⟩ := List.cons_eq_cons.mp h
      obtain ⟨rfl, hrest⟩ := ih (fun hmem => hfirst (List.mem_cons_of_mem _ hmem))
        (fun hmem => hsecond (List.mem_cons_of_mem _ hmem)) htail
      exact ⟨rfl, hrest⟩

def SourceFile.HasPlainPath (file : SourceFile) : Prop :=
  '\x00' ∉ file.path.toList

instance : DecidablePred SourceFile.HasPlainPath := fun file =>
  inferInstanceAs (Decidable ('\x00' ∉ file.path.toList))

/-- The first NUL of what a digest is made of ends the path, if the path holds none. -/
theorem SourceFile.eq_of_keyText_eq {f g : SourceFile} (hf : f.HasPlainPath) (hg : g.HasPlainPath)
    (h : f.keyText = g.keyText) : f = g := by
  have hlist := congrArg String.toList h
  have hnul : "\x00".toList = ['\x00'] := rfl
  simp only [keyText, String.toList_append, hnul, List.append_assoc, List.singleton_append] at hlist
  obtain ⟨hpath, htext⟩ := eq_of_append_cons_eq hf hg hlist
  cases f
  cases g
  simp only [mk.injEq]
  exact ⟨String.toList_inj.mp hpath, String.toList_inj.mp htext⟩

theorem ModelStore.NoCollision.keyedApart {store : ModelStore} {kind : SourceFile → Prop}
    (h : store.NoCollision kind) (hplain : ∀ file, kind file → file.HasPlainPath) :
    store.KeyedApart kind :=
  fun f g hf hg hkey => SourceFile.eq_of_keyText_eq (hplain f hf) (hplain g hg) (h f g hf hg hkey)

/-! ## Recent models -/

namespace ModelCache

variable {cache : ModelCache} {key : String} {model : Model} {entry : CachedModel}

theorem mem_put (h : entry ∈ (cache.put key model).entries) :
    entry = ⟨key, model⟩ ∨ (entry ∈ cache.entries ∧ entry.key ≠ key) := by
  refine (List.mem_cons.mp (List.mem_of_mem_take h)).imp_right fun hmem => ?_
  obtain ⟨hmem, hkey⟩ := List.mem_filter.mp hmem
  exact ⟨hmem, by simpa using hkey⟩

theorem lookUp_cases (cache : ModelCache) (key : String) :
    (∃ entry ∈ cache.entries, entry.key = key ∧
      cache.lookUp key = (some entry.model, cache.put key entry.model)) ∨
    cache.lookUp key = (none, cache) := by
  unfold lookUp
  cases hfind : cache.entries.find? fun entry => entry.key == key with
  | none => exact Or.inr rfl
  | some entry =>
    have hkey : entry.key = key := by simpa using List.find?_some hfind
    exact Or.inl ⟨entry, List.mem_of_find?_eq_some hfind, hkey, rfl⟩

theorem mem_lookUp (h : entry ∈ (cache.lookUp key).2.entries) : entry ∈ cache.entries := by
  rcases cache.lookUp_cases key with ⟨found, hfound, rfl, hlookUp⟩ | hlookUp
  · rw [hlookUp] at h
    rcases mem_put h with rfl | h
    · exact hfound
    · exact h.1
  · rwa [hlookUp] at h

theorem size_lookUp_le (cache : ModelCache) (key : String) :
    (cache.lookUp key).2.size ≤ cache.size := by
  rcases cache.lookUp_cases key with ⟨found, hfound, rfl, hlookUp⟩ | hlookUp
  · have hfewer : (cache.others found.key).length < cache.entries.length :=
      List.length_filter_lt_length_iff_exists.mpr ⟨found, hfound, by simp⟩
    rw [hlookUp]
    exact Nat.le_trans (List.length_take_le' _ _) hfewer
  · exact Nat.le_of_eq (congrArg (fun found => found.2.size) hlookUp)

theorem capacity_lookUp (cache : ModelCache) (key : String) :
    (cache.lookUp key).2.capacity = cache.capacity := by
  rcases cache.lookUp_cases key with ⟨found, -, -, hlookUp⟩ | hlookUp
  · rw [hlookUp]
    rfl
  · rw [hlookUp]

end ModelCache

namespace ModelStore

variable {digest : String → String} {capacity : Nat} {accesses : List (recent digest).Access}

def recentAfter (digest : String → String) (capacity : Nat)
    (accesses : List (recent digest).Access) : ModelCache :=
  (recent digest).after capacity accesses

theorem lastPut_of_mem_recent {entry : CachedModel}
    (h : entry ∈ (recentAfter digest capacity accesses).entries) :
    @LastPut (recent digest) entry.key entry.model accesses := by
  induction accesses using List.reverseRecOn with
  | nil => exact absurd h List.not_mem_nil
  | append_singleton accesses last ih =>
    rw [recentAfter, after_append] at h
    cases last with
    | lookUp key => exact (ih (ModelCache.mem_lookUp h)).append (by simp)
    | put key model =>
      rcases ModelCache.mem_put h with rfl | ⟨hentry, hkey⟩
      · exact ⟨accesses, [], rfl, by simp⟩
      · exact (ih hentry).append fun other hother => hkey (Access.put.inj hother).1

theorem recent_findsLastPut (digest : String → String) : (recent digest).FindsLastPut := by
  intro capacity accesses key model _ hfound
  change ((recentAfter digest capacity accesses).lookUp key).1 = some model at hfound
  rcases (recentAfter digest capacity accesses).lookUp_cases key with
    ⟨entry, hentry, rfl, hlookUp⟩ | hlookUp
  · rw [hlookUp] at hfound
    exact Option.some.inj hfound ▸ lastPut_of_mem_recent hentry
  · rw [hlookUp] at hfound
    exact absurd hfound (by simp)

theorem recent_hasRoom (digest : String → String) : (recent digest).HasRoom where
  fresh _ := ⟨rfl, rfl⟩
  lookUp cache key := ⟨ModelCache.capacity_lookUp cache key, ModelCache.size_lookUp_le cache key⟩
  put _ _ _ := ⟨rfl, List.length_take_le _ _⟩

end ModelStore

/-! ## Reading -/

namespace Detector

variable {store : ModelStore}

def read (detector : Detector store) (file : SourceFile) : Except Failure Model :=
  (CompilationUnit.ofSource detector.grammar file.path file.text).map Model.ofUnit

/-- The cache came about by looking models up and by putting models of files of a kind, each under
the key of its file. -/
def Keeps (detector : Detector store) (kind : SourceFile → Prop) (cache : store.Cache) : Prop :=
  ∃ accesses, cache = store.after detector.capacity accesses ∧
    ∀ key model, .put key model ∈ accesses →
      ∃ file, kind file ∧ store.keyOf file = key ∧ detector.read file = .ok model

variable {detector : Detector store} {kind : SourceFile → Prop} {cache : store.Cache}
  {file : SourceFile} {model : Model}

theorem capacity_pos (detector : Detector store) : 0 < detector.capacity := by
  unfold capacity
  split <;> omega

theorem keeps_emptyCache (detector : Detector store) (kind : SourceFile → Prop) :
    detector.Keeps kind detector.emptyCache :=
  ⟨[], rfl, by simp⟩

theorem Keeps.lookUp (h : detector.Keeps kind cache) (key : store.Key) :
    detector.Keeps kind (store.lookUp cache key).2 := by
  obtain ⟨accesses, rfl, hputs⟩ := h
  refine ⟨accesses ++ [.lookUp key], by rw [ModelStore.after_append]; rfl, ?_⟩
  simpa using hputs

theorem Keeps.put (h : detector.Keeps kind cache) (hfile : kind file)
    (hread : detector.read file = .ok model) :
    detector.Keeps kind (store.put cache (store.keyOf file) model) := by
  obtain ⟨accesses, rfl, hputs⟩ := h
  refine ⟨accesses ++ [.put (store.keyOf file) model], by rw [ModelStore.after_append]; rfl, ?_⟩
  intro key other hmem
  rcases List.mem_append.mp hmem with hmem | hmem
  · exact hputs key other hmem
  · obtain ⟨rfl, rfl⟩ := ModelStore.Access.put.inj (List.mem_singleton.mp hmem)
    exact ⟨file, hfile, rfl, hread⟩

section Reading

variable (hfinds : store.FindsLastPut) (hapart : store.KeyedApart kind)

include hfinds hapart

theorem Keeps.read_of_lookUp (h : detector.Keeps kind cache) (hfile : kind file)
    (hfound : (store.lookUp cache (store.keyOf file)).1 = some model) :
    detector.read file = .ok model := by
  obtain ⟨accesses, rfl, hputs⟩ := h
  have hput := (hfinds _ _ _ _ detector.capacity_pos hfound).mem
  obtain ⟨other, hother, hkey, hread⟩ := hputs _ _ hput
  rwa [hapart file other hfile hother hkey.symm]

theorem buildFile_spec (h : detector.Keeps kind cache) (hfile : kind file) :
    (detector.buildFile cache file).value = detector.read file ∧
      detector.Keeps kind (detector.buildFile cache file).cache := by
  have hkeeps := h.lookUp (store.keyOf file)
  unfold buildFile
  cases hfound : store.lookUp cache (store.keyOf file) with
  | mk found next =>
    rw [hfound] at hkeeps
    cases found with
    | some model =>
      exact ⟨(h.read_of_lookUp hfinds hapart hfile (by rw [hfound])).symm, hkeeps⟩
    | none =>
      cases hsource : CompilationUnit.ofSource detector.grammar file.path file.text with
      | error failure => simp [read, hsource, Except.map, hkeeps]
      | ok unit =>
        have hread : detector.read file = .ok (Model.ofUnit unit) := by
          simp [read, hsource, Except.map]
        exact ⟨hread.symm, hkeeps.put hfile hread⟩

end Reading

def readAll (detector : Detector store) (snapshot : Snapshot) : SnapshotModel :=
  snapshot.files.foldl (fun sofar file => addFile sofar file.path (detector.read file)) {}

section Snapshots

variable (hfinds : store.FindsLastPut) (hapart : store.KeyedApart kind)

include hfinds hapart

theorem foldl_readFile {files : List SourceFile} (hfiles : ∀ file ∈ files, kind file)
    (sofar : Traced store SnapshotModel) (h : detector.Keeps kind sofar.cache) :
    (files.foldl detector.readFile sofar).value =
        files.foldl (fun value file => addFile value file.path (detector.read file)) sofar.value ∧
      detector.Keeps kind (files.foldl detector.readFile sofar).cache := by
  induction files generalizing sofar with
  | nil => exact ⟨rfl, h⟩
  | cons file rest ih =>
    obtain ⟨hbuilt, hnext⟩ := buildFile_spec hfinds hapart h (hfiles file List.mem_cons_self)
    obtain ⟨hvalue, hkeeps⟩ := ih (fun other hother => hfiles other (List.mem_cons_of_mem _ hother))
      (detector.readFile sofar file) hnext
    refine ⟨hvalue.trans ?_, hkeeps⟩
    rw [List.foldl_cons, readFile, hbuilt]

theorem buildModel_value {snapshot : Snapshot} (hfiles : ∀ file ∈ snapshot.files, kind file)
    (h : detector.Keeps kind cache) :
    (detector.buildModel cache snapshot).value = detector.readAll snapshot :=
  (foldl_readFile hfinds hapart hfiles ⟨{}, [], cache⟩ h).1

theorem buildModel_keeps {snapshot : Snapshot} (hfiles : ∀ file ∈ snapshot.files, kind file)
    (h : detector.Keeps kind cache) :
    detector.Keeps kind (detector.buildModel cache snapshot).cache :=
  (foldl_readFile hfinds hapart hfiles ⟨{}, [], cache⟩ h).2

end Snapshots

end Detector

end CodeEvolution
