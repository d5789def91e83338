import CodeEvolution.Proofs.Detection.Cache
import CodeEvolution.Proofs.Refactoring.Clashes
import CodeEvolution.Proofs.Samples
import Mathlib
/-!
# Detection between a snapshot and itself

Both times the snapshot is read the cache gives the same model, and the model is unchanged. So
nothing stays unexplained, and refactorings are told only of decorators that clash.
-/
namespace CodeEvolution

namespace Detector

variable {store : ModelStore} {detector : Detector store}

theorem read_hasMethodBodies {file : SourceFile} {model : Model}
    (h : detector.read file = .ok model) : model.HasMethodBodies := by
  unfold read at h
  cases hsource : CompilationUnit.ofSource detector.grammar file.path file.text with
  | error failure => simp [hsource, Except.map] at h
  | ok unit =>
    rw [hsource] at h
    obtain rfl := Except.ok.inj h
    exact Model.ofUnit_hasMethodBodies unit

theorem addFile_hasMethodBodies {snapshot : SnapshotModel} (h : snapshot.model.HasMethodBodies)
    (file : SourceFile) :
    (addFile snapshot file.path (detector.read file)).model.HasMethodBodies := by
  cases hread : detector.read file with
  | error failure => exact h
  | ok model => exact h.append (read_hasMethodBodies hread)

theorem readAll_hasMethodBodies (detector : Detector store) (snapshot : Snapshot) :
    (detector.readAll snapshot).model.HasMethodBodies := by
  have hrun : ∀ (files : List SourceFile) (sofar : SnapshotModel),
      sofar.model.HasMethodBodies → (files.foldl (fun sofar file =>
        addFile sofar file.path (detector.read file)) sofar).model.HasMethodBodies := by
    intro files
    induction files with
    | nil => exact fun _ h => h
    | cons file rest ih => exact fun sofar h => ih _ (addFile_hasMethodBodies h file)
  exact hrun snapshot.files {} (by simp [Model.HasMethodBodies])

def cacheAfter (detector : Detector store) (files : List SourceFile) : store.Cache :=
  files.foldl (fun cache file => (detector.buildFile cache file).cache) detector.emptyCache

theorem cacheAfter_keeps {kind : SourceFile → Prop} (hfinds : store.FindsLastPut)
    (hapart : store.KeyedApart kind) (detector : Detector store) {files : List SourceFile}
    (hfiles : ∀ file ∈ files, kind file) :
    detector.Keeps kind (detector.cacheAfter files) := by
  have hrun : ∀ cache, detector.Keeps kind cache → detector.Keeps kind
      (files.foldl (fun cache file => (detector.buildFile cache file).cache) cache) := by
    induction files with
    | nil => exact fun _ h => h
    | cons file rest ih =>
      intro cache h
      exact ih (fun other hother => hfiles other (List.mem_cons_of_mem _ hother)) _
        (buildFile_spec hfinds hapart h (hfiles file List.mem_cons_self)).2
  exact hrun detector.emptyCache (keeps_emptyCache detector kind)

/-- Let a store find what was last put and let different files have different keys. Between a
snapshot and itself, whatever was read before, nothing is unexplained, every refactoring tells of
two decorators that clash, and there is none exactly if decorators are not looked at or none
clash. -/
theorem detect_same_snapshot (hfinds : store.FindsLastPut) (detector : Detector store)
    (history : List SourceFile) (snapshot : Snapshot)
    (hapart : store.KeyedApart fun file => file ∈ history ++ snapshot.files) :
    let detection := (detector.detect (detector.cacheAfter history) snapshot snapshot).value
    detection.unexplained = [] ∧
      (∀ r ∈ detection.refactorings, detection.before.TellsClash r) ∧
      (detection.refactorings = [] ↔
        (.decorators ∈ detector.config.ruleOrder → detection.before.HasConsistentDecorators)) := by
  have hfiles : ∀ file ∈ snapshot.files, file ∈ history ++ snapshot.files :=
    fun file hfile => List.mem_append_right _ hfile
  have hstart := cacheAfter_keeps hfinds hapart detector
    (fun file hfile => List.mem_append_left snapshot.files hfile)
  have hfirst := buildModel_value hfinds hapart hfiles hstart
  have hsecond := buildModel_value hfinds hapart hfiles
    (buildModel_keeps hfinds hapart hfiles hstart)
  have hbodies := detector.readAll_hasMethodBodies snapshot
  simp only [detect, infer, hfirst, hsecond]
  exact ⟨Inference.run_self_unexplained _ hbodies, Inference.run_self_tellsClash _ hbodies,
    Inference.run_self_eq_nil_iff _ hbodies⟩

end Detector

namespace TwiceDecorated

open Samples (outline mark)

/-- A file with a class that bears one decorator twice, with different arguments. -/
def file : SourceFile where
  path := "m.py"
  text := "@a(1)\n@a(2)\nclass K: pass\n"

def decoratorAt (start : Nat) : Syntax.Outline :=
  outline "decorator" start (start + 5) []
    [mark "@" start [],
      outline "call" (start + 1) (start + 5) []
        [outline "identifier" (start + 1) (start + 2) ["function"] [],
          outline "argument_list" (start + 2) (start + 5) ["arguments"]
            [mark "(" (start + 2) [], outline "integer" (start + 3) (start + 4) [] [],
              mark ")" (start + 4) []]]]

def parsed : Syntax.Outline :=
  outline "module" 0 26 []
    [outline "decorated_definition" 0 25 []
      [decoratorAt 0, decoratorAt 6,
        outline "class_definition" 12 25 ["definition"]
          [mark "class" 12 [], outline "identifier" 18 19 ["name"] [], mark ":" 19 [],
            outline "block" 21 25 ["body"]
              [outline "pass_statement" 21 25 [] [mark "pass" 21 []]]]]]

def copy : SourceFile :=
  { file with path := "n.py" }

/-- A file of no known language. -/
def notes : SourceFile where
  path := "n.c"
  text := "@a(1)\n"

def files : List SourceFile :=
  [file, copy, notes]

/-- The digests of the files. -/
def digest (text : String) : String :=
  if text = file.keyText then "99567ae1a4dfa366c1778d099c597aaa89a961f426ab4868b5764167dbef5b89"
  else if text = copy.keyText then
    "7edf8e607325f35a536f15ef8cf57776dbf81e1b171b195018c2015cb88b7d5e"
  else if text = notes.keyText then
    "ff957db9defb01a463294843b483b9121eda1a62cd77e7ec05c9b6f0084c0235"
  else text

def store : ModelStore :=
  .recent digest

theorem store_noCollision : store.NoCollision (· ∈ files) := by
  have hall : ∀ f ∈ files, ∀ g ∈ files,
      digest f.keyText = digest g.keyText → f.keyText = g.keyText := by
    decide +kernel
  exact fun f g hf hg => hall f hf g hg

theorem files_plain : ∀ file ∈ files, file.HasPlainPath := by
  decide +kernel

theorem store_keyedApart : store.KeyedApart (· ∈ files) :=
  store_noCollision.keyedApart files_plain

def detector : Detector store where
  grammar _ _ := parsed
  config := {}

def hasClash (root : Node) : Bool :=
  (Node.typesAmong none root.children).any fun declared =>
    declared.node.decoratorsOf.any fun d => declared.node.decoratorsOf.any fun e =>
      d.name == e.name && d.arguments != e.arguments

theorem exists_unit :
    ∃ unit, CompilationUnit.ofSource detector.grammar file.path file.text = .ok unit ∧
      ¬(Model.ofUnit unit).HasConsistentDecorators := by
  have hlanguage : Language.ofPath? file.path = some .python := by cbv
  have hcheck : ((parsed.resolve (Syntax.Source.ofText file.text)).check file.path).isOk =
      true := by decide +kernel
  have hclash : (Lowering.Python.lower
      (parsed.resolve (Syntax.Source.ofText file.text))).any hasClash = true := by
    decide +kernel
  obtain ⟨root, hroot, hclash⟩ := (Option.any_eq_true _ _).mp hclash
  refine ⟨⟨file.path, .python, root⟩, ?_, ?_⟩
  · cases htree : (parsed.resolve (Syntax.Source.ofText file.text)).check file.path with
    | error failure => simp [htree, Except.isOk, Except.toBool] at hcheck
    | ok _ =>
      simp [CompilationUnit.ofSource, CompilationUnit.ofOutline, CompilationUnit.ofTree,
        CompilationUnit.lower, hlanguage, detector, htree, hroot]
  · intro hconsistent
    simp only [hasClash, List.any_eq_true, Bool.and_eq_true, beq_iff_eq, bne_iff_ne] at hclash
    obtain ⟨declared, hdeclared, d, hd, e, he, hde⟩ := hclash
    have hclass : ModelClass.ofDeclaration (FileContext.ofUnit ⟨file.path, .python, root⟩)
        declared.name declared.head declared.node ∈
          (Model.ofUnit ⟨file.path, .python, root⟩).classes := by
      simp only [Model.ofUnit]
      split
      · exact List.mem_cons_of_mem _ (List.mem_map_of_mem hdeclared)
      · exact List.mem_map_of_mem hdeclared
    exact (hconsistent _ hclass).1 d hd e he hde

end TwiceDecorated

open TwiceDecorated in
/-- The second decorator of the class is told as a modification, although nothing was changed. -/
theorem Detector.detect_same_snapshot_twice_decorated :
    store.FindsLastPut ∧ (store.KeyedApart fun other => other ∈ [copy] ++ [file]) ∧
      (detector.detect (detector.cacheAfter [copy]) ⟨[file]⟩ ⟨[file]⟩).value.unexplained = [] ∧
      (detector.detect (detector.cacheAfter [copy]) ⟨[file]⟩ ⟨[file]⟩).value.refactorings ≠ [] := by
  have hfinds : store.FindsLastPut := ModelStore.recent_findsLastPut digest
  have hapart : store.KeyedApart fun other => other ∈ [copy] ++ [file] := by
    have hall : ∀ other ∈ [copy] ++ [file], other ∈ files := by decide +kernel
    exact fun f g hf hg => store_keyedApart f g (hall f hf) (hall g hg)
  obtain ⟨hunexplained, -, hnone⟩ :=
    Detector.detect_same_snapshot hfinds detector [copy] ⟨[file]⟩ hapart
  refine ⟨hfinds, hapart, hunexplained, ?_⟩
  intro hnil
  have hconsistent := hnone.mp hnil (by decide)
  obtain ⟨unit, hunit, hclash⟩ := exists_unit
  have hread : detector.read file = .ok (Model.ofUnit unit) := by
    simp [Detector.read, hunit, Except.map]
  have hbuilt : (detector.buildModel (detector.cacheAfter [copy]) ⟨[file]⟩).value =
      detector.readAll ⟨[file]⟩ :=
    Detector.buildModel_value hfinds hapart (by simp)
      (Detector.cacheAfter_keeps hfinds hapart detector (by simp))
  simp only [Detector.detect, Detector.infer, hbuilt] at hconsistent
  apply hclash
  intro c hc
  exact hconsistent c (by simpa [Detector.readAll, hread, Detector.addFile, Model.append] using hc)

end CodeEvolution
