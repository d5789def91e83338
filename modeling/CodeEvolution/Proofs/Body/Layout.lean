import CodeEvolution.Body.OfMethod
import Mathlib.Data.List.Nodup
/-!
# How the fragments of a body are laid out

A fragment stands at the position of its number, and the controlling expressions of a statement
follow it directly, in order. Statements are numbered row by row, so that what is said of a row is
shown by induction on it, with the number of the first fragment left open.
-/
namespace CodeEvolution

variable {f : Fragment} {id : Nat} {body : Body} (around : Surroundings) (method : Node)
  (depth : Nat) (parameters : List Node) (statements : List Statement) (index : Nat)

/-- Where a row of statements begins: below a parent, in the guarded body of a `try`, at a depth
and a position, and with a number. -/
structure RowStart where
  parent : Option Nat := none
  enclosing : Option Nat := none
  depth : Nat := 0
  index : Nat := 0
  id : Nat := 0

namespace RowStart

variable (s : RowStart) (head : StatementHead) (nested handlers : List Statement)

abbrev number (statements : List Statement) : List NumberedStatement :=
  Statement.numberAll s.parent s.enclosing s.depth s.index s.id statements

abbrev headFragment : Fragment :=
  Statement.headFragment s.id s.parent s.enclosing s.depth s.index head nested handlers

abbrev controls : List NumberedStatement :=
  Statement.numberControls s.id s.depth (s.id + 1) 0 head.controls

/-- What the first statement of a row holds begins here. -/
def inside : RowStart where
  parent := some s.id
  enclosing := if head.kind = .tryStatement then some s.id else s.enclosing
  depth := s.depth + 1
  id := s.id + 1 + head.controls.length

/-- What stands behind the first statement of a row begins here. -/
def behind : RowStart :=
  { s with index := s.index + 1, id := s.id + 1 + head.controls.length + Statement.sizeAll nested }

end RowStart

namespace Statement

variable (parent depth id index : Nat) (controls : List Control)

theorem numberControls_ids :
    (numberControls parent depth id index controls).map (fun entry => entry.fragment.id) =
      List.range' id controls.length := by
  induction controls generalizing id index with
  | nil => rfl
  | cons control rest ih =>
    simp only [numberControls, List.map_cons, List.length_cons, List.range'_succ]
    rw [ih]

/-- Induction on a row of statements. The clauses beside a statement come next after it, just as
the statements behind it do. -/
@[elab_as_elim]
theorem inductionOnRow {motive : List Statement → Prop} (nil : motive [])
    (unknown : ∀ line label rest, motive rest → motive (.unknown line label :: rest))
    (known : ∀ head nested handlers rest, motive nested → motive (handlers ++ rest) →
      motive (.known head nested handlers :: rest)) :
    motive statements := by
  have happend : ∀ rest, motive rest → motive (statements ++ rest) :=
    @Statement.rec_1 (fun statement => ∀ rest, motive rest → motive (statement :: rest))
      (fun statements => ∀ rest, motive rest → motive (statements ++ rest))
      unknown
      (fun head nested handlers hnested hhandlers rest hrest =>
        known head nested handlers rest (by simpa using hnested [] nil) (hhandlers rest hrest))
      (fun _ hrest => hrest)
      (fun _ _ hfirst hothers rest hrest => hfirst _ (hothers rest hrest)) statements
  simpa using happend [] nil

section Row

variable (s : RowStart) (id line : Nat) (label : String) (head : StatementHead)
  (nested handlers statements rest : List Statement)

theorem sizeAll_append : sizeAll (statements ++ rest) = sizeAll statements + sizeAll rest := by
  induction statements with
  | nil => exact (Nat.zero_add _).symm
  | cons statement statements ih => rw [List.cons_append, sizeAll, sizeAll, ih, Nat.add_assoc]

theorem siblingsAll_append : siblingsAll id (statements ++ rest) =
    siblingsAll id statements ++ siblingsAll (id + sizeAll statements) rest := by
  induction statements generalizing id with
  | nil => rfl
  | cons statement statements ih =>
    rw [List.cons_append, siblingsAll, siblingsAll, ih, sizeAll, List.append_assoc, Nat.add_assoc]

theorem number_append : s.number (statements ++ rest) =
    s.number statements ++
      { s with index := s.index + (siblingsAll s.id statements).length
               id := s.id + sizeAll statements : RowStart }.number rest := by
  obtain ⟨parent, enclosing, depth, index, id⟩ := s
  dsimp only [RowStart.number]
  induction statements generalizing index id with
  | nil => rfl
  | cons statement statements ih =>
    rw [List.cons_append, numberAll, ih, numberAll, siblingsAll, sizeAll, List.append_assoc,
      List.length_append, Nat.add_assoc, Nat.add_assoc]

@[simp]
theorem sizeAll_unknown : sizeAll (.unknown line label :: rest) = sizeAll rest :=
  Nat.zero_add _

theorem sizeAll_known : sizeAll (.known head nested handlers :: rest) =
    1 + head.controls.length + sizeAll nested + sizeAll (handlers ++ rest) := by
  rw [sizeAll, size, sizeAll_append, Nat.add_assoc _ (sizeAll handlers)]

theorem siblingsAll_known : siblingsAll id (.known head nested handlers :: rest) =
    (id, head.kind) ::
      siblingsAll (id + 1 + head.controls.length + sizeAll nested) (handlers ++ rest) := by
  rw [siblingsAll, siblings, siblingsAll_append, size]
  simp only [List.cons_append, Nat.add_assoc]

theorem number_known : s.number (.known head nested handlers :: rest) =
    ⟨s.headFragment head nested handlers, head.bindings, head.outerNames⟩ ::
      (s.controls head ++ (s.inside head).number nested ++
        (s.behind head nested).number (handlers ++ rest)) := by
  rw [number_append, RowStart.number, numberAll, number, siblings, size]
  simp only [RowStart.inside, RowStart.behind, List.cons_append, List.append_assoc,
    List.length_cons, Nat.add_assoc, Nat.add_comm 1 (List.length _)]

end Row

theorem number_ids (s : RowStart) (statements : List Statement) :
    (s.number statements).map (fun entry => entry.fragment.id) =
      List.range' s.id (sizeAll statements) := by
  induction statements using inductionOnRow generalizing s with
  | nil => rfl
  | unknown line label rest ih => exact (ih s).trans (by rw [sizeAll_unknown])
  | known head nested handlers rest ihNested ihRest =>
    rw [number_known, sizeAll_known]
    simp only [List.map_cons, List.map_append, numberControls_ids, headFragment]
    rw [ihNested, ihRest, RowStart.inside, RowStart.behind, List.range'_append_1,
      Nat.add_assoc (s.id + 1), List.range'_append_1, ← List.range'_succ]
    congr 1
    omega

structure IsControl (owner : Fragment) (index : Nat) (g : Fragment) : Prop where
  id : g.id = owner.id + 1 + index
  kind : g.kind = .expression
  shape : g.shape = .expression
  parent : g.parent = some owner.id
  index : g.index = index

theorem numberControls_getElem? (i : Nat) :
    (numberControls parent depth id index controls)[i]? =
      controls[i]?.map fun control =>
        { fragment :=
            { id := id + i, kind := .expression, shape := .expression, depth,
              text := control.text, span := control.span, parent := some parent,
              index := index + i, facts := control.facts } } := by
  induction controls generalizing id index i with
  | nil => rfl
  | cons control rest ih =>
    cases i with
    | zero => rfl
    | succ i =>
      rw [numberControls, List.getElem?_cons_succ, List.getElem?_cons_succ, ih]
      simp only [Nat.add_assoc, Nat.add_comm 1 i]

end Statement

namespace Body

/-- The fragments of a body stand at the positions of their numbers, and every controlling
expression is where its statement says. -/
structure IsLaidOut (body : Body) : Prop where
  ids : body.fragments.map Fragment.id = List.range body.fragments.length
  controls : ∀ f ∈ body.fragments, ∀ index id, f.expressions[index]? = some id →
    ∃ g, body.get? id = some g ∧ Statement.IsControl f index g

theorem mem_of_get? (h : body.get? id = some f) : f ∈ body.fragments :=
  List.mem_of_getElem? h

theorem id_of_get? (hids : body.fragments.map Fragment.id = List.range body.fragments.length)
    (h : body.get? id = some f) : f.id = id := by
  obtain ⟨hlt, rfl⟩ := List.getElem?_eq_some_iff.mp h
  have hid : (body.fragments.map Fragment.id)[id]? = some id := by
    rw [hids]
    exact List.getElem?_range hlt
  rw [List.getElem?_map, List.getElem?_eq_getElem hlt] at hid
  exact Option.some.inj hid

theorem get?_of_mem (hids : body.fragments.map Fragment.id = List.range body.fragments.length)
    (hf : f ∈ body.fragments) : body.get? f.id = some f := by
  obtain ⟨i, hi, hget⟩ := List.mem_iff_getElem.mp hf
  have h : body.get? i = some f := hget ▸ List.getElem?_eq_getElem hi
  rwa [id_of_get? hids h]

def numberedOf (around : Surroundings) (method : Node) : List NumberedStatement :=
  { : RowStart }.number (statementsOf around method)

def introducing (f : Fragment) (variableIds : List Nat) : Fragment :=
  { f with declarations := variableIds }

theorem ofMethod_fragments :
    ∃ declared : Fragment → List Nat,
      (ofMethod around method parameters).fragments =
        (numberedOf around method).map fun entry =>
          introducing entry.fragment (declared entry.fragment) :=
  ⟨fun f => declarationsAt _ f.id, rfl⟩

theorem ofMethod_ids :
    (ofMethod around method parameters).fragments.map Fragment.id =
      List.range (ofMethod around method parameters).fragments.length := by
  obtain ⟨declared, hfragments⟩ := ofMethod_fragments around method parameters
  have hids := Statement.number_ids { } (statementsOf around method)
  have hlength := congrArg List.length hids
  rw [List.length_map, List.length_range'] at hlength
  rw [hfragments, List.map_map, List.length_map, List.range_eq_range', numberedOf, hlength]
  exact hids

namespace IsLaidOut

variable {body : Body} (hlaid : body.IsLaidOut)

include hlaid

theorem nodup_ids {fragments : List Fragment} (h : fragments.Sublist body.fragments) :
    (fragments.map Fragment.id).Nodup := by
  apply List.Nodup.sublist (h.map Fragment.id)
  rw [hlaid.ids]
  exact List.nodup_range

theorem control_of_mem (hf : f ∈ body.fragments) (h : id ∈ f.expressions) :
    ∃ g index, body.get? id = some g ∧ Statement.IsControl f index g := by
  obtain ⟨index, hindex⟩ := List.mem_iff_getElem?.mp h
  obtain ⟨g, hg, hcontrol⟩ := hlaid.controls f hf index id hindex
  exact ⟨g, index, hg, hcontrol⟩

theorem own_eq_range (hf : f ∈ body.fragments) :
    f.id :: f.expressions = List.range' f.id (f.expressions.length + 1) := by
  have hexpressions : f.expressions = List.range' (f.id + 1) f.expressions.length := by
    apply List.ext_getElem (by simp)
    intro i hi _
    obtain ⟨g, hg, hcontrol⟩ := hlaid.controls f hf i _ (List.getElem?_eq_getElem hi)
    rw [← id_of_get? hlaid.ids hg, hcontrol.id]
    simp
  rw [List.range'_succ, ← hexpressions]

theorem id_eq_of_shared {f' : Fragment} (hf : f ∈ body.fragments) (hf' : f' ∈ body.fragments)
    (hstatement : f.isStatement = true) (hstatement' : f'.isStatement = true)
    (h : id ∈ f.id :: f.expressions) (h' : id ∈ f'.id :: f'.expressions) : f.id = f'.id := by
  rcases List.mem_cons.mp h with rfl | h <;> rcases List.mem_cons.mp h' with heq | h'
  · exact heq
  · obtain ⟨g, _, hg, hcontrol⟩ := hlaid.control_of_mem hf' h'
    rw [get?_of_mem hlaid.ids hf] at hg
    obtain rfl := Option.some.inj hg
    simp [Fragment.isStatement, hcontrol.shape] at hstatement
  · obtain ⟨g, _, hg, hcontrol⟩ := hlaid.control_of_mem hf h
    rw [heq, get?_of_mem hlaid.ids hf'] at hg
    obtain rfl := Option.some.inj hg
    simp [Fragment.isStatement, hcontrol.shape] at hstatement'
  · obtain ⟨g, _, hg, hcontrol⟩ := hlaid.control_of_mem hf h
    obtain ⟨g', _, hg', hcontrol'⟩ := hlaid.control_of_mem hf' h'
    rw [hg] at hg'
    obtain rfl := Option.some.inj hg'
    exact Option.some.inj (hcontrol.parent.symm.trans hcontrol'.parent)

theorem own_lt {f' : Fragment} (hf : f ∈ body.fragments) (hf' : f' ∈ body.fragments)
    (hstatement : f.isStatement = true) (hstatement' : f'.isStatement = true) (hlt : f.id < f'.id)
    (h : id ∈ f.id :: f.expressions) : id < f'.id := by
  by_contra hle
  have hshared : f'.id ∈ f.id :: f.expressions := by
    rw [hlaid.own_eq_range hf, List.mem_range'_1] at h ⊢
    omega
  have heq := hlaid.id_eq_of_shared hf hf' hstatement hstatement' hshared List.mem_cons_self
  omega

end IsLaidOut

end Body

end CodeEvolution
