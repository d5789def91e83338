import CodeEvolution.Proofs.Body.LocalScopes
import CodeEvolution.Proofs.Lowering.SiblingOrder
/-!
# Local variables of lowered methods

The variables of a method are told apart by scope and name, and each is listed once, by the
statement that introduces it. In a file that keeps to the grammar the statements of a method stand
in the source as they are numbered. So where names are declared by assignments, a name has one
local variable; where blocks close scopes, blocks apart from each other keep their variables apart.
-/
namespace CodeEvolution

open Syntax (Tree)
open CompilationUnit (lower)
open Lowering (isGrammatical isNested_of_isGrammatical)

variable {i id : Nat} {f : Fragment} {v : Variable}

namespace Body

theorem mem_declarationsAt {declarations : List Variable} :
    i ∈ declarationsAt declarations id ↔
      ∃ v, declarations[i]? = some v ∧ v.statement = some id := by
  simp only [declarationsAt, List.mem_map, List.mem_filter, List.mem_zipIdx_iff_getElem?,
    beq_iff_eq, Prod.exists]
  constructor
  · rintro ⟨v, j, hv, rfl⟩
    exact ⟨v, hv⟩
  · rintro ⟨v, hv⟩
    exact ⟨v, i, hv, rfl⟩

theorem nodup_declarationsAt (declarations : List Variable) (id : Nat) :
    (declarationsAt declarations id).Nodup := by
  have hsublist : (declarationsAt declarations id).Sublist
      (declarations.zipIdx.map Prod.snd) := List.filter_sublist.map Prod.snd
  rw [List.zipIdx_map_snd] at hsublist
  exact List.Nodup.sublist hsublist List.nodup_range'

/-- Variables differ by scope or name, every variable of a statement is listed once and there, and
references run parallel to the variables. How far local variables reach depends on the language. -/
structure ScopesLocals (language : Language) (receiver? : Option String) (method : Node)
    (parameters : List Node) (body : Body) : Prop where
  distinct : body.declarations.Pairwise fun v w => v.same w = false
  parallel : body.references.length = body.declarations.length
  references : ∀ (i : Nat) v ids, body.declarations[i]? = some v →
    body.references[i]? = some ids →
      ∀ f ∈ body.fragments, f.id ∈ ids ↔ refersTo receiver? v f = true
  listed : ∀ (i : Nat) v id, body.declarations[i]? = some v → v.statement = some id →
    ∃ f, body.get? id = some f ∧ f.declarations.count i = 1
  lists : ∀ f ∈ body.fragments, ∀ i ∈ f.declarations,
    ∃ v, body.declarations[i]? = some v ∧ v.statement = some f.id
  python : language = .python → body.AssignsOnce method parameters
  java : language = .java → body.ScopesToBlocks

section OfMethod

variable {around : Surroundings} {method : Node} {parameters : List Node}

theorem declarations_of_mem (hf : f ∈ (ofMethod around method parameters).fragments) :
    f.declarations = declarationsAt (ofMethod around method parameters).declarations f.id := by
  obtain ⟨entry, -, rfl⟩ := List.mem_map.mp hf
  rfl

theorem ofMethod_listed (hv : (ofMethod around method parameters).declarations[i]? = some v)
    (hstatement : v.statement = some id) :
    ∃ f, (ofMethod around method parameters).get? id = some f ∧ f.declarations.count i = 1 := by
  have harena := ofMethod_isArena around method parameters
  rcases ofMethod_originates around method parameters v (List.mem_of_getElem? hv) with
    ⟨hnone, -⟩ | ⟨f, hf, hid, -⟩
  · rw [hstatement] at hnone
    cases hnone
  · obtain rfl : id = f.id := Option.some.inj (hstatement.symm.trans hid)
    refine ⟨f, harena.get?_id hf, ?_⟩
    rw [declarations_of_mem hf]
    exact List.count_eq_one_of_mem (nodup_declarationsAt _ _)
      (mem_declarationsAt.mpr ⟨v, hv, hstatement⟩)

theorem mem_references_iff {ids : List Nat}
    (hv : (ofMethod around method parameters).declarations[i]? = some v)
    (hids : (ofMethod around method parameters).references[i]? = some ids)
    (hf : f ∈ (ofMethod around method parameters).fragments) :
    f.id ∈ ids ↔ refersTo around.receiver? v f = true := by
  have harena := ofMethod_isArena around method parameters
  have hreferences : (ofMethod around method parameters).references =
      (ofMethod around method parameters).declarations.map fun v =>
        ((ofMethod around method parameters).fragments.filter (refersTo around.receiver? v)).map
          Fragment.id := rfl
  rw [hreferences, List.getElem?_map, hv, Option.map_some, Option.some.injEq] at hids
  rw [← hids, List.mem_map]
  constructor
  · rintro ⟨g, hg, hid⟩
    obtain ⟨hmem, hrefers⟩ := List.mem_filter.mp hg
    have hget := harena.get?_id hmem
    rw [hid, harena.get?_id hf] at hget
    rwa [Option.some.inj hget]
  · exact fun hrefers => ⟨f, List.mem_filter.mpr ⟨hf, hrefers⟩, rfl⟩

theorem exists_declared_of_parameter {p : Node} (hp : p ∈ parameters) {name : String}
    {sort : ParameterSort} (hkind : p.kind = .variable name sort) :
    ∃ u ∈ (ofMethod around method parameters).declarations, u.statement = none ∧
      u.name = name ∧ u.scope = .ofSpan around.file method.span := by
  let scope : Scope := .ofSpan around.file method.span
  obtain ⟨parameter, hparameter, hname, hscope⟩ : ∃ parameter,
      Variable.ofParameter? scope p = some parameter ∧ parameter.name = name ∧
        parameter.scope = scope := by
    rw [Variable.ofParameter?, hkind]
    exact ⟨_, rfl, rfl, rfl⟩
  obtain ⟨u, hu, huscope, huname⟩ := DeclaredNames.exists_same_of_parameter
    (List.mem_filterMap.mpr ⟨p, hp, hparameter⟩)
  obtain ⟨other, -, hother⟩ := DeclaredNames.mem_ofParameters hu
  refine ⟨u, ?_, by rw [hother], huname.trans hname, huscope.trans hscope⟩
  exact (DeclaredNames.foldl_afterStatement_extends (numberedOf around method)).subset hu

theorem ofMethod_assignsOnce
    (h : (ofMethod around method parameters).IsScoped around (numberedOf around method)
      method.span.startOffset) (hlanguage : around.language = .python)
    (hbodyEnd : around.bodyEnd ≤ method.span.endOffset)
    (hlaid : method.Everywhere fun below => below.isLaidOut = true) :
    (ofMethod around method parameters).AssignsOnce method parameters where
  once _ _ _ _ hv hw hname := h.once hlanguage hv hw hname
  parameter := by
    intro f v hv p hp sort hkind
    obtain ⟨u, hu, hnone, hname, hscope⟩ := exists_declared_of_parameter hp hkind
    refine h.name_ne_of_parameter hu hnone ?_ ?_ hv hname
    · rw [hscope]
      exact le_rfl
    · rw [hscope]
      exact hbodyEnd
  outer := by
    intro f v hv place hplace hname
    obtain ⟨entry, hentry, hspan, hstatement, hmem⟩ :=
      exists_numbered_of_place around hlaid hplace hname
    rw [← hspan]
    exact h.start_le_of_outerNames hv hentry hstatement hmem

end OfMethod

end Body

namespace Samples

def named (name : String) (start stop : Nat) (fields : List String) : Tree :=
  ⟨"identifier", true, false, ⟨0, start, 0, stop, start, stop⟩, name, fields, []⟩

def assigning (name : String) (start stop : Nat) : Tree :=
  node "expression_statement" start stop []
    [node "assignment" start stop []
      [named name start (start + name.length) ["left"],
        node "integer" (start + 2 * name.length) stop ["right"] []]]

def functionOf (parameters : List Tree) (start stop : Nat) (statements : List Tree) : Tree :=
  node "module" 0 stop []
    [node "function_definition" 0 stop []
      [named "f" 4 5 ["name"], node "parameters" 5 8 ["parameters"] parameters,
        node "block" start stop ["body"] statements]]

/-- `def f(p): global g; g=1; p=2; x=3; x=4` -/
def names : Tree :=
  functionOf [named "p" 6 7 []] 10 38
    [node "global_statement" 10 18 [] [named "g" 17 18 []], assigning "g" 20 23,
      assigning "p" 25 28, assigning "x" 30 33, assigning "x" 35 38]

def declaring (start : Nat) : Tree :=
  node "block" start (start + 8) []
    [token "\x7b" start,
      node "local_variable_declaration" (start + 2) (start + 6) []
        [node "type_identifier" (start + 2) (start + 3) ["type"] [],
          node "variable_declarator" (start + 4) (start + 5) ["declarator"]
            [named "x" (start + 4) (start + 5) ["name"]],
          token ";" (start + 5)],
      token "\x7d" (start + 7)]

/-- `T f() { { T x; } { T x; } }` -/
def blocks : Tree :=
  node "program" 0 27 []
    [node "method_declaration" 0 27 []
      [node "type_identifier" 0 1 ["type"] [], named "f" 2 3 ["name"],
        node "formal_parameters" 3 5 ["parameters"] [token "(" 3, token ")" 4],
        node "block" 6 27 ["body"] [token "\x7b" 6, declaring 8, declaring 17, token "\x7d" 26]]]

/-- A body with an empty assignment at its start and one at its end. -/
def hollowAssignments : Tree :=
  functionOf [] 9 13 [assigning "" 9 9, node "pass_statement" 9 13 [] [], assigning "" 13 13]

/-- A conditional whose alternative stands before its consequence. -/
def exchanged : Tree :=
  functionOf [] 8 26
    [node "if_statement" 8 26 []
      [named "c" 11 12 ["condition"],
        node "else_clause" 13 21 ["alternative"]
          [node "block" 18 21 ["body"] [assigning "x" 18 21]],
        node "block" 23 26 ["consequence"] [assigning "x" 23 26]]]

def summary (language : Language) (method : Node) :
    List (String × Option StatementKind × Nat × Nat) :=
  let body := Body.ofMethod (Body.surroundings language "" {} none method) method method.parameters
  body.declarations.map fun v =>
    (v.name, (v.statement.bind body.get?).map Fragment.kind, v.scope.start, v.scope.stop)

theorem exists_method {language : Language} {tree : Tree}
    {expected : List (String × Option StatementKind × Nat × Nat)}
    (h : expected ∈ (lower language tree).toList.flatMap fun root =>
      root.preorder.map (summary language)) :
    ∃ root method, lower language tree = some root ∧ method ∈ root.preorder ∧
      summary language method = expected := by
  obtain ⟨root, hroot, hmethod⟩ := List.mem_flatMap.mp h
  obtain ⟨method, hmem, hsummary⟩ := List.mem_map.mp hmethod
  exact ⟨root, method, Option.mem_toList.mp hroot, hmem, hsummary⟩

end Samples

namespace Body

/-- In every method of a file that keeps to the grammar, variables are told apart and listed once
each, a name has at most one local variable of an assignment where assignments declare names, and
declared variables reach to the end of their block where blocks close scopes. -/
theorem ofMethod_scopesLocals (language : Language) (tree : Tree) (root method : Node)
    (hgrammar : isGrammatical language tree = true) (hlower : lower language tree = some root)
    (hmethod : method ∈ root.preorder) (file : String) (classSpan : Span)
    (receiver? : Option String) (parameters : List Node) :
    (ofMethod (surroundings language file classSpan receiver? method) method
      parameters).ScopesLocals language receiver? method parameters := by
  let around := surroundings language file classSpan receiver? method
  have hsuits := (CompilationUnit.settled_lower language tree).of_eq_some hlower
  have hencloses := (hsuits.encloses (isNested_of_isGrammatical hgrammar)).below hmethod
  have htidy : method.Tidy language :=
    (((CompilationUnit.fits_lower hgrammar).of_eq_some hlower).bounds
      (List.mem_singleton_self root)).2.2.2.below hmethod
  have hbodyEnd : ∀ block, method.body? = some block →
      around.bodyEnd = block.span.endOffset := by
    intro block hbody
    simp only [around, surroundings, hbody]
  have hle : around.bodyEnd ≤ method.span.endOffset := by
    cases hbody : method.body? with
    | none => simp only [around, surroundings, hbody, Nat.le_refl]
    | some block =>
      rw [hbodyEnd block hbody]
      exact (hencloses.self block (Node.mem_children_of_body? hbody)).2.2
  have hscoped := ofMethod_isScoped parameters hbodyEnd hencloses htidy
  exact
    { distinct := hscoped.ordered.imp fun hallows => hallows.distinct
      parallel := List.length_map _
      references := fun _ _ _ hv hids _ hf => mem_references_iff hv hids hf
      listed := fun _ _ _ hv hstatement => ofMethod_listed hv hstatement
      lists := fun f hf i hi => mem_declarationsAt.mp (declarations_of_mem hf ▸ hi)
      python := fun hlanguage =>
        ofMethod_assignsOnce hscoped hlanguage hle (hsuits.laidOut.below hmethod)
      java := fun hlanguage => hscoped.scopesToBlocks hlanguage }

/-- In Python a parameter, a name left to an outer scope, and two assignments to a name; in Java a
name declared in two blocks. -/
theorem ofMethod_scopesLocals_samples :
    (isGrammatical .python Samples.names = true ∧ ∃ root method,
      lower .python Samples.names = some root ∧ method ∈ root.preorder ∧
      Samples.summary .python method = [("p", none, 0, 38), ("x", some .assignment, 30, 38)] ∧
      (ofMethod (surroundings .python "" {} none method) method
        method.parameters).ScopesLocals .python none method method.parameters) ∧
    (isGrammatical .java Samples.blocks = true ∧ ∃ root method,
      lower .java Samples.blocks = some root ∧ method ∈ root.preorder ∧
      Samples.summary .java method =
        [("x", some .variableDeclaration, 10, 16), ("x", some .variableDeclaration, 19, 25)] ∧
      (ofMethod (surroundings .java "" {} none method) method
        method.parameters).ScopesLocals .java none method method.parameters) := by
  constructor
  · have hgrammar : isGrammatical .python Samples.names = true := by decide +kernel
    have hfound : ∃ root method, lower .python Samples.names = some root ∧
        method ∈ root.preorder ∧ Samples.summary .python method =
          [("p", none, 0, 38), ("x", some .assignment, 30, 38)] :=
      Samples.exists_method (by decide +kernel)
    obtain ⟨root, method, hroot, hmethod, hsummary⟩ := hfound
    exact ⟨hgrammar, root, method, hroot, hmethod, hsummary,
      ofMethod_scopesLocals .python Samples.names root method hgrammar hroot hmethod "" {} none
        method.parameters⟩
  · have hgrammar : isGrammatical .java Samples.blocks = true := by decide +kernel
    have hfound : ∃ root method, lower .java Samples.blocks = some root ∧
        method ∈ root.preorder ∧ Samples.summary .java method =
          [("x", some .variableDeclaration, 10, 16), ("x", some .variableDeclaration, 19, 25)] :=
      Samples.exists_method (by decide +kernel)
    obtain ⟨root, method, hroot, hmethod, hsummary⟩ := hfound
    exact ⟨hgrammar, root, method, hroot, hmethod, hsummary,
      ofMethod_scopesLocals .java Samples.blocks root method hgrammar hroot hmethod "" {} none
        method.parameters⟩

/-- An empty assignment at the end of a body declares its name again. So does one that is numbered
late but written early, in a tree that is nested but does not keep to the grammar. -/
theorem ofMethod_assigns_twice :
    (isGrammatical .python Samples.hollowAssignments = true ∧ ∃ root method,
      lower .python Samples.hollowAssignments = some root ∧ method ∈ root.preorder ∧
      Samples.summary .python method =
        [("", some .assignment, 9, 13), ("", some .assignment, 13, 13)]) ∧
    (Samples.exchanged.isNested = true ∧ ∃ root method,
      lower .python Samples.exchanged = some root ∧ method ∈ root.preorder ∧
      Samples.summary .python method =
        [("x", some .assignment, 23, 26), ("x", some .assignment, 18, 26)]) := by
  refine ⟨⟨by decide +kernel, ?_⟩, by decide +kernel, ?_⟩
  · exact Samples.exists_method (by decide +kernel)
  · exact Samples.exists_method (by decide +kernel)

end Body

end CodeEvolution
