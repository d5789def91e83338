import CodeEvolution.Proofs.Samples
import Mathlib.Data.List.Nodup
import Mathlib.Logic.Relation
/-!
# Subtypes

Whether a class inherits from another is settled by a search that looks at every name once. While it
has not found the ancestor, no name that it looked at inherits from it directly, and the parents of
such a name were looked at or are pending. So in the end the names looked at are closed under
parents, and no chain of supertypes leads out of them to the ancestor.

A class goes by its qualified name. Two classes of a model may share one, and then the first of
them stands for both: a chain that comes to the second goes on from the first.
-/
namespace CodeEvolution.Model

variable {c : ModelClass} {m : Model} {child ancestor name : String}

/-! ## Chains of supertypes -/

/-- One of the supertype names of a class is resolved to a class. -/
def Extends (m : Model) (c d : ModelClass) : Prop :=
  ∃ parent ∈ c.supertypes, m.resolve? parent = some d

/-- One of the supertype names of a class is resolved to a class, and a class stands for all that
have its qualified name. -/
def ExtendsByName (m : Model) (c d : ModelClass) : Prop :=
  ∃ resolved, m.Extends c resolved ∧ m.class? resolved.qualifiedName = some d

/-- A class directly inherits from what a name stands for: from a class of that qualified name, or
from what no class is known of. -/
def DirectlyInherits (m : Model) (c : ModelClass) (ancestor : String) : Prop :=
  (∃ d, m.Extends c d ∧ d.qualifiedName = ancestor) ∨
    (ancestor ∈ c.supertypes ∧ m.resolve? ancestor = none)

/-- The class of a name inherits from what another name stands for, by a chain of the given
steps. -/
def InheritsThrough (m : Model) (step : ModelClass → ModelClass → Prop)
    (child ancestor : String) : Prop :=
  ∃ c d, m.class? child = some c ∧ Relation.ReflTransGen step c d ∧ m.DirectlyInherits d ancestor

/-! ## Chains of names -/

def IsParentName (m : Model) (name parent : String) : Prop :=
  ∃ c d, m.class? name = some c ∧ m.Extends c d ∧ d.qualifiedName = parent

theorem mem_classes_of_class? (h : m.class? name = some c) :
    c ∈ m.classes ∧ c.qualifiedName = name :=
  ⟨List.mem_of_find?_eq_some h, by simpa using List.find?_some h⟩

theorem mem_classes_of_resolve? (h : m.resolve? name = some c) : c ∈ m.classes := by
  unfold resolve? at h
  split at h
  · rename_i d hclass
    obtain rfl := Option.some.inj h
    exact (mem_classes_of_class? hclass).1
  · exact List.mem_of_find?_eq_some h

theorem reflTransGen_isParentName_iff {d : ModelClass} (hc : m.class? child = some c) :
    (∃ name, Relation.ReflTransGen m.IsParentName child name ∧ m.class? name = some d) ↔
      Relation.ReflTransGen m.ExtendsByName c d := by
  constructor
  · rintro ⟨name, hchain, hd⟩
    induction hchain using Relation.ReflTransGen.head_induction_on generalizing c with
    | refl =>
      obtain rfl := Option.some.inj (hc.symm.trans hd)
      exact .refl
    | head hparent hrest ih =>
      obtain ⟨c', resolved, hc', hextends, rfl⟩ := hparent
      obtain rfl := Option.some.inj (hc.symm.trans hc')
      -- The first class of the resolved name goes on with the chain.
      have hsome : (m.class? resolved.qualifiedName).isSome = true := by
        obtain ⟨_, -, hresolve⟩ := hextends
        exact List.find?_isSome.mpr ⟨resolved, mem_classes_of_resolve? hresolve, by simp⟩
      obtain ⟨next, hnext⟩ := Option.isSome_iff_exists.mp hsome
      exact .head ⟨resolved, hextends, hnext⟩ (ih hnext)
  · intro hchain
    induction hchain with
    | refl => exact ⟨child, .refl, hc⟩
    | tail _ hstep ih =>
      obtain ⟨name, hnames, hname⟩ := ih
      obtain ⟨resolved, hextends, hnext⟩ := hstep
      exact ⟨resolved.qualifiedName, hnames.tail ⟨_, resolved, hname, hextends, rfl⟩, hnext⟩

/-! ## The search -/

section Search

variable {names pending next visited : List String}

theorem pushParents?_eq_none_iff :
    m.pushParents? ancestor names pending = none ↔
      (∃ parent ∈ names, ∃ d, m.resolve? parent = some d ∧ d.qualifiedName = ancestor) ∨
        (ancestor ∈ names ∧ m.resolve? ancestor = none) := by
  fun_induction pushParents? m ancestor names pending with
  | case1 => simp
  | case2 => grind
  | case3 => grind
  | case4 => grind
  | case5 => grind

theorem mem_pushParents? (h : m.pushParents? ancestor names pending = some next) :
    name ∈ next ↔ name ∈ pending ∨
      ∃ parent ∈ names, ∃ d, m.resolve? parent = some d ∧ d.qualifiedName = name := by
  fun_induction pushParents? m ancestor names pending with
  | case1 => grind
  | case2 => cases h
  | case3 => grind
  | case4 => cases h
  | case5 => grind

theorem pushParents?_class :
    m.pushParents? ancestor c.supertypes pending = none ↔ m.DirectlyInherits c ancestor := by
  rw [pushParents?_eq_none_iff, DirectlyInherits]
  refine or_congr_left ⟨?_, ?_⟩
  · rintro ⟨parent, hparent, d, hresolve, hname⟩
    exact ⟨d, ⟨parent, hparent, hresolve⟩, hname⟩
  · rintro ⟨d, ⟨parent, hparent, hresolve⟩, hname⟩
    exact ⟨parent, hparent, d, hresolve, hname⟩

theorem mem_pushParents?_class (hc : m.class? child = some c)
    (h : m.pushParents? ancestor c.supertypes pending = some next) :
    name ∈ next ↔ name ∈ pending ∨ m.IsParentName child name := by
  rw [mem_pushParents? h]
  refine or_congr_right ⟨?_, ?_⟩
  · rintro ⟨parent, hparent, d, hresolve, hname⟩
    exact ⟨c, d, hc, ⟨parent, hparent, hresolve⟩, hname⟩
  · rintro ⟨c', d, hc', ⟨parent, hparent, hresolve⟩, hname⟩
    obtain rfl := Option.some.inj (hc.symm.trans hc')
    exact ⟨parent, hparent, d, hresolve, hname⟩

/-- The class of a name directly inherits from what another name stands for. -/
def NameInherits (m : Model) (ancestor name : String) : Prop :=
  ∃ d, m.class? name = some d ∧ m.DirectlyInherits d ancestor

theorem exists_chain_of_searchAncestor (h : m.searchAncestor ancestor visited pending = true) :
    ∃ start ∈ pending, ∃ name,
      Relation.ReflTransGen m.IsParentName start name ∧ m.NameInherits ancestor name := by
  fun_induction searchAncestor m ancestor visited pending with
  | case1 => cases h
  | case2 visited current pending _ ih =>
    obtain ⟨start, hstart, hchain⟩ := ih h
    exact ⟨start, List.mem_cons_of_mem _ hstart, hchain⟩
  | case3 visited current pending _ _ ih =>
    obtain ⟨start, hstart, hchain⟩ := ih h
    exact ⟨start, List.mem_cons_of_mem _ hstart, hchain⟩
  | case4 visited current pending _ c hclass hpush =>
    exact ⟨current, List.mem_cons_self, current, .refl, c, hclass, pushParents?_class.mp hpush⟩
  | case5 visited current pending _ c hclass next hpush ih =>
    obtain ⟨start, hstart, name, hchain, hinherits⟩ := ih h
    rcases (mem_pushParents?_class hclass hpush).mp hstart with hstart | hparent
    · exact ⟨start, List.mem_cons_of_mem _ hstart, name, hchain, hinherits⟩
    · exact ⟨current, List.mem_cons_self, name, .head hparent hchain, hinherits⟩

/-- What the search knows of the names that it looked at before it finds the ancestor. -/
structure Explored (m : Model) (ancestor : String) (visited pending : List String) : Prop where
  barren : ∀ name ∈ visited, ¬m.NameInherits ancestor name
  covered : ∀ name ∈ visited, ∀ parent, m.IsParentName name parent →
    parent ∈ visited ∨ parent ∈ pending

theorem Explored.visit (h : m.Explored ancestor visited (child :: pending))
    (hbarren : ¬m.NameInherits ancestor child) (hkept : pending ⊆ next)
    (hcovered : ∀ parent, m.IsParentName child parent → parent ∈ next) :
    m.Explored ancestor (child :: visited) next := by
  constructor
  · intro name hname
    rcases List.mem_cons.mp hname with rfl | hname
    · exact hbarren
    · exact h.barren name hname
  · intro name hname parent hparent
    rcases List.mem_cons.mp hname with rfl | hname
    · exact Or.inr (hcovered parent hparent)
    · rcases h.covered name hname parent hparent with hparent | hparent
      · exact Or.inl (List.mem_cons_of_mem _ hparent)
      · rcases List.mem_cons.mp hparent with rfl | hparent
        · exact Or.inl List.mem_cons_self
        · exact Or.inr (hkept hparent)

/-- A search that finds nothing ends with names closed under parents, of which none inherits from
the ancestor. -/
theorem exists_explored_of_searchAncestor (hexplored : m.Explored ancestor visited pending)
    (h : m.searchAncestor ancestor visited pending = false) :
    ∃ closed, visited ⊆ closed ∧ pending ⊆ closed ∧ m.Explored ancestor closed [] := by
  fun_induction searchAncestor m ancestor visited pending with
  | case1 visited => exact ⟨visited, List.Subset.refl _, List.nil_subset _, hexplored⟩
  | case2 visited current pending hseen ih =>
    have hrest : m.Explored ancestor visited pending := by
      refine ⟨hexplored.barren, fun name hname parent hparent => ?_⟩
      rcases hexplored.covered name hname parent hparent with hparent | hparent
      · exact Or.inl hparent
      · rcases List.mem_cons.mp hparent with rfl | hparent
        · exact Or.inl hseen
        · exact Or.inr hparent
    obtain ⟨closed, hvisited, hpending, hclosed⟩ := ih hrest h
    exact ⟨closed, hvisited, List.cons_subset.mpr ⟨hvisited hseen, hpending⟩, hclosed⟩
  | case3 visited current pending _ hclass ih =>
    have hnext : m.Explored ancestor (current :: visited) pending := by
      apply hexplored.visit _ (List.Subset.refl _)
      · rintro _ ⟨c, -, hc, -⟩
        simp [hclass] at hc
      · rintro ⟨d, hd, -⟩
        simp [hclass] at hd
    obtain ⟨closed, hvisited, hpending, hclosed⟩ := ih hnext h
    obtain ⟨hcurrent, hvisited⟩ := List.cons_subset.mp hvisited
    exact ⟨closed, hvisited, List.cons_subset.mpr ⟨hcurrent, hpending⟩, hclosed⟩
  | case4 => cases h
  | case5 visited current pending _ c hclass next hpush ih =>
    have hmem : ∀ name, name ∈ next ↔ name ∈ pending ∨ m.IsParentName current name :=
      fun name => mem_pushParents?_class hclass hpush
    have hnext : m.Explored ancestor (current :: visited) next := by
      apply hexplored.visit _ fun name hname => (hmem name).mpr (Or.inl hname)
      · exact fun parent hparent => (hmem parent).mpr (Or.inr hparent)
      · rintro ⟨d, hd, hinherits⟩
        obtain rfl := Option.some.inj (hclass.symm.trans hd)
        simp [pushParents?_class.mpr hinherits] at hpush
    obtain ⟨closed, hvisited, hpending, hclosed⟩ := ih hnext h
    obtain ⟨hcurrent, hvisited⟩ := List.cons_subset.mp hvisited
    refine ⟨closed, hvisited, List.cons_subset.mpr ⟨hcurrent, fun name hname => ?_⟩, hclosed⟩
    exact hpending ((hmem name).mpr (Or.inl hname))

theorem Explored.barren_of_chain (h : m.Explored ancestor visited []) (hchild : child ∈ visited)
    (hchain : Relation.ReflTransGen m.IsParentName child name) :
    ¬m.NameInherits ancestor name := by
  apply h.barren
  induction hchain with
  | refl => exact hchild
  | tail _ hparent ih =>
    rcases h.covered _ ih _ hparent with hmem | hmem
    · exact hmem
    · exact absurd hmem List.not_mem_nil

end Search

/-! ## Subtypes -/

theorem isSubtype_eq_true_iff :
    m.isSubtype child ancestor = true ↔
      ∃ name, Relation.ReflTransGen m.IsParentName child name ∧ m.NameInherits ancestor name := by
  constructor
  · intro h
    obtain ⟨start, hstart, hchain⟩ := exists_chain_of_searchAncestor h
    rwa [List.mem_singleton.mp hstart] at hchain
  · rintro ⟨name, hchain, hinherits⟩
    rw [← Bool.not_eq_false]
    intro hnone
    obtain ⟨closed, -, hpending, hclosed⟩ :=
      exists_explored_of_searchAncestor ⟨by simp, by simp⟩ hnone
    exact hclosed.barren_of_chain (hpending List.mem_cons_self) hchain hinherits

theorem exists_class?_of_chain {d : ModelClass}
    (hchain : Relation.ReflTransGen m.IsParentName child name) (hd : m.class? name = some d) :
    ∃ c, m.class? child = some c := by
  cases hchain using Relation.ReflTransGen.head_induction_on with
  | refl => exact ⟨d, hd⟩
  | head hparent _ =>
    obtain ⟨c, _, hc, _⟩ := hparent
    exact ⟨c, hc⟩

theorem isSubtype_iff_inheritsThrough :
    m.isSubtype child ancestor = true ↔ m.InheritsThrough m.ExtendsByName child ancestor := by
  rw [isSubtype_eq_true_iff]
  constructor
  · rintro ⟨name, hchain, d, hd, hinherits⟩
    obtain ⟨c, hc⟩ := exists_class?_of_chain hchain hd
    exact ⟨c, d, hc, (reflTransGen_isParentName_iff hc).mp ⟨name, hchain, hd⟩, hinherits⟩
  · rintro ⟨c, d, hc, hchain, hinherits⟩
    obtain ⟨name, hnames, hd⟩ := (reflTransGen_isParentName_iff hc).mpr hchain
    exact ⟨name, hnames, d, hd, hinherits⟩

theorem resolve?_of_class? (h : m.class? name = some c) : m.resolve? name = some c := by
  simp only [resolve?, h]

theorem isSubtype_trans {first second third : String} (h : m.isSubtype first second = true)
    (h' : m.isSubtype second third = true) : m.isSubtype first third = true := by
  rw [isSubtype_eq_true_iff] at h h' ⊢
  obtain ⟨name, hchain, d, hd, hinherits⟩ := h
  obtain ⟨name', hchain', d', hd', hinherits'⟩ := h'
  rcases hinherits with ⟨resolved, hextends, hname⟩ | ⟨-, hunresolved⟩
  · have hparent : m.IsParentName name second := ⟨d, resolved, hd, hextends, hname⟩
    exact ⟨name', (hchain.tail hparent).trans hchain', d', hd', hinherits'⟩
  · -- A name that denotes no class is not where a chain starts.
    obtain ⟨c, hc⟩ := exists_class?_of_chain hchain' hd'
    rw [resolve?_of_class? hc] at hunresolved
    exact absurd hunresolved (by simp)

theorem extendsByName_eq_extends (h : (m.classes.map ModelClass.qualifiedName).Nodup) :
    m.ExtendsByName = m.Extends := by
  have hself : ∀ c ∈ m.classes, m.class? c.qualifiedName = some c := by
    intro c hc
    have hsome : (m.class? c.qualifiedName).isSome = true := List.find?_isSome.mpr ⟨c, hc, by simp⟩
    obtain ⟨d, hd⟩ := Option.isSome_iff_exists.mp hsome
    obtain ⟨hmem, hname⟩ := mem_classes_of_class? hd
    rw [hd, List.inj_on_of_nodup_map h hmem hc hname]
  funext c d
  refine propext ⟨?_, ?_⟩
  · rintro ⟨resolved, ⟨parent, hparent, hresolve⟩, hd⟩
    rw [hself resolved (mem_classes_of_resolve? hresolve)] at hd
    exact ⟨parent, hparent, hresolve.trans hd⟩
  · rintro ⟨parent, hparent, hresolve⟩
    exact ⟨d, ⟨parent, hparent, hresolve⟩, hself d (mem_classes_of_resolve? hresolve)⟩

end CodeEvolution.Model

namespace CodeEvolution

namespace Samples

def bareClass (package name : String) (supertypes : List String) : ModelClass :=
  { classOf name supertypes [] [] with package }

/-- `b` of the package `a` holds a class `C`, and so does the package `a.b`. -/
def sharedName : Model where
  classes := [bareClass "a" "b.C" [], bareClass "a.b" "C" ["Q"], bareClass "" "D" ["C"]]

/-- Two classes that name each other as supertypes, one of them twice and beside a class that is
not there. -/
def circle : Model where
  classes := [bareClass "p" "A" ["B", "p.B"], bareClass "p" "B" ["A", "q.Outer"]]

end Samples

namespace Model

/-- A class is a subtype of what a chain of declared supertypes leads to: each step goes from a
class to the one that stands for all with the qualified name of a resolved supertype, and the last
one to a class of the given qualified name or to a name that is spelled like it and denotes no
class. The relation is transitive. Where no two classes share a qualified name, each step goes to
the resolved supertype itself. -/
theorem isSubtype_isReachability (m : Model) :
    (∀ child ancestor, m.isSubtype child ancestor = true ↔
      m.InheritsThrough m.ExtendsByName child ancestor) ∧
    (∀ first second third, m.isSubtype first second = true → m.isSubtype second third = true →
      m.isSubtype first third = true) ∧
    ((m.classes.map ModelClass.qualifiedName).Nodup → ∀ child ancestor,
      m.isSubtype child ancestor = true ↔ m.InheritsThrough m.Extends child ancestor) := by
  refine ⟨fun _ _ => isSubtype_iff_inheritsThrough, fun _ _ _ => isSubtype_trans, ?_⟩
  intro hnodup child ancestor
  rw [isSubtype_iff_inheritsThrough, extendsByName_eq_extends hnodup]

/-- In a circle every class is a subtype of itself and of what any class of the circle names. -/
theorem isSubtype_isReachability_circle :
    Samples.circle.InheritsThrough Samples.circle.Extends "p.A" "p.A" ∧
      Samples.circle.InheritsThrough Samples.circle.Extends "p.A" "q.Outer" ∧
      ¬Samples.circle.InheritsThrough Samples.circle.Extends "p.A" "Outer" := by
  have hnodup : (Samples.circle.classes.map ModelClass.qualifiedName).Nodup := by
    decide +kernel
  have hiff := (isSubtype_isReachability Samples.circle).2.2 hnodup
  refine ⟨(hiff _ _).mp ?_, (hiff _ _).mp ?_, fun h => ?_⟩
  · decide +kernel
  · decide +kernel
  · exact absurd ((hiff _ _).mpr h) (by decide +kernel)

/-- Of two classes with one qualified name only the first counts: what the second one, to which the
supertype of `D` is resolved, inherits from is not found. -/
theorem isSubtype_shared_name :
    Samples.sharedName.InheritsThrough Samples.sharedName.Extends "D" "Q" ∧
      Samples.sharedName.isSubtype "D" "Q" = false := by
  refine ⟨⟨Samples.bareClass "" "D" ["C"], Samples.bareClass "a.b" "C" ["Q"], ?_, .single ?_, ?_⟩,
    by decide +kernel⟩
  · rfl
  · exact ⟨"C", by simp [Samples.bareClass, Samples.classOf], rfl⟩
  · exact .inr ⟨by simp [Samples.bareClass, Samples.classOf], rfl⟩

end Model

end CodeEvolution
