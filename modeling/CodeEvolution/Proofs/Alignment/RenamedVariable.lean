import CodeEvolution.Config.Basic
import CodeEvolution.Proofs.Alignment.DirectReplacement
import CodeEvolution.Proofs.Alignment.Namesakes
import CodeEvolution.Proofs.Alignment.StraightLinks
/-!
# How a renamed variable is told

A method is compared with itself after one of its variables got a new name. The fragments of the two
bodies correspond, so the links are straight, and the variables correspond, so all but the renamed
one are paired with themselves. The renamed one is paired if some fragment that refers to it is
explained by the replacement of its name. Other proposals may explain such a fragment as well, and
those that come first hide the renaming: where they do so in every fragment, the variable is told as
removed and added.
-/
namespace CodeEvolution

variable {f : Fragment} {target v : Numbered}

instance Text.decidableIsWord : DecidablePred Text.IsWord := fun text =>
  decidable_of_iff (text ≠ [] ∧ text.all isWordChar)
    ⟨fun h => ⟨h.1, by simpa using h.2⟩, fun h => ⟨h.ne_nil, by simpa using h.word⟩⟩

namespace Comparison

/-- A method is compared with itself after the variable with the number `id`, which shares its name
with no other parameter or local variable, got a name that was not in use. -/
structure RenamesVariable (c : Comparison) (r : Renaming) (method : Node) (parameters : List Node)
    (id : Nat) : Prop where
  before : c.before = Body.ofMethod r.around method parameters
  after : c.after =
    Body.ofMethod r.around (method.rename r.name) (parameters.map (Node.rename r.name))
  beforeScope : c.beforeScope = none
  afterScope : c.afterScope = none
  budget : 0 < c.maxReplacements
  once : ((VariableDelta.tracked c.before).filter fun v => v.1.name == r.old).map Prod.snd = [id]
  admits : method.Everywhere (Node.Admits r)
  fresh : ∀ parameter ∈ parameters, parameter.name? ≠ some r.new

/-- Whether a fragment names the variable, and the old name is no word of its new text. -/
def isPlain (c : Comparison) (r : Renaming) (f : Fragment) : Bool :=
  f.facts.mentions r.old && !Text.containsWord (c.twin f).text r.old

/-- The new texts are told from the old ones, and what is not plain from the rest. The new name was
no word of a fragment, wherever there are blanks between the tokens. Equal texts that keep the old
name somewhere stay equal. At most one statement changes that is neither plain nor explained by one
replacement, in a place of its own, and if it is not explained at all, it introduces no other
variable. -/
structure SetsApart (c : Comparison) (r : Renaming) (id : Nat) : Prop where
  unused : ∀ f ∈ c.before.fragments, ∀ text, Text.tokenize text = Text.tokenize f.text →
    Text.containsWord text r.new = false
  alike : ∀ f ∈ c.before.fragments, ∀ g ∈ c.before.fragments, f.kind = g.kind →
    f.text = g.text → Text.containsWord (c.twin f).text r.old = true →
      (c.twin f).text = (c.twin g).text
  quiet : ∀ f ∈ c.before.statements, ∀ g ∈ c.before.statements, c.isChanged f = true →
    c.isChanged g = true → f.id ≠ g.id → c.isPlain r f = false → ¬c.IsDirect f →
      (c.isPlain r g = true ∨ c.IsDirect g) ∧
        (f.kind = g.kind → f.depth ≠ g.depth ∨ f.index ≠ g.index)
  introduced : ∀ f ∈ c.before.leaves, c.isTold f = false →
    ∀ v ∈ VariableDelta.tracked c.before, v.1.statement = some f.id → v.2 = id

/-- Whether a fragment refers to a variable and changes. -/
def isAffected (c : Comparison) (id : Nat) (f : Fragment) : Bool :=
  (c.before.references[id]?.getD []).contains f.id && c.isChanged f

/-- Whether a fragment shows that a variable was renamed: it is affected and plain, and no proposal
that comes before the replacement of the name arrives at its new text. -/
def showsRenaming (c : Comparison) (r : Renaming) (id : Nat) (f : Fragment) : Bool :=
  c.isAffected id f && c.isPlain r f &&
    (Replacement.rivals c f (c.twin f)).all fun s =>
      !Replacement.reaches (Text.tokenize (c.twin f).text) f.text s

/-- Whether nothing but a name can be exchanged in a fragment: there is no choice and no member
access in it, its calls are of one name and on no receiver, and no initial value of the variable
is in its texts. -/
def isFlat (c : Comparison) (r : Renaming) (f : Fragment) : Bool :=
  f.facts.choices.isEmpty && f.facts.accesses.isEmpty &&
    (f.facts.invocations.all fun i =>
      i.receiver?.isNone && f.facts.invocations.all fun j => i.name == j.name) &&
    (c.before.declarations ++ c.after.declarations).all fun v =>
      (v.name != r.old && v.name != r.new) || v.initializer.all fun value =>
        !Text.contains f.text value && !Text.contains (c.twin f).text value

end Comparison

/-- The variable with the number `id` is told as renamed, and nothing else about variables. -/
def Alignment.TellsRenamed (alignment : Alignment) (id : Nat) : Prop :=
  alignment.variableDelta.renamed = [(id, id)] ∧ alignment.variableDelta.removed = [] ∧
    alignment.variableDelta.added = []

instance (alignment : Alignment) (id : Nat) : Decidable (alignment.TellsRenamed id) :=
  inferInstanceAs (Decidable (_ ∧ _ ∧ _))

instance (c : Comparison) (f : Fragment) : Decidable (c.IsDirect f) :=
  decidable_of_iff ((Replacement.find? c f (c.twin f)).map List.length = some 1) (by
    rw [Comparison.IsDirect, Option.map_eq_some_iff]
    simp only [List.length_eq_one_iff]
    grind)

/-- What an alignment says when the variable with the number `id` was renamed. -/
structure Alignment.TellsRenaming (c : Comparison) (r : Renaming) (id : Nat)
    (alignment : Alignment) : Prop where
  links : alignment.links = (c.before.fragments.filter c.isPaired).map c.ownLink
  straight : ∀ link ∈ alignment.links, link.after = link.before
  beforeLeaves : alignment.unmappedBeforeLeaves =
    (c.before.leaves.filter fun f => !c.isTold f).map Fragment.id
  afterLeaves : alignment.unmappedAfterLeaves = alignment.unmappedBeforeLeaves
  told : ∀ f ∈ c.before.fragments, c.isPlain r f = true → c.isTold f = true
  composites : alignment.unmappedBeforeComposites = [] ∧ alignment.unmappedAfterComposites = []
  others : ∀ v ∈ VariableDelta.tracked c.before, v.2 ≠ id →
    (v.2, v.2) ∈ alignment.variableDelta.common ∨ (v.2, v.2) ∈ alignment.variableDelta.replaced
  shown : ∀ f ∈ c.before.fragments, c.showsRenaming r id f = true → alignment.TellsRenamed id
  flat : c.binding = [] → ∀ f ∈ c.before.fragments, c.isAffected id f = true →
    c.isPlain r f = true → c.isFlat r f = true → alignment.TellsRenamed id
  hidden : c.before.fragments.any (c.showsRenaming r id) = false →
    (∀ f ∈ c.before.fragments, c.isAffected id f = true → c.isPlain r f = true) →
      alignment.variableDelta.renamed = [] ∧ alignment.variableDelta.removed = [id] ∧
        alignment.variableDelta.added = [id]

namespace Comparison

open VariableDelta

theorem isMember_of_isTracked {v : Variable} (h : isTracked v = true) : v.isMember = false := by
  cases hrole : v.role <;> simp_all [isTracked, Variable.isMember]

variable {c : Comparison} {r : Renaming} {method : Node} {parameters : List Node} {id : Nat}

namespace RenamesVariable

variable (h : c.RenamesVariable r method parameters id)

include h

theorem isRenamed : c.before.IsRenamed r c.after := by
  rw [h.before, h.after]
  exact Body.ofMethod_isRenamed h.admits h.fresh

theorem isTwinned : c.IsTwinned where
  fragments := h.isRenamed.fragments.imp fun _ _ hfg => hfg.twin
  laidOut := h.before ▸ Body.ofMethod_isLaidOut r.around method parameters
  beforeScope := h.beforeScope
  afterScope := h.afterScope

theorem twin_isRenamed (hf : f ∈ c.before.fragments) : f.IsRenamed r (c.twin f) := by
  have hget := Body.get?_of_mem h.isTwinned.laidOut.ids hf
  obtain ⟨g, hg, hfg⟩ := Body.exists_of_getElem? h.isRenamed.fragments hget
  rw [twin, Body.get?, hg]
  exact hfg

theorem variable_isRenamed (hv : v ∈ tracked c.before) : v.1.IsRenamed r (namesake c v).1 := by
  obtain ⟨w, hw, hvw⟩ := Body.exists_of_getElem? h.isRenamed.declarations (mem_tracked.mp hv).1
  rw [namesake, hw]
  exact hvw

theorem namesake_name (hv : v ∈ tracked c.before) :
    (namesake c v).1.name = r.name v.1.name ∧ v.1.name ≠ r.new := by
  have hrenamed := h.variable_isRenamed hv
  have hlocal := isMember_of_isTracked (mem_tracked.mp hv).2
  exact ⟨hrenamed.name_of_local hlocal, hrenamed.fresh hlocal⟩

theorem tracked_after : tracked c.after = (tracked c.before).map (namesake c) := by
  have hall : c.after.declarations.zipIdx = c.before.declarations.zipIdx.map (namesake c) := by
    apply List.ext_getElem?
    intro index
    rw [List.getElem?_map, List.getElem?_zipIdx, List.getElem?_zipIdx]
    cases hv : c.before.declarations[index]? with
    | none =>
      rw [List.getElem?_eq_none_iff, h.isRenamed.declarations.length_eq,
        ← List.getElem?_eq_none_iff] at hv
      rw [hv]
      rfl
    | some v =>
      obtain ⟨w, hw, -⟩ := Body.exists_of_getElem? h.isRenamed.declarations hv
      simp [hw, namesake]
  rw [tracked, tracked, hall, List.filter_map]
  congr 1
  apply List.filter_congr
  intro v hv
  rw [List.mem_zipIdx_iff_getElem?] at hv
  obtain ⟨w, hw, hvw⟩ := Body.exists_of_getElem? h.isRenamed.declarations hv
  simp [isTracked, namesake, hw, hvw.role]

theorem exists_target : ∃ target : Numbered, target.1.name = r.old ∧ target.2 = id ∧
    OneRenamed c target := by
  obtain ⟨target, htarget, hid⟩ := List.map_eq_singleton_iff.mp h.once
  have hmem : target ∈ (tracked c.before).filter fun v => v.1.name == r.old := by simp [htarget]
  obtain ⟨hmem, hname⟩ := List.mem_filter.mp hmem
  have hname : target.1.name = r.old := by simpa using hname
  have honly : ∀ v ∈ tracked c.before, v.1.name = r.old → v = target := by
    intro v hv heq
    have hfound : v ∈ (tracked c.before).filter fun v => v.1.name == r.old := by simp [hv, heq]
    simpa [htarget] using hfound
  have hother : ∀ v ∈ tracked c.before, v.2 ≠ target.2 → v.1.name ≠ r.old :=
    fun v hv hne heq => hne (congrArg Prod.snd (honly v hv heq))
  refine ⟨target, hname, hid, h.tracked_after, hmem, ?_, ?_, ?_, ?_⟩
  · exact fun v hv => (h.variable_isRenamed hv).role
  · intro v hv hne
    rw [(h.namesake_name hv).1, r.name_of_ne (hother v hv hne)]
  · rw [hname]
    exact hother
  · intro v hv
    rw [(h.namesake_name hmem).1, hname, r.name_old]
    exact (h.namesake_name hv).2

theorem mentions_of_mem_references (htarget : target ∈ tracked c.before)
    (hf : f ∈ c.before.fragments) (href : f.id ∈ references c.before target) :
    f.facts.mentions target.1.name = true ∧ f.isBlock = false := by
  have hreferences : c.before.references = c.before.declarations.map fun v =>
      (c.before.fragments.filter (Body.refersTo r.around.receiver? v)).map Fragment.id := by
    rw [h.before]
    exact Body.ofMethod_references r.around method parameters
  obtain ⟨hdeclared, htracked⟩ := mem_tracked.mp htarget
  rw [references, hreferences, List.getElem?_map, hdeclared, Option.map_some, Option.getD_some]
    at href
  obtain ⟨g, hg, hid⟩ := List.mem_map.mp href
  obtain ⟨hmem, hrefers⟩ := List.mem_filter.mp hg
  rw [h.isTwinned.laidOut.eq_of_id hmem hf hid] at hrefers
  unfold Body.refersTo at hrefers
  rw [isMember_of_isTracked htracked] at hrefers
  simp only [Bool.and_eq_true, Bool.not_eq_true', Bool.false_eq_true, if_false] at hrefers
  exact ⟨hrefers.2.2, hrefers.1⟩

theorem references_namesake (htarget : target ∈ tracked c.before) :
    references c.after (namesake c target) = references c.before target := by
  obtain ⟨hdeclared, htracked⟩ := mem_tracked.mp htarget
  rw [references, references, namesake,
    h.isRenamed.references target.2 target.1 hdeclared (isMember_of_isTracked htracked)]

theorem showsRenaming_of_isFlat (hbinding : c.binding = []) (hf : f ∈ c.before.fragments)
    (haffected : c.isAffected id f = true) (hplain : c.isPlain r f = true)
    (hflat : c.isFlat r f = true) : c.showsRenaming r id f = true := by
  simp only [isFlat, Bool.and_eq_true, List.isEmpty_iff, List.all_eq_true, beq_iff_eq,
    Bool.or_eq_true, bne_iff_ne, Option.all_eq_true, Bool.not_eq_true'] at hflat
  obtain ⟨⟨⟨hchoices, haccesses⟩, hcalls⟩, hvalues⟩ := hflat
  have hnone := Replacement.rivals_eq_nil (h.twin_isRenamed hf).facts hbinding hchoices haccesses
    hcalls fun v hv hname => (hvalues v hv).resolve_left (by tauto)
  rw [showsRenaming, haffected, hplain, hnone]
  rfl

end RenamesVariable

section Told

variable (h : c.RenamesVariable r method parameters id) (hapart : c.SetsApart r id)

include h hapart

theorem apart {g : Fragment} (hf : f ∈ c.before.fragments) (hg : g ∈ c.before.fragments)
    (hchanged : c.isChanged f = true) : Text.tokenize g.text ≠ Text.tokenize (c.twin f).text := by
  intro htokens
  have hword := ((h.twin_isRenamed hf).text.eq_or_containsWord r.newWord).resolve_left
    (isChanged_eq_true_iff.mp hchanged)
  rw [hapart.unused g hg _ htokens.symm] at hword
  cases hword

theorem find?_twin (hf : f ∈ c.before.fragments) (hchanged : c.isChanged f = true)
    (hplain : c.isPlain r f = true) :
    Replacement.find? c f (c.twin f) = some [((Replacement.rivals c f (c.twin f)).find?
      (Replacement.reaches (Text.tokenize (c.twin f).text) f.text)).getD
        (Replacement.ofRenaming r)] := by
  obtain ⟨hold, hgone⟩ := Bool.and_eq_true_iff.mp hplain
  have hrenamed := h.twin_isRenamed hf
  exact Replacement.find?_of_isRenamed h.budget hrenamed.twin.kind.symm
    (apart h hapart hf hf hchanged)
    hrenamed.facts hold (hrenamed.text.replaceIdentifier?_eq r.oldWord r.change
      (isChanged_eq_true_iff.mp hchanged) (Bool.not_eq_true' _ |>.mp hgone))

theorem isDirect (hf : f ∈ c.before.fragments) (hchanged : c.isChanged f = true)
    (hplain : c.isPlain r f = true) : c.IsDirect f :=
  ⟨_, find?_twin h hapart hf hchanged hplain⟩

theorem isTold_of_isPlain (hf : f ∈ c.before.fragments) (hplain : c.isPlain r f = true) :
    c.isTold f = true := by
  cases hchanged : c.isChanged f with
  | false => simp [isTold, hchanged]
  | true => exact isTold_of_isDirect (isDirect h hapart hf hchanged hplain)

/-- The link of a plain fragment replaces the name, unless the fragment keeps its text or another
proposal comes first. -/
theorem ownLink_renames (hf : f ∈ c.before.fragments)
    (hplain : c.isChanged f = true → c.isPlain r f = true) :
    ((c.ownLink f).replacements.any fun s =>
        s.kind == .variableName && s.before == r.old && s.after == r.new) =
      (c.isChanged f && (Replacement.rivals c f (c.twin f)).all fun s =>
        !Replacement.reaches (Text.tokenize (c.twin f).text) f.text s) := by
  cases hchanged : c.isChanged f with
  | false =>
    rw [ownLink_of_kept h.isTwinned hf (isChanged_eq_false_iff.mp hchanged)]
    rfl
  | true =>
    rw [ownLink_of_find? h.isTwinned hf (find?_twin h hapart hf hchanged (hplain hchanged))]
    cases hrival : (Replacement.rivals c f (c.twin f)).find?
        (Replacement.reaches (Text.tokenize (c.twin f).text) f.text) with
    | none => simpa [Replacement.ofRenaming] using List.find?_eq_none.mp hrival
    | some s =>
      have hmem := List.mem_of_find?_eq_some hrival
      have hreaches := List.find?_some hrival
      have hother : (s.kind == .variableName) = false :=
        beq_eq_false_iff_ne.mpr (Replacement.kind_of_mem_rivals hmem)
      have hnot : ((Replacement.rivals c f (c.twin f)).all fun s =>
          !Replacement.reaches (Text.tokenize (c.twin f).text) f.text s) = false := by
        rw [List.all_eq_false]
        exact ⟨s, hmem, by simp [hreaches]⟩
      simp [hother, hnot]

/-- The link of an affected fragment tells the renaming exactly if the fragment shows it. -/
theorem tells_iff (htarget : OneRenamed c target) (hname : target.1.name = r.old)
    (hid : target.2 = id) (hf : f ∈ c.before.fragments)
    (hplain : c.isAffected id f = true → c.isPlain r f = true) :
    (c.isPaired f && isRenaming c target (namesake c target) (c.ownLink f)) =
      c.showsRenaming r id f := by
  have hnew : (namesake c target).1.name = r.new := by
    rw [(h.namesake_name htarget.mem).1, hname, r.name_old]
  rw [isRenaming, h.references_namesake htarget.mem, ownLink_before, ownLink_after h.isTwinned hf,
    hname, hnew, Bool.and_self, showsRenaming, isAffected, ← hid, ← references.eq_def]
  rw [isAffected, ← hid, ← references.eq_def] at hplain
  cases href : (references c.before target).contains f.id with
  | false => simp
  | true =>
    rw [href, Bool.true_and] at hplain
    rw [ownLink_renames h hapart hf hplain]
    cases hchanged : c.isChanged f with
    | false => simp
    | true =>
      have hblock := (h.mentions_of_mem_references htarget.mem hf (List.contains_iff_mem.mp href)).2
      have hpaired : c.isPaired f = true := by
        cases hshape : f.shape with
        | leaf => rw [isPaired_of_leaf hshape, isTold_of_isPlain h hapart hf (hplain hchanged)]
        | composite => rw [isPaired_of_composite hshape, hblock, Bool.not_false]
        | expression => exact isPaired_of_expression hshape
      simp [hpaired, hplain hchanged]

theorem isTellable : c.IsTellable where
  alike f hf g hg hkind htext := by
    cases hold : Text.containsWord (c.twin f).text r.old with
    | true => exact hapart.alike f hf g hg hkind htext hold
    | false =>
      cases hold' : Text.containsWord (c.twin g).text r.old with
      | true => exact (hapart.alike g hg f hf hkind.symm htext.symm hold').symm
      | false =>
        have hf := (h.twin_isRenamed hf).text.substitute r.oldWord hold
        have hg := (h.twin_isRenamed hg).text.substitute r.oldWord hold'
        rw [htext, hg] at hf
        exact String.toList_inj.mp hf.symm
  apart f hf g hg hchanged _ := apart h hapart hf hg hchanged
  quiet f hf g hg hchangedf hchangedg hne hnot := by
    have hplain : c.isPlain r f = false := Bool.eq_false_iff.mpr fun hplain =>
      hnot (isDirect h hapart (List.mem_filter.mp hf).1 hchangedf hplain)
    obtain ⟨hg', hplace⟩ := hapart.quiet f hf g hg hchangedf hchangedg hne hplain hnot
    exact ⟨hg'.elim (isDirect h hapart (List.mem_filter.mp hg).1 hchangedg)
      fun hdirect => hdirect, hplace⟩

theorem isParallel : c.IsParallel where
  twinned := h.isTwinned
  tellable := isTellable h hapart
  before := ⟨r.around, method, parameters, h.before⟩
  after := h.after ▸ Body.ofMethod_isLaidOut r.around _ _

theorem isSeen_eq_any :
    isSeen c target c.align.links = c.before.fragments.any fun f =>
      c.isPaired f && isRenaming c target (namesake c target) (c.ownLink f) := by
  rw [isSeen, (isParallel h hapart).align_links_eq, List.any_map, List.any_filter]
  rfl

theorem declaredTogether_namesake (hv : v ∈ tracked c.before) (hne : v.2 ≠ id) :
    declaredTogether c.align.links v.1 (namesake c v).1 = true := by
  refine (isParallel h hapart).declaredTogether (List.mem_of_getElem? (mem_tracked.mp hv).1)
    (h.variable_isRenamed hv).statement fun f hf hstatement => ?_
  by_contra huntold
  exact hne (hapart.introduced f hf (Bool.eq_false_iff.mpr huntold) v hv hstatement)

end Told

end Comparison

namespace RenamedVariable

def named (name : String) : Node :=
  ⟨.simpleName name, {}, []⟩

def method (parameters statements : List Node) : Node :=
  ⟨.methodDeclaration ⟨"f", {}, false, false⟩, {},
    parameters ++ [⟨.absent, {}, []⟩, ⟨.block, {}, statements⟩]⟩

def parameter (name : String) : Node :=
  ⟨.variable name .regular, {}, []⟩

def call (receiver : Node) (name : String) (arguments : List Node) : Node :=
  ⟨.expressionStatement, {}, [⟨.invocation name, {}, receiver :: arguments⟩]⟩

/-- The statements `h(x=x)` and `return x + z`. -/
def keyword : Node :=
  method [parameter "x"] [call ⟨.absent, {}, []⟩ "h" [⟨.keywordArgument "x", {}, [named "x"]⟩],
    ⟨.returnStatement, {}, [⟨.binary "+", {}, [named "x", named "z"]⟩]⟩]

/-- The statement `x.run()`. -/
def receiver : Node :=
  method [parameter "x"] [call (named "x") "run" []]

/-- The statement `log("x", x)`. -/
def quoted : Node :=
  method [parameter "x"]
    [call ⟨.absent, {}, []⟩ "log" [⟨.literal .string "\"x\"", {}, []⟩, named "x"]]

/-- The statements `int x = 5;` and `return x;`. -/
def declared : Node :=
  method [] [⟨.variableDeclaration {}, {}, [⟨.typeRef "int", {}, []⟩,
      ⟨.variable "x" .regular, {}, [⟨.absent, {}, []⟩, ⟨.literal .number "5", {}, []⟩]⟩]⟩,
    ⟨.returnStatement, {}, [named "x"]⟩]

/-- The statements `return é` and `return not é`. -/
def accented : Node :=
  method [parameter "é"] [⟨.returnStatement, {}, [named "é"]⟩,
    ⟨.returnStatement, {}, [⟨.unary "not" true, {}, [named "é"]⟩]⟩]

def comparison (r : Renaming) (method : Node) : Comparison :=
  { before := Body.ofMethod r.around method method.parameters
    after := Body.ofMethod r.around (method.rename r.name)
      (method.parameters.map (Node.rename r.name))
    receivers := r.around.language.receivers
    maxReplacements := ({} : Config).maxReplacements }

/-- The renaming of a variable in a method that stands in no class. -/
def renamed (language : Language) (method : Node) (old new : String)
    (change : old ≠ new := by decide)
    (oldWord : Text.IsWord old.toList := by decide +kernel)
    (newWord : Text.IsWord new.toList := by decide +kernel) : Renaming where
  around := Body.surroundings language "m" {} none method
  old := old
  new := new
  change := change
  oldWord := oldWord
  newWord := newWord
  oldPlain := (Option.some_ne_none _).symm
  newPlain := (Option.some_ne_none _).symm

/-- The method is compared with itself after its only variable, which a statement mentions, got a
name that is no word of it; and a statement is left over, or the variable is not told as renamed. -/
def IsMissed (r : Renaming) (method : Node) : Prop :=
  let c := comparison r method
  c.RenamesVariable r method method.parameters 0 ∧
    (c.before.statements.any fun f => f.facts.mentions r.old) = true ∧
    (c.before.fragments.any fun f => Text.containsWord f.text r.new) = false ∧
    ¬(c.align.unmappedBeforeLeaves = [] ∧ c.align.TellsRenamed 0)

end RenamedVariable

deriving instance DecidableEq for Candidate

open RenamedVariable in
/-- What was `return not é` is linked with `return noté`, which has its tokens and costs no
replacement, and `return é` is left over. -/
theorem Comparison.align_leavesOver_accented :
    (comparison (renamed .python accented "é" "noté") accented).align.unmappedBeforeLeaves ≠
      [] := by
  generalize hc : comparison (renamed .python accented "é" "noté") accented = c
  have hcandidates : c.candidates [] c.leaves (c.byReplacement []) =
      [⟨⟨1, 1, .replaced, [⟨.variableName, "é", "noté"⟩]⟩, [1, 3, 0, 0, 1, 1]⟩,
        ⟨⟨2, 1, .replaced, []⟩, [0, 3, 0, 1, 2, 1]⟩,
        ⟨⟨2, 2, .replaced, [⟨.variableName, "é", "noté"⟩]⟩, [1, 3, 0, 0, 2, 2]⟩] := by
    rw [← hc]
    decide +kernel
  have hlinks : c.phase c.byReplacement [] c.leaves = [⟨2, 1, .replaced, []⟩] := by
    rw [phase, hcandidates]
    simp [List.mergeSort, List.MergeSort.Internal.splitInTwo, costLe, take]
  have hexact : c.phase exactly (c.phase exactly [] c.leaves) c.composites = [] := by
    rw [← hc]
    decide +kernel
  rw [align, statementLinks, hexact, hlinks, ← hc]
  decide +kernel

end CodeEvolution
