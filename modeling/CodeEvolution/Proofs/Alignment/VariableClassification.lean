import CodeEvolution.Proofs.Alignment.Twins
/-!
# The variables of two bodies are classified

Each of the three passes goes through the variables of the first body, and leaves the pairs as
they are or adds the pair of a variable with a free one for which the pass has a reason. What a
pass adds is described once, by induction over such steps: no variable is paired twice, and none
is left over for which the pass has a reason. The classification is read off the three additions.
-/
namespace CodeEvolution

variable {v w : Numbered} {more : List Pair} {p : Pair} (pairs : List Pair) {pairs : List Pair}
  (n : Nat)

namespace VariableDelta

section Passes

/-- What a step of a pass does with a variable. The pairs with which the pass started are given
too. -/
inductive Step (start : List Pair) (afters : List Numbered) (Fits : Numbered → Numbered → Prop)
    (pairs : List Pair) (v : Numbered) : List Pair → Prop
  | leave (why : beforePaired pairs v = false →
      ∀ w ∈ afters, Fits v w → afterPaired pairs w = true) :
    Step start afters Fits pairs v pairs
  | pair {w : Numbered} (mem : w ∈ afters) (fits : Fits v w)
    (fresh : beforePaired start v = false) (free : afterPaired pairs w = false) :
    Step start afters Fits pairs v (pairs ++ [(v, w)])

/-- The pairs that a pass over some variables adds to those with which it started. -/
structure IsAddition (start : List Pair) (vs afters : List Numbered)
    (Fits : Numbered → Numbered → Prop) (more : List Pair) : Prop where
  befores : (more.map Prod.fst).Sublist vs
  mem : ∀ p ∈ more, p.2 ∈ afters
  fits : ∀ p ∈ more, Fits p.1 p.2
  fresh : ∀ p ∈ more, beforePaired start p.1 = false
  free : ∀ p ∈ more, afterPaired start p.2 = false
  distinct : (more.map fun p => p.2.2).Nodup
  settled : ∀ v ∈ vs, beforePaired (start ++ more) v = false →
    ∀ w ∈ afters, Fits v w → afterPaired (start ++ more) w = true

variable {start pairs : List Pair} {vs befores afters : List Numbered}
  {Fits : Numbered → Numbered → Prop} {step : List Pair → Numbered → List Pair}

theorem beforePaired_append (more : List Pair) (v : Numbered) :
    beforePaired (pairs ++ more) v = (beforePaired pairs v || beforePaired more v) :=
  List.any_append

theorem afterPaired_append (more : List Pair) (w : Numbered) :
    afterPaired (pairs ++ more) w = (afterPaired pairs w || afterPaired more w) :=
  List.any_append

theorem afterPaired_eq_false : afterPaired pairs w = false ↔ w.2 ∉ pairs.map fun p => p.2.2 := by
  rw [← Bool.not_eq_true, afterPaired, List.any_eq_true, List.mem_map]
  simp only [beq_iff_eq]

theorem beforePaired_eq_false : beforePaired pairs v = false ↔ v.2 ∉ pairs.map fun p => p.1.2 := by
  rw [← Bool.not_eq_true, beforePaired, List.any_eq_true, List.mem_map]
  simp only [beq_iff_eq]

theorem IsAddition.leave (h : IsAddition start vs afters Fits more)
    (why : beforePaired (start ++ more) v = false → ∀ w ∈ afters, Fits v w →
      afterPaired (start ++ more) w = true) :
    IsAddition start (vs ++ [v]) afters Fits more where
  __ := h
  befores := h.befores.trans (List.sublist_append_left ..)
  settled := by
    intro u hu
    rcases List.mem_append.mp hu with hu | hu
    · exact h.settled u hu
    · obtain rfl := List.mem_singleton.mp hu
      exact why

theorem IsAddition.pair (h : IsAddition start vs afters Fits more) (mem : w ∈ afters)
    (fits : Fits v w) (fresh : beforePaired start v = false)
    (free : afterPaired (start ++ more) w = false) :
    IsAddition start (vs ++ [v]) afters Fits (more ++ [(v, w)]) := by
  rw [afterPaired_append, Bool.or_eq_false_iff] at free
  have hlast : ∀ {P : Pair → Prop}, (∀ p ∈ more, P p) → P (v, w) → ∀ p ∈ more ++ [(v, w)], P p := by
    intro P hmore hnew p hp
    rcases List.mem_append.mp hp with hp | hp
    · exact hmore p hp
    · obtain rfl := List.mem_singleton.mp hp
      exact hnew
  refine ⟨?_, hlast h.mem mem, hlast h.fits fits, hlast h.fresh fresh, hlast h.free free.1, ?_, ?_⟩
  · rw [List.map_append]
    exact h.befores.append (List.Sublist.refl _)
  · rw [List.map_append, List.nodup_append]
    refine ⟨h.distinct, by simp, ?_⟩
    rintro n hn m hm rfl
    obtain rfl := List.mem_singleton.mp hm
    exact afterPaired_eq_false.mp free.2 hn
  · intro u hu hfresh x hx hfits
    rw [← List.append_assoc, beforePaired_append, Bool.or_eq_false_iff] at hfresh
    rw [← List.append_assoc, afterPaired_append, Bool.or_eq_true]
    rcases List.mem_append.mp hu with hu | hu
    · exact Or.inl (h.settled u hu hfresh.1 x hx hfits)
    · obtain rfl := List.mem_singleton.mp hu
      simp [beforePaired] at hfresh

theorem foldl_adds (start : List Pair) (vs : List Numbered)
    (hstep : ∀ more, ∀ v ∈ vs, Step start afters Fits (start ++ more) v (step (start ++ more) v)) :
    ∃ more, vs.foldl step start = start ++ more ∧ IsAddition start vs afters Fits more := by
  -- The induction is from the end, where the last variable is gone through.
  induction vs using List.reverseRecOn with
  | nil => exact ⟨[], by simp, ⟨List.Sublist.refl _, by simp, by simp, by simp, by simp, by simp,
      by simp⟩⟩
  | append_singleton vs v ih =>
    obtain ⟨more, hfold, hmore⟩ := ih fun more u hu => hstep more u (List.mem_append_left _ hu)
    have hlast := hstep more v (by simp)
    rw [List.foldl_append, hfold, List.foldl_cons, List.foldl_nil]
    generalize hresult : step (start ++ more) v = result at hlast
    cases hlast with
    | leave why => exact ⟨more, rfl, hmore.leave why⟩
    | @pair w mem fits fresh free =>
      exact ⟨more ++ [(v, w)], by simp, hmore.pair mem fits fresh free⟩

theorem IsAddition.not_fits {later : List Pair} (h : IsAddition start vs afters Fits more)
    (hv : v ∈ vs) (hw : w ∈ afters) (hfresh : beforePaired (start ++ more ++ later) v = false)
    (hfree : afterPaired (start ++ more ++ later) w = false) : ¬Fits v w := by
  rw [beforePaired_append, Bool.or_eq_false_iff] at hfresh
  rw [afterPaired_append, Bool.or_eq_false_iff] at hfree
  intro hfits
  simpa [hfree.1] using h.settled v hv hfresh.1 w hw hfits

theorem IsAddition.mem_before (h : IsAddition start vs afters Fits more) (hp : p ∈ more) :
    p.1 ∈ vs :=
  h.befores.subset (List.mem_map_of_mem hp)

theorem IsAddition.nodup_befores (h : IsAddition start vs afters Fits more)
    (hvs : (vs.map Prod.snd).Nodup) (hstart : (start.map fun p => p.1.2).Nodup) :
    ((start ++ more).map fun p => p.1.2).Nodup := by
  have hmore : (more.map fun p => p.1.2).Nodup := by
    have hsublist := h.befores.map Prod.snd
    rw [List.map_map] at hsublist
    exact hvs.sublist hsublist
  rw [List.map_append, List.nodup_append]
  refine ⟨hstart, hmore, ?_⟩
  rintro n hn m hm rfl
  obtain ⟨p, hp, rfl⟩ := List.mem_map.mp hm
  exact beforePaired_eq_false.mp (h.fresh p hp) hn

theorem IsAddition.nodup_afters (h : IsAddition start vs afters Fits more)
    (hstart : (start.map fun p => p.2.2).Nodup) : ((start ++ more).map fun p => p.2.2).Nodup := by
  rw [List.map_append, List.nodup_append]
  refine ⟨hstart, h.distinct, ?_⟩
  rintro n hn m hm rfl
  obtain ⟨p, hp, rfl⟩ := List.mem_map.mp hm
  exact afterPaired_eq_false.mp (h.free p hp) hn

end Passes

section Reasons

variable (start more : List Pair)

def DeclaredAlike (links : List Link) (v w : Numbered) : Prop :=
  v.1.name = w.1.name ∧ v.1.role = w.1.role ∧ declaredTogether links v.1 w.1 = true

def IsOnly (vs : List Numbered) (v : Numbered) : Prop :=
  (vs.filter fun u => u.1.name == v.1.name) = [v]

def NamedAlone (befores afters : List Numbered) (v w : Numbered) : Prop :=
  v.1.name = w.1.name ∧ v.1.role = w.1.role ∧ IsOnly befores v ∧ IsOnly afters w

/-- A link between fragments that refer to two variables of one role replaces the name of the one
by the other name of the other. -/
def Renames (c : Comparison) (links : List Link) (v w : Numbered) : Prop :=
  v.1.role = w.1.role ∧ v.1.name ≠ w.1.name ∧
    ∃ link ∈ links, link.before ∈ references c.before v ∧ link.after ∈ references c.after w ∧
      ∃ r ∈ link.replacements, r.kind = .variableName ∧ r.before = v.1.name ∧ r.after = w.1.name

variable {links : List Link} {befores afters : List Numbered} {c : Comparison}

theorem pairByPlace_step (links : List Link) (afters : List Numbered) (pairs : List Pair)
    (v : Numbered) :
    Step [] afters (DeclaredAlike links) pairs v (pairByPlace links afters pairs v) := by
  unfold pairByPlace
  split
  · rename_i w hfound
    have hw := List.find?_some hfound
    simp only [Bool.and_eq_true, Bool.not_eq_true', beq_iff_eq] at hw
    obtain ⟨⟨⟨hfree, hname⟩, hrole⟩, htogether⟩ := hw
    exact .pair (List.mem_of_find?_eq_some hfound) ⟨hname.symm, hrole.symm, htogether⟩ rfl hfree
  · rename_i hnone
    refine .leave fun _ w hw hfits => ?_
    obtain ⟨hname, hrole, htogether⟩ := hfits
    simpa [hname, hrole, htogether] using List.find?_eq_none.mp hnone w hw

theorem pairByName_step (hv : v ∈ befores) :
    Step start afters (NamedAlone befores afters) (start ++ more) v
      (pairByName befores afters (start ++ more) v) := by
  unfold pairByName
  split
  · rename_i hpaired
    exact .leave fun hfree => by simp [hpaired] at hfree
  rename_i hfresh
  rw [Bool.not_eq_true, beforePaired_append, Bool.or_eq_false_iff] at hfresh
  split
  · rename_i u w hbefores hafters
    have hu : v = u := by
      have hmem : v ∈ befores.filter fun x => x.1.name == v.1.name := by simp [hv]
      simpa [hbefores] using hmem
    have hw : w ∈ afters ∧ w.1.name = v.1.name := by
      have hmem : w ∈ afters.filter fun x => x.1.name == v.1.name := by simp [hafters]
      simpa using hmem
    split
    · rename_i hchosen
      simp only [Bool.and_eq_true, Bool.not_eq_true', beq_iff_eq] at hchosen
      refine .pair hw.1 ⟨hw.2.symm, hchosen.2.symm, ?_, ?_⟩ hfresh.1 hchosen.1
      · rw [IsOnly, hbefores, hu]
      · rw [IsOnly, hw.2, hafters]
    · rename_i hchosen
      refine .leave fun _ x hx hfits => ?_
      obtain ⟨hname, hrole, -, -⟩ := hfits
      have hxw : x = w := by
        have hmem : x ∈ afters.filter fun x => x.1.name == v.1.name := by simp [hx, hname]
        simpa [hafters] using hmem
      subst hxw
      simpa [hrole] using hchosen
  · rename_i hmany
    refine .leave fun _ x _ hfits => ?_
    obtain ⟨hname, -, honly, honly'⟩ := hfits
    rw [IsOnly, ← hname] at honly'
    exact absurd honly' (hmany v x honly)

theorem pairByRenaming_step (v : Numbered) :
    Step start afters (Renames c links) (start ++ more) v
      (pairByRenaming c links afters (start ++ more) v) := by
  have hrenaming : ∀ w : Numbered, (links.any (isRenaming c v w)) = true ↔
      ∃ link ∈ links, link.before ∈ references c.before v ∧
        link.after ∈ references c.after w ∧
        ∃ r ∈ link.replacements, r.kind = .variableName ∧ r.before = v.1.name ∧
          r.after = w.1.name := by
    intro w
    simp [isRenaming, List.any_eq_true, and_assoc]
  unfold pairByRenaming
  split
  · rename_i hpaired
    exact .leave fun hfree => by simp [hpaired] at hfree
  rename_i hfresh
  rw [Bool.not_eq_true, beforePaired_append, Bool.or_eq_false_iff] at hfresh
  split
  · rename_i w hfound
    have hw := List.find?_some hfound
    simp only [Bool.and_eq_true, Bool.not_eq_true', beq_iff_eq, bne_iff_ne] at hw
    obtain ⟨⟨⟨hfree, hrole⟩, hname⟩, hlink⟩ := hw
    exact .pair (List.mem_of_find?_eq_some hfound)
      ⟨hrole.symm, Ne.symm hname, (hrenaming w).mp hlink⟩ hfresh.1 hfree
  · rename_i hnone
    refine .leave fun _ w hw hfits => ?_
    obtain ⟨hrole, hname, hlink⟩ := hfits
    simpa [hrole, Ne.symm hname, (hrenaming w).mpr hlink] using List.find?_eq_none.mp hnone w hw

end Reasons

def paired (delta : VariableDelta) : List (Nat × Nat) :=
  delta.common ++ delta.replaced ++ delta.renamed

structure Declared (c : Comparison) (p : Nat × Nat) (v w : Variable) : Prop where
  before : c.before.declarations[p.1]? = some v
  after : c.after.declarations[p.2]? = some w

/-- The parameters and local variables of two bodies are classified by a delta, on the grounds of
some links. Each stands in one place of the delta only, the pairs have the reason that their class
asks for, and no reason is left for a pair of what is not paired. -/
structure Classifies (c : Comparison) (links : List Link) (delta : VariableDelta) : Prop where
  before_once : ∀ n, (delta.removed ++ delta.paired.map Prod.fst).count n =
    if (c.before.declarations[n]?).any isTracked then 1 else 0
  after_once : ∀ n, (delta.added ++ delta.paired.map Prod.snd).count n =
    if (c.after.declarations[n]?).any isTracked then 1 else 0
  common : ∀ p ∈ delta.common, ∃ v w, Declared c p v w ∧ v.name = w.name ∧ v.role = w.role ∧
    v.initializer = w.initializer
  replaced : ∀ p ∈ delta.replaced, ∃ v w, Declared c p v w ∧ v.name = w.name ∧ v.role = w.role ∧
    v.initializer ≠ w.initializer
  renamed : ∀ p ∈ delta.renamed, ∃ v w, Declared c p v w ∧ Renames c links (v, p.1) (w, p.2)
  leftover : ∀ n ∈ delta.removed, ∀ m ∈ delta.added, ∀ v w, Declared c (n, m) v w →
    ¬DeclaredAlike links (v, n) (w, m) ∧
    ¬NamedAlone (tracked c.before) (tracked c.after) (v, n) (w, m) ∧
    ¬Renames c links (v, n) (w, m)

section Classification

variable {c : Comparison} {links : List Link} {body : Body}

theorem mem_tracked :
    v ∈ tracked body ↔ body.declarations[v.2]? = some v.1 ∧ isTracked v.1 = true := by
  rw [tracked, List.mem_filter, List.mem_zipIdx_iff_getElem?]

theorem tracked_nodup (body : Body) : ((tracked body).map Prod.snd).Nodup := by
  apply List.Nodup.sublist (List.filter_sublist.map Prod.snd)
  rw [List.zipIdx_map_snd]
  exact List.nodup_range'

theorem leftover_append_perm {vs : List Numbered} {taken : List Nat}
    (hvs : (vs.map Prod.snd).Nodup) (htaken : taken.Nodup)
    (hmem : ∀ n ∈ taken, n ∈ vs.map Prod.snd) {isTaken : Numbered → Bool}
    (hiff : ∀ v, isTaken v = false ↔ v.2 ∉ taken) :
    ((vs.filter fun v => !isTaken v).map Prod.snd ++ taken).Perm (vs.map Prod.snd) := by
  apply (List.perm_ext_iff_of_nodup ?_ hvs).mpr
  · intro n
    rw [List.mem_append]
    constructor
    · rintro (hn | hn)
      · exact (List.filter_sublist.map Prod.snd).subset hn
      · exact hmem n hn
    · intro hn
      by_cases hin : n ∈ taken
      · exact Or.inr hin
      · obtain ⟨v, hv, rfl⟩ := List.mem_map.mp hn
        exact Or.inl (List.mem_map_of_mem (List.mem_filter.mpr ⟨hv, by simp [(hiff v).mpr hin]⟩))
  · rw [List.nodup_append]
    refine ⟨hvs.sublist (List.filter_sublist.map Prod.snd), htaken, ?_⟩
    rintro n hn m hm rfl
    obtain ⟨v, hv, rfl⟩ := List.mem_map.mp hn
    have hfree := (List.mem_filter.mp hv).2
    exact (hiff v).mp (by simpa using hfree) hm

theorem count_tracked (body : Body) (n : Nat) :
    ((tracked body).map Prod.snd).count n =
      if (body.declarations[n]?).any isTracked then 1 else 0 := by
  split
  · rename_i htracked
    apply List.count_eq_one_of_mem (tracked_nodup body)
    obtain ⟨v, hv, hrole⟩ := (Option.any_eq_true _ _).mp htracked
    exact List.mem_map.mpr ⟨(v, n), mem_tracked.mpr ⟨hv, hrole⟩, rfl⟩
  · rename_i hnone
    apply List.count_eq_zero_of_not_mem
    intro hn
    obtain ⟨v, hv, rfl⟩ := List.mem_map.mp hn
    obtain ⟨hdeclared, hrole⟩ := mem_tracked.mp hv
    exact hnone ((Option.any_eq_true _ _).mpr ⟨v.1, hdeclared, hrole⟩)

end Classification

structure Passes (c : Comparison) (links : List Link) where
  placed : List Pair
  named : List Pair
  renamed : List Pair
  byPlace : IsAddition [] (tracked c.before) (tracked c.after) (DeclaredAlike links) placed
  byName : IsAddition placed (tracked c.before) (tracked c.after)
    (NamedAlone (tracked c.before) (tracked c.after)) named
  byRenaming : IsAddition (placed ++ named) (tracked c.before) (tracked c.after)
    (Renames c links) renamed

namespace Passes

variable {c : Comparison} {links : List Link} (passes : Passes c links)

def ofOneName : List Pair :=
  passes.placed ++ passes.named

def all : List Pair :=
  passes.ofOneName ++ passes.renamed

def delta : VariableDelta where
  removed := ((tracked c.before).filter fun v => !beforePaired passes.all v).map Prod.snd
  added := ((tracked c.after).filter fun w => !afterPaired passes.all w).map Prod.snd
  common := (passes.ofOneName.filter sameValue).map numbers
  replaced := (passes.ofOneName.filter fun p => !sameValue p).map numbers
  renamed := passes.renamed.map numbers

theorem exists_delta (c : Comparison) (links : List Link) :
    ∃ passes : Passes c links, ofLinks c links = passes.delta := by
  obtain ⟨placed, hplaced, byPlace⟩ := foldl_adds [] (tracked c.before)
    fun more v _ => pairByPlace_step links (tracked c.after) more v
  obtain ⟨named, hnamed, byName⟩ := foldl_adds placed (tracked c.before)
    fun more v hv => pairByName_step placed more hv
  obtain ⟨renamed, hrenamed, byRenaming⟩ := foldl_adds (placed ++ named) (tracked c.before)
    fun more v _ => pairByRenaming_step (placed ++ named) more v
  refine ⟨⟨placed, named, renamed, byPlace, byName, byRenaming⟩, ?_⟩
  simp only [ofLinks, delta, all, ofOneName]
  rw [hplaced, List.nil_append, hnamed, hrenamed, List.drop_left]

theorem nodup_befores : (passes.all.map fun p => p.1.2).Nodup := by
  have hdistinct := tracked_nodup c.before
  have hplaced := passes.byPlace.nodup_befores hdistinct .nil
  exact passes.byRenaming.nodup_befores hdistinct (passes.byName.nodup_befores hdistinct hplaced)

theorem nodup_afters : (passes.all.map fun p => p.2.2).Nodup :=
  passes.byRenaming.nodup_afters (passes.byName.nodup_afters (passes.byPlace.nodup_afters .nil))

theorem ofOneName_sound (hp : p ∈ passes.ofOneName) :
    p.1 ∈ tracked c.before ∧ p.2 ∈ tracked c.after ∧
      p.1.1.name = p.2.1.name ∧ p.1.1.role = p.2.1.role := by
  rcases List.mem_append.mp hp with hp | hp
  · obtain ⟨hname, hrole, -⟩ := passes.byPlace.fits p hp
    exact ⟨passes.byPlace.mem_before hp, passes.byPlace.mem p hp, hname, hrole⟩
  · obtain ⟨hname, hrole, -⟩ := passes.byName.fits p hp
    exact ⟨passes.byName.mem_before hp, passes.byName.mem p hp, hname, hrole⟩

theorem all_sound (hp : p ∈ passes.all) : p.1 ∈ tracked c.before ∧ p.2 ∈ tracked c.after := by
  rcases List.mem_append.mp hp with hp | hp
  · exact ⟨(passes.ofOneName_sound hp).1, (passes.ofOneName_sound hp).2.1⟩
  · exact ⟨passes.byRenaming.mem_before hp, passes.byRenaming.mem p hp⟩

theorem paired_perm : passes.delta.paired.Perm (passes.all.map numbers) := by
  have hvalues := (List.filter_append_perm sameValue passes.ofOneName).map numbers
  rw [List.map_append] at hvalues
  rw [all, List.map_append]
  exact hvalues.append_right _

theorem before_once : (passes.delta.removed ++ passes.delta.paired.map Prod.fst).count n =
    if (c.before.declarations[n]?).any isTracked then 1 else 0 := by
  have hpaired := passes.paired_perm.map Prod.fst
  rw [List.map_map] at hpaired
  have hall := leftover_append_perm (tracked_nodup c.before) passes.nodup_befores (fun n hn => by
    obtain ⟨p, hp, rfl⟩ := List.mem_map.mp hn
    exact List.mem_map_of_mem (passes.all_sound hp).1) fun v => beforePaired_eq_false
  rw [← count_tracked]
  exact ((hpaired.append_left _).trans hall).count_eq n

theorem after_once : (passes.delta.added ++ passes.delta.paired.map Prod.snd).count n =
    if (c.after.declarations[n]?).any isTracked then 1 else 0 := by
  have hpaired := passes.paired_perm.map Prod.snd
  rw [List.map_map] at hpaired
  have hall := leftover_append_perm (tracked_nodup c.after) passes.nodup_afters (fun n hn => by
    obtain ⟨p, hp, rfl⟩ := List.mem_map.mp hn
    exact List.mem_map_of_mem (passes.all_sound hp).2) fun w => afterPaired_eq_false
  rw [← count_tracked]
  exact ((hpaired.append_left _).trans hall).count_eq n

/-- No pass has a reason to pair what is left over. -/
theorem no_reason_left (hv : v ∈ tracked c.before) (hw : w ∈ tracked c.after)
    (hfresh : beforePaired passes.all v = false) (hfree : afterPaired passes.all w = false) :
    ¬DeclaredAlike links v w ∧ ¬NamedAlone (tracked c.before) (tracked c.after) v w ∧
      ¬Renames c links v w := by
  have hbefores : passes.all = [] ++ passes.placed ++ (passes.named ++ passes.renamed) := by
    simp [all, ofOneName]
  have hall : passes.all = passes.all ++ [] := (List.append_nil _).symm
  refine ⟨?_, ?_, ?_⟩
  · rw [hbefores] at hfresh hfree
    exact passes.byPlace.not_fits hv hw hfresh hfree
  · exact passes.byName.not_fits hv hw hfresh hfree
  · rw [hall] at hfresh hfree
    exact passes.byRenaming.not_fits hv hw hfresh hfree

theorem declared (hp : p ∈ passes.all) : Declared c (numbers p) p.1.1 p.2.1 :=
  ⟨(mem_tracked.mp (passes.all_sound hp).1).1, (mem_tracked.mp (passes.all_sound hp).2).1⟩

theorem delta_classifies : Classifies c links passes.delta where
  before_once := passes.before_once
  after_once := passes.after_once
  common := by
    intro n hn
    obtain ⟨p, hp, rfl⟩ := List.mem_map.mp hn
    obtain ⟨hmem, hvalue⟩ := List.mem_filter.mp hp
    obtain ⟨-, -, hname, hrole⟩ := passes.ofOneName_sound hmem
    exact ⟨p.1.1, p.2.1, passes.declared (List.mem_append_left _ hmem), hname, hrole,
      beq_iff_eq.mp hvalue⟩
  replaced := by
    intro n hn
    obtain ⟨p, hp, rfl⟩ := List.mem_map.mp hn
    obtain ⟨hmem, hvalue⟩ := List.mem_filter.mp hp
    obtain ⟨-, -, hname, hrole⟩ := passes.ofOneName_sound hmem
    exact ⟨p.1.1, p.2.1, passes.declared (List.mem_append_left _ hmem), hname, hrole,
      by simpa [sameValue] using hvalue⟩
  renamed := by
    intro n hn
    obtain ⟨p, hp, rfl⟩ := List.mem_map.mp hn
    exact ⟨p.1.1, p.2.1, passes.declared (List.mem_append_right _ hp), passes.byRenaming.fits p hp⟩
  leftover := by
    intro n hn m hm v w hdeclared
    obtain ⟨v', hv', rfl⟩ := List.mem_map.mp hn
    obtain ⟨w', hw', rfl⟩ := List.mem_map.mp hm
    obtain ⟨hv, hfresh⟩ := List.mem_filter.mp hv'
    obtain ⟨hw, hfree⟩ := List.mem_filter.mp hw'
    obtain rfl : v'.1 = v := Option.some.inj ((mem_tracked.mp hv).1.symm.trans hdeclared.before)
    obtain rfl : w'.1 = w := Option.some.inj ((mem_tracked.mp hw).1.symm.trans hdeclared.after)
    exact passes.no_reason_left hv hw (by simpa using hfresh) (by simpa using hfree)

end Passes

end VariableDelta

/-- The parameters and local variables of two bodies are classified one-to-one, whatever the links,
and so they are in every alignment. -/
theorem Comparison.variableDelta_classifies (c : Comparison) :
    (∀ links, VariableDelta.Classifies c links (.ofLinks c links)) ∧
      VariableDelta.Classifies c c.align.links c.align.variableDelta := by
  have hall : ∀ links, VariableDelta.Classifies c links (.ofLinks c links) := by
    intro links
    obtain ⟨passes, hdelta⟩ := VariableDelta.Passes.exists_delta c links
    rw [hdelta]
    exact passes.delta_classifies
  exact ⟨hall, hall c.align.links⟩

end CodeEvolution
