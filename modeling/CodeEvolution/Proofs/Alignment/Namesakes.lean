import CodeEvolution.Proofs.Alignment.VariableClassification
/-!
# Pairing variables when one of them got a new name

The variables of two bodies correspond by number. The pass by place pairs those that keep their name
with their namesakes. If one is renamed, its name is in use on one side only, so the pass by name
leaves it alone, and the last pass pairs it with its namesake just if a link says so.
-/
namespace CodeEvolution.VariableDelta

variable {v : Numbered} {vs : List Numbered}

/-- The variable of the second body with the number of one of the first. -/
def namesake (c : Comparison) (v : Numbered) : Numbered :=
  ((c.after.declarations[v.2]?).getD v.1, v.2)

/-- The parameters and local variables of two bodies correspond by number and in role. Those that
are kept correspond in name too, and the names of the others are in use on one side only. -/
structure KeepsNames (c : Comparison) (isKept : Numbered → Bool) : Prop where
  afters : tracked c.after = (tracked c.before).map (namesake c)
  role : ∀ v ∈ tracked c.before, (namesake c v).1.role = v.1.role
  kept : ∀ v ∈ tracked c.before, isKept v = true → (namesake c v).1.name = v.1.name
  gone : ∀ v ∈ tracked c.before, isKept v = false → ∀ w ∈ tracked c.after, w.1.name ≠ v.1.name
  fresh : ∀ v ∈ tracked c.before, isKept v = false →
    ∀ u ∈ tracked c.before, u.1.name ≠ (namesake c v).1.name

def keptPairs (c : Comparison) (isKept : Numbered → Bool) (vs : List Numbered) : List Pair :=
  (vs.filter isKept).map fun v => (v, namesake c v)

theorem foldl_of_fixed {step : List Pair → Numbered → List Pair} {pairs : List Pair}
    (h : ∀ v ∈ vs, step pairs v = pairs) : vs.foldl step pairs = pairs := by
  induction vs with
  | nil => rfl
  | cons v rest ih =>
    rw [List.foldl_cons, h v List.mem_cons_self]
    exact ih fun w hw => h w (List.mem_cons_of_mem _ hw)

section ByPlace

variable {c : Comparison} {isKept : Numbered → Bool} {links : List Link}

theorem beforePaired_keptPairs :
    beforePaired (keptPairs c isKept vs) v = true ↔ v.2 ∈ (vs.filter isKept).map Prod.snd := by
  simp only [beforePaired, keptPairs, List.any_map, List.any_eq_true, Function.comp_apply,
    beq_iff_eq, List.mem_map]

theorem afterPaired_keptPairs (vs : List Numbered) (w : Numbered) :
    afterPaired (keptPairs c isKept vs) w = beforePaired (keptPairs c isKept vs) w := by
  simp only [afterPaired, beforePaired, keptPairs, List.any_map]
  rfl

theorem keptPairs_append (vs : List Numbered) (v : Numbered) :
    keptPairs c isKept (vs ++ [v]) =
      keptPairs c isKept vs ++ if isKept v then [(v, namesake c v)] else [] := by
  simp only [keptPairs, List.filter_append, List.map_append]
  split <;> simp_all

theorem pairByPlace_kept (h : KeepsNames c isKept) {earlier later : List Numbered}
    (hsplit : tracked c.before = earlier ++ v :: later)
    (htogether : isKept v = true → declaredTogether links v.1 (namesake c v).1 = true) :
    pairByPlace links (tracked c.after) (keptPairs c isKept earlier) v =
      keptPairs c isKept (earlier ++ [v]) := by
  have hv : v ∈ tracked c.before := by simp [hsplit]
  rw [keptPairs_append]
  cases hkept : isKept v with
  | false =>
    -- No variable of the second body has the name.
    rw [if_neg Bool.false_ne_true, List.append_nil, pairByPlace, List.find?_eq_none.mpr]
    intro w hw
    simp [h.gone v hv hkept w hw]
  | true =>
    -- Those before it are paired, or have a new name.
    have hdistinct := tracked_nodup c.before
    rw [hsplit, List.map_append, List.nodup_append] at hdistinct
    have hearlier : ∀ u ∈ earlier, (!afterPaired (keptPairs c isKept earlier) (namesake c u) &&
        (namesake c u).1.name == v.1.name) = false := by
      intro u hu
      cases hu' : isKept u with
      | false =>
        have hmem : u ∈ tracked c.before := by simp [hsplit, hu]
        simp [(h.fresh u hmem hu' v hv).symm]
      | true =>
        have hpaired : afterPaired (keptPairs c isKept earlier) (namesake c u) = true := by
          rw [afterPaired_keptPairs, beforePaired_keptPairs]
          exact List.mem_map.mpr ⟨u, List.mem_filter.mpr ⟨hu, hu'⟩, rfl⟩
        simp [hpaired]
    have hfree : afterPaired (keptPairs c isKept earlier) (namesake c v) = false := by
      rw [← Bool.not_eq_true, afterPaired_keptPairs, beforePaired_keptPairs]
      intro hmem
      exact hdistinct.2.2 v.2 ((List.filter_sublist.map _).subset hmem) v.2 (by simp) rfl
    have hfind : (tracked c.after).find? (fun w =>
        !afterPaired (keptPairs c isKept earlier) w && w.1.name == v.1.name &&
          w.1.role == v.1.role && declaredTogether links v.1 w.1) = some (namesake c v) := by
      rw [h.afters, hsplit, List.map_append, List.map_cons, List.find?_append,
        List.find?_eq_none.mpr, Option.none_or, List.find?_cons_of_pos]
      · simp [hfree, h.kept v hv hkept, h.role v hv, htogether hkept]
      · intro w hw
        obtain ⟨u, hu, rfl⟩ := List.mem_map.mp hw
        rw [hearlier u hu]
        simp
    rw [pairByPlace, hfind, if_pos rfl]

theorem foldl_pairByPlace_kept (h : KeepsNames c isKept)
    (htogether : ∀ v ∈ tracked c.before, isKept v = true →
      declaredTogether links v.1 (namesake c v).1 = true) :
    (tracked c.before).foldl (pairByPlace links (tracked c.after)) [] =
      keptPairs c isKept (tracked c.before) := by
  have hrest : ∀ later earlier, tracked c.before = earlier ++ later →
      later.foldl (pairByPlace links (tracked c.after)) (keptPairs c isKept earlier) =
        keptPairs c isKept (tracked c.before) := by
    intro later
    induction later with
    | nil =>
      intro earlier hsplit
      rw [hsplit, List.append_nil]
      rfl
    | cons v later ih =>
      intro earlier hsplit
      have hv := htogether v (by simp [hsplit])
      rw [List.foldl_cons, pairByPlace_kept h hsplit hv]
      exact ih (earlier ++ [v]) (by simp [hsplit])
  exact hrest (tracked c.before) [] rfl

end ByPlace

/-- All variables but one keep their name; its old and its new name belong to no other. -/
structure OneRenamed (c : Comparison) (target : Numbered) : Prop where
  afters : tracked c.after = (tracked c.before).map (namesake c)
  mem : target ∈ tracked c.before
  role : ∀ v ∈ tracked c.before, (namesake c v).1.role = v.1.role
  kept : ∀ v ∈ tracked c.before, v.2 ≠ target.2 → (namesake c v).1.name = v.1.name
  alone : ∀ v ∈ tracked c.before, v.2 ≠ target.2 → v.1.name ≠ target.1.name
  fresh : ∀ v ∈ tracked c.before, v.1.name ≠ (namesake c target).1.name

def isOther (target v : Numbered) : Bool :=
  v.2 != target.2

section Passes

variable {c : Comparison} {target : Numbered} {links : List Link}

theorem beforePaired_others :
    beforePaired (keptPairs c (isOther target) vs) v = true ↔
      v.2 ≠ target.2 ∧ v.2 ∈ vs.map Prod.snd := by
  simp only [beforePaired_keptPairs, isOther, List.mem_map, List.mem_filter, bne_iff_ne]
  constructor
  · rintro ⟨u, ⟨hu, hne⟩, heq⟩
    exact ⟨heq ▸ hne, u, hu, heq⟩
  · rintro ⟨hne, u, hu, heq⟩
    exact ⟨u, ⟨hu, heq ▸ hne⟩, heq⟩

theorem OneRenamed.eq_target (h : OneRenamed c target) (hv : v ∈ tracked c.before)
    (hnumber : v.2 = target.2) : v = target :=
  List.inj_on_of_nodup_map (tracked_nodup c.before) hv h.mem hnumber

theorem OneRenamed.exists_split (h : OneRenamed c target) :
    ∃ earlier later, tracked c.before = earlier ++ target :: later ∧
      ∀ v, v ∈ earlier ∨ v ∈ later → v.2 ≠ target.2 := by
  obtain ⟨earlier, later, hsplit⟩ := List.append_of_mem h.mem
  have hdistinct := tracked_nodup c.before
  rw [hsplit, List.map_append, List.map_cons, List.nodup_append, List.nodup_cons] at hdistinct
  refine ⟨earlier, later, hsplit, ?_⟩
  rintro v (hv | hv) heq
  · exact hdistinct.2.2 v.2 (List.mem_map_of_mem hv) target.2 List.mem_cons_self heq
  · exact hdistinct.2.1.1 (heq ▸ List.mem_map_of_mem hv)

theorem OneRenamed.name_ne (h : OneRenamed c target) {w : Numbered}
    (hw : w ∈ tracked c.after) : w.1.name ≠ target.1.name := by
  rw [h.afters] at hw
  obtain ⟨v, hv, rfl⟩ := List.mem_map.mp hw
  by_cases hne : v.2 = target.2
  · rw [h.eq_target hv hne]
    exact (h.fresh target h.mem).symm
  · rw [h.kept v hv hne]
    exact h.alone v hv hne

theorem OneRenamed.keepsNames (h : OneRenamed c target) : KeepsNames c (isOther target) where
  afters := h.afters
  role := h.role
  kept v hv hother := h.kept v hv (bne_iff_ne.mp hother)
  gone _ hv hsame _ hw := h.eq_target hv (bne_eq_false_iff_eq.mp hsame) ▸ h.name_ne hw
  fresh _ hv hsame := h.eq_target hv (bne_eq_false_iff_eq.mp hsame) ▸ h.fresh

theorem pairByName_kept (h : OneRenamed c target) (hv : v ∈ tracked c.before) :
    pairByName (tracked c.before) (tracked c.after)
        (keptPairs c (isOther target) (tracked c.before)) v =
      keptPairs c (isOther target) (tracked c.before) := by
  by_cases hne : v.2 = target.2
  · have htarget := h.eq_target hv hne
    have hnone : (tracked c.after).filter (fun w => w.1.name == v.1.name) = [] := by
      rw [List.filter_eq_nil_iff]
      intro w hw
      simp [htarget, h.name_ne hw]
    rw [pairByName, hnone]
    split
    · rfl
    · split
      · rename_i hsingle
        simp at hsingle
      · rfl
  · have hpaired : beforePaired (keptPairs c (isOther target) (tracked c.before)) v = true :=
      beforePaired_others.mpr ⟨hne, List.mem_map_of_mem hv⟩
    rw [pairByName, if_pos hpaired]

/-- Where all other variables are paired, only the namesake of the renamed one is free. -/
theorem afterPaired_others (h : OneRenamed c target) {w : Numbered} (hw : w ∈ tracked c.after) :
    afterPaired (keptPairs c (isOther target) (tracked c.before)) w = true ↔
      w ≠ namesake c target := by
  rw [h.afters] at hw
  obtain ⟨u, hu, rfl⟩ := List.mem_map.mp hw
  rw [afterPaired_keptPairs, beforePaired_others]
  constructor
  · rintro ⟨hne, -⟩ heq
    have hnumber : (namesake c u).2 = (namesake c target).2 := by rw [heq]
    exact hne hnumber
  · intro hother
    refine ⟨fun heq => hother ?_, List.mem_map.mpr ⟨u, hu, rfl⟩⟩
    rw [h.eq_target hu heq]

theorem find?_renamed (h : OneRenamed c target) (htarget : target ∈ tracked c.before)
    (hany : links.any (isRenaming c target (namesake c target)) = true) :
    (tracked c.after).find? (fun w =>
      !afterPaired (keptPairs c (isOther target) (tracked c.before)) w &&
        w.1.role == target.1.role && w.1.name != target.1.name &&
        links.any (isRenaming c target w)) = some (namesake c target) := by
  have hmem : namesake c target ∈ tracked c.after := by
    rw [h.afters]
    exact List.mem_map_of_mem htarget
  cases hfind : (tracked c.after).find? _ with
  | none =>
    have hfails := List.find?_eq_none.mp hfind _ hmem
    have hopen := mt (afterPaired_others h hmem).mp (not_not_intro rfl)
    simp [hopen, h.role target htarget, (h.fresh target htarget).symm, hany] at hfails
  | some w =>
    have hpasses := List.find?_some hfind
    by_contra hother
    have hpaired := (afterPaired_others h (List.mem_of_find?_eq_some hfind)).mpr
      fun heq => hother (congrArg some heq)
    simp [hpaired] at hpasses

theorem pairByRenaming_kept (h : OneRenamed c target) (hv : v ∈ tracked c.before) :
    pairByRenaming c links (tracked c.after) (keptPairs c (isOther target) (tracked c.before)) v =
      keptPairs c (isOther target) (tracked c.before) ++
        if v.2 = target.2 ∧ links.any (isRenaming c target (namesake c target)) = true then
          [(target, namesake c target)] else [] := by
  by_cases hne : v.2 = target.2
  · obtain rfl := h.eq_target hv hne
    have hfree : beforePaired (keptPairs c (isOther v) (tracked c.before)) v = false := by
      simp [← Bool.not_eq_true, beforePaired_others]
    rw [pairByRenaming, if_neg (by simp [hfree])]
    cases hany : links.any (isRenaming c v (namesake c v)) with
    | true => rw [find?_renamed h hv hany, if_pos ⟨rfl, rfl⟩]
    | false =>
      rw [List.find?_eq_none.mpr, if_neg (by simp), List.append_nil]
      intro w hw
      by_cases hother : w = namesake c v
      · simp [hother, hany]
      · simp [(afterPaired_others h hw).mpr hother]
  · have hpaired : beforePaired (keptPairs c (isOther target) (tracked c.before)) v = true :=
      beforePaired_others.mpr ⟨hne, List.mem_map_of_mem hv⟩
    rw [pairByRenaming, if_pos hpaired, if_neg fun hboth => hne hboth.1, List.append_nil]

def isSeen (c : Comparison) (target : Numbered) (links : List Link) : Bool :=
  links.any (isRenaming c target (namesake c target))

def allPairs (c : Comparison) (target : Numbered) (links : List Link) : List Pair :=
  keptPairs c (isOther target) (tracked c.before) ++
    if isSeen c target links then [(target, namesake c target)] else []

theorem foldl_pairByRenaming_kept (h : OneRenamed c target) (links : List Link) :
    (tracked c.before).foldl (pairByRenaming c links (tracked c.after))
        (keptPairs c (isOther target) (tracked c.before)) = allPairs c target links := by
  obtain ⟨earlier, later, hsplit, hothers⟩ := h.exists_split
  have hmem : ∀ v, v ∈ earlier ∨ v ∈ later → v ∈ tracked c.before := by
    rintro v (hv | hv) <;> simp [hsplit, hv]
  have hearlier : earlier.foldl (pairByRenaming c links (tracked c.after))
      (keptPairs c (isOther target) (tracked c.before)) =
        keptPairs c (isOther target) (tracked c.before) := by
    refine foldl_of_fixed fun v hv => ?_
    rw [pairByRenaming_kept h (hmem v (Or.inl hv)),
      if_neg fun hboth => hothers v (Or.inl hv) hboth.1, List.append_nil]
  have htarget : pairByRenaming c links (tracked c.after)
      (keptPairs c (isOther target) (tracked c.before)) target = allPairs c target links := by
    rw [pairByRenaming_kept h h.mem, allPairs, isSeen]
    simp only [true_and]
  have hlater : later.foldl (pairByRenaming c links (tracked c.after)) (allPairs c target links) =
      allPairs c target links := by
    refine foldl_of_fixed fun v hv => ?_
    have hpaired : beforePaired (keptPairs c (isOther target) (tracked c.before)) v = true :=
      beforePaired_others.mpr ⟨hothers v (Or.inr hv), List.mem_map_of_mem (hmem v (Or.inr hv))⟩
    rw [pairByRenaming, if_pos (by rw [allPairs, beforePaired_append, hpaired, Bool.true_or])]
  conv_lhs => rw [hsplit]
  rw [List.foldl_append, List.foldl_cons]
  rw [← hsplit, hearlier, htarget, hlater]

theorem beforePaired_allPairs (hv : v.2 ∈ (tracked c.before).map Prod.snd) :
    beforePaired (allPairs c target links) v = (v.2 != target.2 || isSeen c target links) := by
  rw [allPairs, beforePaired_append]
  by_cases hne : v.2 = target.2
  · have hkept : beforePaired (keptPairs c (isOther target) (tracked c.before)) v = false := by
      rw [← Bool.not_eq_true, beforePaired_others]
      exact fun hpaired => hpaired.1 hne
    rw [hkept, hne, bne_self_eq_false, Bool.false_or, Bool.false_or]
    cases isSeen c target links <;> simp [beforePaired, hne]
  · have hkept : beforePaired (keptPairs c (isOther target) (tracked c.before)) v = true :=
      beforePaired_others.mpr ⟨hne, hv⟩
    simp [hkept, hne]

theorem afterPaired_allPairs (w : Numbered) :
    afterPaired (allPairs c target links) w = beforePaired (allPairs c target links) w := by
  rw [allPairs, beforePaired_append, afterPaired_append, afterPaired_keptPairs]
  cases isSeen c target links <;> rfl

theorem OneRenamed.filter_target (h : OneRenamed c target) :
    (tracked c.before).filter (fun v => v.2 == target.2) = [target] := by
  obtain ⟨earlier, later, hsplit, hothers⟩ := h.exists_split
  rw [hsplit, List.filter_append, List.filter_cons_of_pos (by simp), List.filter_eq_nil_iff.mpr,
    List.filter_eq_nil_iff.mpr, List.nil_append]
  · exact fun v hv heq => hothers v (Or.inr hv) (eq_of_beq heq)
  · exact fun v hv heq => hothers v (Or.inl hv) (eq_of_beq heq)

theorem leftover_of_oneRenamed (h : OneRenamed c target) (links : List Link) :
    ((tracked c.before).filter fun v => !beforePaired (allPairs c target links) v) =
      if isSeen c target links then [] else [target] := by
  have hpaired : ∀ v ∈ tracked c.before, (!beforePaired (allPairs c target links) v) =
      (v.2 == target.2 && !isSeen c target links) := by
    intro v hv
    rw [beforePaired_allPairs (List.mem_map_of_mem hv), Bool.not_or, bne, Bool.not_not]
  rw [List.filter_congr hpaired]
  cases isSeen c target links with
  | true => simp
  | false => simpa using h.filter_target

theorem ofLinks_oneRenamed (h : OneRenamed c target)
    (htogether : ∀ v ∈ tracked c.before, v.2 ≠ target.2 →
      declaredTogether links v.1 (namesake c v).1 = true) :
    (ofLinks c links).renamed =
        (if isSeen c target links then [(target.2, target.2)] else []) ∧
      (ofLinks c links).removed = (if isSeen c target links then [] else [target.2]) ∧
      (ofLinks c links).added = (if isSeen c target links then [] else [target.2]) ∧
      ∀ v ∈ tracked c.before, v.2 ≠ target.2 →
        (v.2, v.2) ∈ (ofLinks c links).common ∨ (v.2, v.2) ∈ (ofLinks c links).replaced := by
  have hplaced := foldl_pairByPlace_kept h.keepsNames
    fun v hv hother => htogether v hv (bne_iff_ne.mp hother)
  have hnamed := foldl_of_fixed fun v hv => pairByName_kept h (v := v) hv
  have hall := foldl_pairByRenaming_kept h links
  simp only [ofLinks, hplaced, hnamed, hall, leftover_of_oneRenamed h]
  refine ⟨?_, ?_, ?_, ?_⟩
  · rw [allPairs, List.drop_left]
    cases isSeen c target links <;> rfl
  · cases isSeen c target links <;> rfl
  · have hafters : ((tracked c.after).filter
        fun w => !afterPaired (allPairs c target links) w).map Prod.snd =
          ((tracked c.before).filter
            fun v => !beforePaired (allPairs c target links) v).map Prod.snd := by
      rw [h.afters, List.filter_map, List.map_map]
      congr 1
      exact List.filter_congr fun v _ => congrArg _ (afterPaired_allPairs (namesake c v))
    rw [hafters, leftover_of_oneRenamed h]
    cases isSeen c target links <;> rfl
  · intro v hv hne
    have hmem : (v, namesake c v) ∈ keptPairs c (isOther target) (tracked c.before) :=
      List.mem_map.mpr ⟨v, List.mem_filter.mpr ⟨hv, bne_iff_ne.mpr hne⟩, rfl⟩
    cases hvalue : sameValue (v, namesake c v) with
    | true => exact Or.inl (List.mem_map.mpr ⟨_, List.mem_filter.mpr ⟨hmem, hvalue⟩, rfl⟩)
    | false =>
      exact Or.inr (List.mem_map.mpr ⟨_, List.mem_filter.mpr ⟨hmem, by simp [hvalue]⟩, rfl⟩)

end Passes

end CodeEvolution.VariableDelta
