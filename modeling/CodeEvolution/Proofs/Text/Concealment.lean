import CodeEvolution.Proofs.Text.Occurrences
/-!
# Occurrences that a substitution misses

An occurrence is free if it is neither part of a longer identifier nor the member part of a
qualified name. A substitution looks at the occurrences from left to right without overlap and
replaces those that are free. What begins inside an occurrence is never looked at, also if that one
is rejected, so a free occurrence can be missed. Whether this can happen is decided by how the text
to be replaced overlaps itself.
-/
namespace CodeEvolution.Text

variable {old : List Char} {new text : String}

/-- Whether an occurrence of a text can stand free although it begins inside one that does not: the
text overlaps itself at some distance and is no part of a longer identifier there, and the earlier
occurrence can cut an identifier at its start or cuts one of the later occurrence at its end. -/
def conceals (old : List Char) : Bool :=
  (List.range old.length).any fun d =>
    decide (0 < d) && (old.drop d).isPrefixOf old && freeBefore old (old.take d).getLast? &&
      !(freeBefore old (some '.') && freeAfter old (old.drop (old.length - d)))

theorem conceals_iff :
    conceals old = true ↔ ∃ d, 0 < d ∧ d < old.length ∧ old.drop d <+: old ∧
      freeBefore old (old.take d).getLast? = true ∧
      (freeBefore old (some '.') = false ∨ freeAfter old (old.drop (old.length - d)) = false) := by
  simp only [conceals, List.any_eq_true, List.mem_range, Bool.and_eq_true, decide_eq_true_eq,
    List.isPrefixOf_iff_prefix, Bool.not_eq_true', Bool.and_eq_false_iff]
  constructor
  · rintro ⟨d, hlength, ⟨⟨hpos, hinit⟩, hbefore⟩, hrejected⟩
    exact ⟨d, hpos, hlength, hinit, hbefore, hrejected⟩
  · rintro ⟨d, hpos, hlength, hinit, hbefore, hrejected⟩
    exact ⟨d, hlength, ⟨⟨hpos, hinit⟩, hbefore⟩, hrejected⟩

theorem freeBefore_of_point (h : freeBefore old (some '.') = true) (previous : Option Char) :
    freeBefore old previous = true :=
  freeBefore_iff.mpr fun c hc hword => absurd rfl (freeBefore_iff.mp h c hc hword '.' rfl).2

theorem starts_of_freeBefore_eq_false {previous : Option Char}
    (h : freeBefore old previous = false) :
    ∃ c tail, old = c :: tail ∧ isWordChar c = true := by
  cases old with
  | nil => simp [freeBefore] at h
  | cons c tail => exact ⟨c, tail, rfl, by simp_all [freeBefore]⟩

theorem freeAfter_congr {rest rest' : List Char} (h : rest.head? = rest'.head?) :
    freeAfter old rest = freeAfter old rest' := by
  rw [Bool.eq_iff_iff, freeAfter_iff, freeAfter_iff, h]

section Overlap

variable {old text : List Char} {i j : Nat}

/-- What stands before an occurrence that begins inside another is part of the other. -/
theorem getLast?_take_of_inside (hj : old <+: text.drop j) (hlt : j < i)
    (hinside : i < j + old.length) :
    (text.take i).getLast? = (old.take (i - j)).getLast? := by
  obtain ⟨rest, hrest⟩ := hj
  have hsplit : text.take i = text.take j ++ old.take (i - j) := by
    rw [← Nat.add_sub_cancel' (Nat.le_of_lt hlt), List.take_add, Nat.add_sub_cancel_left, ← hrest,
      List.take_append_of_le_length (by omega)]
  have hne : old.take (i - j) ≠ [] := by
    rw [ne_eq, ← List.length_eq_zero_iff, List.length_take]
    omega
  obtain ⟨c, hc⟩ := Option.isSome_iff_exists.mp (List.getLast?_isSome.mpr hne)
  rw [hsplit, List.getLast?_append, hc, Option.some_or]

/-- What stands behind an occurrence inside which another begins is part of the other. -/
theorem head?_drop_of_inside (hi : old <+: text.drop i) (hlt : j < i)
    (hinside : i < j + old.length) :
    (text.drop (j + old.length)).head? = (old.drop (old.length - (i - j))).head? := by
  obtain ⟨rest, hrest⟩ := hi
  have hsplit : text.drop (j + old.length) = old.drop (old.length - (i - j)) ++ rest := by
    have hsum : j + old.length = i + (old.length - (i - j)) := by omega
    rw [hsum, ← List.drop_drop, ← hrest, List.drop_append_of_le_length (by omega)]
  have hne : old.drop (old.length - (i - j)) ≠ [] := by
    rw [ne_eq, List.drop_eq_nil_iff]
    omega
  obtain ⟨c, tail, htail⟩ := List.exists_cons_of_ne_nil hne
  rw [hsplit, htail, List.cons_append, List.head?_cons, List.head?_cons]

theorem conceals_of_inside (hj : old <+: text.drop j) (hrejected : ¬ IsFreeAt old text j)
    (hi : IsFreeAt old text i) (hlt : j < i) (hinside : i < j + old.length) :
    conceals old = true := by
  refine conceals_iff.mpr ⟨i - j, by omega, by omega, ?_, ?_, ?_⟩
  · have hshifted := hj.drop (i - j)
    rw [List.drop_drop, Nat.add_sub_cancel' (Nat.le_of_lt hlt)] at hshifted
    refine List.prefix_of_prefix_length_le hshifted hi.occurs ?_
    rw [List.length_drop]
    omega
  · rw [← getLast?_take_of_inside hj hlt hinside]
    exact freeBefore_iff.mpr hi.before
  · have hisFree : isFree old (text.take j).getLast? (text.drop j) = false :=
      Bool.eq_false_iff.mpr fun hfree => hrejected (isFreeAt_iff.mpr ⟨hj, hfree⟩)
    rw [isFree, Bool.and_eq_false_iff, List.drop_drop,
      freeAfter_congr (head?_drop_of_inside hi.occurs hlt hinside)] at hisFree
    exact hisFree.imp_left fun hbefore => Bool.eq_false_iff.mpr fun hpoint =>
      Bool.eq_false_iff.mp hbefore (freeBefore_of_point hpoint _)

end Overlap

/-- The text with `new` in place of `old` at the places, if there are any. -/
def replacedAt? (text old new : String) (places : List Nat) : Option String :=
  if places = [] then none
  else some (String.ofList (splice new.toList old.toList.length text.toList 0 places))

/-- Everything that stands free is replaced: there is no result exactly where there is nothing to
replace, and in a result no free occurrence is left apart from those replaced. -/
structure ReplacesAllFree (text old new : String) : Prop where
  none_iff : replaceIdentifier? text old new = none ↔
    old = "" ∨ old = new ∨ ∀ i, ¬ IsFreeAt old.toList text.toList i
  of_some : ∀ result, replaceIdentifier? text old new = some result → ∃ places : List Nat,
    (∀ i ∈ places, IsFreeAt old.toList text.toList i) ∧
    places.Pairwise (fun i j => i + old.toList.length ≤ j) ∧
    replacedAt? text old new places = some result ∧
    ∀ i, IsFreeAt old.toList text.toList i →
      ∃ j ∈ places, i < j + old.toList.length ∧ j < i + old.toList.length

theorem replaceIdentifier?_eq_none {old : String} (h : old = "" ∨ old = new) :
    replaceIdentifier? text old new = none := by
  rcases h with rfl | rfl <;> simp [replaceIdentifier?, substitute?]

theorem replaceIdentifier?_eq {old : String} (hold : old ≠ "") (hnew : old ≠ new) (text : String) :
    replaceIdentifier? text old new =
      if (substituteFrom old.toList new.toList 0 none text.toList).2 = true then
        some (String.ofList (substituteFrom old.toList new.toList 0 none text.toList).1)
      else none := by
  have hproper : ¬ (old.toList.isEmpty || old.toList == new.toList) = true := by
    simp [hold, hnew, String.toList_inj]
  rw [replaceIdentifier?, substitute?, if_neg hproper]
  split <;> simp_all

theorem exists_replaceIdentifier?_eq {old : String} (hold : old ≠ "") (hnew : old ≠ new)
    (text : String) :
    ∃ matched, IsLeftmostFrom old.toList text.toList 0 matched ∧
      replaceIdentifier? text old new =
        replacedAt? text old new (matched.filter (IsFreeAt old.toList text.toList)) := by
  have hchars : old.toList ≠ [] := fun h => hold (String.toList_eq_nil_iff.mp h)
  obtain ⟨matched, hmatched, hresult⟩ := exists_resume_eq hchars new.toList text.toList 0
  refine ⟨matched, hmatched, ?_⟩
  have hscan : substituteFrom old.toList new.toList 0 none text.toList = _ := hresult
  rw [replaceIdentifier?_eq hold hnew, hscan, replacedAt?]
  by_cases hnone : matched.filter (IsFreeAt old.toList text.toList) = []
  · simp [hnone]
  · simp [hnone]

theorem replacedAt?_eq_none_iff {old : String} {places : List Nat} :
    replacedAt? text old new places = none ↔ places = [] := by
  rw [replacedAt?]
  split <;> simp [*]

theorem IsLeftmostFrom.covers {text : List Char} {matched : List Nat}
    (hmatched : IsLeftmostFrom old text 0 matched) (hold : old ≠ []) (hclear : conceals old = false)
    {i : Nat} (hi : IsFreeAt old text i) :
    ∃ j ∈ matched.filter (IsFreeAt old text), i < j + old.length ∧ j < i + old.length := by
  have hlength := List.length_pos_iff.mpr hold
  rcases hmatched.complete i (Nat.zero_le i) hi.occurs with hmem | ⟨j, hj, hlt, hinside⟩
  · exact ⟨i, List.mem_filter.mpr ⟨hmem, decide_eq_true hi⟩, by omega, by omega⟩
  · by_cases hfree : IsFreeAt old text j
    · exact ⟨j, List.mem_filter.mpr ⟨hj, decide_eq_true hfree⟩, hinside, by omega⟩
    · exact absurd (conceals_of_inside (hmatched.occurs j hj).2 hfree hi hlt hinside)
        (Bool.eq_false_iff.mp hclear)

theorem replacesAllFree_of_conceals_eq_false {old : String} (hclear : conceals old.toList = false)
    (text new : String) : ReplacesAllFree text old new := by
  by_cases hproper : old = "" ∨ old = new
  · have hnone : replaceIdentifier? text old new = none := replaceIdentifier?_eq_none hproper
    exact ⟨⟨fun _ => hproper.imp_right .inl, fun _ => hnone⟩,
      fun result hresult => by simp [hnone] at hresult⟩
  obtain ⟨hold, hnew⟩ := not_or.mp hproper
  obtain ⟨matched, hmatched, hresult⟩ := exists_replaceIdentifier?_eq hold hnew text
  have hcovers {i : Nat} (hi : IsFreeAt old.toList text.toList i) :=
    hmatched.covers (fun h => hold (String.toList_eq_nil_iff.mp h)) hclear hi
  have hfree : ∀ i ∈ matched.filter (IsFreeAt old.toList text.toList),
      IsFreeAt old.toList text.toList i := fun i hi => of_decide_eq_true (List.mem_filter.mp hi).2
  constructor
  · rw [hresult, replacedAt?_eq_none_iff]
    constructor
    · intro hnil
      refine .inr (.inr fun i hi => ?_)
      obtain ⟨j, hj, -⟩ := hcovers hi
      exact absurd hj (hnil ▸ List.not_mem_nil)
    · rintro (h | h | hnone)
      · exact absurd h hold
      · exact absurd h hnew
      · exact List.eq_nil_iff_forall_not_mem.mpr fun i hi => hnone i (hfree i hi)
  · intro result hsome
    exact ⟨_, hfree, hmatched.apart.filter _, hresult ▸ hsome, fun i hi => hcovers hi⟩

/-- An occurrence that is rejected hides a free one if no other occurrence fits into the text. -/
theorem not_replacesAllFree {old : String} (hold : old ≠ "") (hnew : old ≠ new) (i j : Nat)
    (hj : old.toList <+: text.toList.drop j) (hrejected : ¬ IsFreeAt old.toList text.toList j)
    (hi : IsFreeAt old.toList text.toList i) (hfirst : ∀ k < j, ¬ old.toList <+: text.toList.drop k)
    (hshort : text.toList.length < j + 2 * old.toList.length) : ¬ ReplacesAllFree text old new := by
  intro hall
  obtain ⟨matched, hmatched, hresult⟩ := exists_replaceIdentifier?_eq hold hnew text
  have hmem : j ∈ matched := by
    rcases hmatched.complete j (Nat.zero_le j) hj with hmem | ⟨k, hk, hlt, -⟩
    · exact hmem
    · exact absurd (hmatched.occurs k hk).2 (hfirst k hlt)
  have honly : ∀ k ∈ matched, k = j := by
    intro k hk
    obtain ⟨-, hoccurs⟩ := hmatched.occurs k hk
    have hfits := hoccurs.length_le
    rw [List.length_drop] at hfits
    have hlength := List.length_pos_iff.mpr fun h => hold (String.toList_eq_nil_iff.mp h)
    have hge : j ≤ k := Nat.le_of_not_lt fun hlt => hfirst k hlt hoccurs
    obtain ⟨sooner, later, rfl⟩ := List.append_of_mem hmem
    obtain ⟨-, hlater, hsooner⟩ := List.pairwise_append.mp hmatched.apart
    rcases List.mem_append.mp hk with hk | hk
    · have := hsooner k hk j List.mem_cons_self
      omega
    · rcases List.mem_cons.mp hk with rfl | hk
      · rfl
      · have := (List.pairwise_cons.mp hlater).1 k hk
        omega
  have hnone : matched.filter (IsFreeAt old.toList text.toList) = [] :=
    List.filter_eq_nil_iff.mpr fun k hk => honly k hk ▸ by simpa using hrejected
  rcases hall.none_iff.mp (hresult.trans (replacedAt?_eq_none_iff.mpr hnone)) with h | h | h
  · exact hold h
  · exact hnew h
  · exact h i hi

/-- An overlap of a text with itself, behind any other text: both occurrences. -/
theorem occurs_of_overlap {d : Nat} (hinit : old.drop d <+: old) (before : List Char) :
    old <+: (before ++ (old.take d ++ old)).drop before.length := by
  rw [List.drop_left]
  calc old = old.take d ++ old.drop d := (List.take_append_drop d old).symm
    _ <+: old.take d ++ old := (List.prefix_append_right_inj _).mpr hinit

theorem isFreeAt_of_overlap {d : Nat} (hpos : 0 < d) (hlength : d < old.length)
    (hinit : old.drop d <+: old) (hbefore : freeBefore old (old.take d).getLast? = true)
    (before : List Char) : IsFreeAt old (before ++ (old.take d ++ old)) (before.length + d) := by
  have hbehind : (before ++ (old.take d ++ old)).drop (before.length + d) = old := by
    rw [← List.drop_drop, List.drop_left]
    exact List.drop_left' (List.length_take_of_le (Nat.le_of_lt hlength))
  refine ⟨hbehind.symm ▸ List.prefix_rfl, ?_, ?_⟩
  · rw [getLast?_take_of_inside (occurs_of_overlap hinit before) (by omega) (by omega),
      Nat.add_sub_cancel_left]
    exact freeBefore_iff.mp hbefore
  · rw [← List.drop_drop, hbehind, List.drop_length]
    simp

theorem exists_not_replacesAllFree {old : String} (h : conceals old.toList = true) :
    ∃ text new, ¬ ReplacesAllFree text old new := by
  obtain ⟨d, hpos, hlength, hinit, hbefore, hrejected⟩ := conceals_iff.mp h
  have hold : old ≠ "" := by
    rintro rfl
    simp at hlength
  -- one occurrence is cut at its start by a point put before it, or at its end by the next one
  have hmissed (before : List Char)
      (hrejected : ¬ IsFreeAt old.toList (before ++ (old.toList.take d ++ old.toList))
        before.length)
      (hfirst : ∀ k < before.length,
        ¬ old.toList <+: (before ++ (old.toList.take d ++ old.toList)).drop k) :
      ¬ ReplacesAllFree (String.ofList (before ++ (old.toList.take d ++ old.toList))) old "" := by
    refine not_replacesAllFree hold hold (before.length + d) before.length ?_ ?_ ?_ ?_ ?_ <;>
      rw [String.toList_ofList]
    · exact occurs_of_overlap hinit before
    · exact hrejected
    · exact isFreeAt_of_overlap hpos hlength hinit hbefore before
    · exact hfirst
    · simp only [List.length_append, List.length_take]
      omega
  rcases hrejected with hstart | hend
  · refine ⟨_, _, hmissed ['.'] (fun hfree => ?_) fun k hk hoccurs => ?_⟩
    · exact absurd (freeBefore_iff.mpr hfree.before) (Bool.eq_false_iff.mp hstart)
    · obtain ⟨c, tail, hcons, hword⟩ := starts_of_freeBefore_eq_false hstart
      obtain rfl := Nat.lt_one_iff.mp hk
      rw [hcons, List.drop_zero, List.singleton_append, List.cons_prefix_cons] at hoccurs
      exact absurd hword (hoccurs.1 ▸ by decide)
  · refine ⟨_, _, hmissed [] (fun hfree => ?_) fun k hk => absurd hk (Nat.not_lt_zero k)⟩
    have hafter := freeAfter_iff.mpr hfree.after
    rw [freeAfter_congr (head?_drop_of_inside
      (isFreeAt_of_overlap hpos hlength hinit hbefore []).occurs (by simpa using hpos)
      (by simpa using hlength))] at hafter
    simp [hend] at hafter

/-- A substitution replaces the free ones among the occurrences that are found from left to right
without overlap. A free occurrence that begins inside a rejected one is not found; so everything
free is replaced in every text exactly if no occurrence can conceal a free one. -/
theorem replaceIdentifier?_replacesFound (old : String) :
    (∀ text new, (old = "" ∨ old = new → replaceIdentifier? text old new = none) ∧
      (old ≠ "" → old ≠ new → ∃ matched, IsLeftmostFrom old.toList text.toList 0 matched ∧
        replaceIdentifier? text old new =
          replacedAt? text old new (matched.filter (IsFreeAt old.toList text.toList)))) ∧
      ((∀ text new, ReplacesAllFree text old new) ↔ conceals old.toList = false) := by
  refine ⟨fun text new => ⟨replaceIdentifier?_eq_none,
    fun hold hnew => exists_replaceIdentifier?_eq hold hnew text⟩, fun hall => ?_,
    replacesAllFree_of_conceals_eq_false⟩
  refine Bool.eq_false_iff.mpr fun hconceals => ?_
  obtain ⟨text, new, hmissed⟩ := exists_not_replacesAllFree hconceals
  exact hmissed (hall text new)

theorem replaceIdentifier?_replacesFound_rate :
    conceals "rate".toList = false ∧
      ReplacesAllFree "rate * rates + self.rate" "rate" "self.rate" ∧
      ∃ matched, IsLeftmostFrom "a + a".toList "ba + a + a".toList 0 matched ∧
        replaceIdentifier? "ba + a + a" "a + a" "c" = replacedAt? "ba + a + a" "a + a" "c"
          (matched.filter (IsFreeAt "a + a".toList "ba + a + a".toList)) := by
  have hrate : conceals "rate".toList = false := by decide +kernel
  exact ⟨hrate, (replaceIdentifier?_replacesFound "rate").2.mpr hrate _ _,
    ((replaceIdentifier?_replacesFound "a + a").1 _ "c").2 (by decide) (by decide)⟩

/-- The sum of two is found first behind the letter that makes it part of a longer name, and hides
the one at the end. -/
theorem replaceIdentifier?_misses_sum : ¬ ReplacesAllFree "ba + a + a" "a + a" "c" := by
  intro hall
  have hnone : replaceIdentifier? "ba + a + a" "a + a" "c" = none := by decide +kernel
  have hfree : IsFreeAt "a + a".toList "ba + a + a".toList 5 := by decide +kernel
  rcases hall.none_iff.mp hnone with hempty | hsame | hnothing
  · exact absurd hempty (by decide)
  · exact absurd hsame (by decide)
  · exact hnothing 5 hfree

end CodeEvolution.Text
