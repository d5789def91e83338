import CodeEvolution.Proofs.Text.Concealment
import Mathlib.Data.List.TakeWhile
/-!
# Renaming an identifier and renaming it back

A text falls into runs of word characters, each as long as can be, and single other characters. The
substitution of one identifier for another works run by run: it replaces a run that is the old
identifier, unless a point stands before it, and copies everything else. The new identifier makes a
run of its own in the same place, so if the text had no free run of it before, substituting the old
one again finds the replaced runs and no others.
-/
namespace CodeEvolution.Text

variable {old rest text run : List Char} {previous : Option Char}

/-- An identifier: word characters only, and at least one. -/
structure IsWord (text : List Char) : Prop where
  ne_nil : text ≠ []
  word : ∀ c ∈ text, isWordChar c = true

/-- No word character stands first, so what comes before is not continued. -/
def StartsApart (text : List Char) : Prop :=
  ∀ c ∈ text.head?, isWordChar c = false

/-- A run of word characters that goes on neither before the position nor behind it. -/
structure IsRunAt (run text : List Char) (i : Nat) : Prop where
  isWord : IsWord run
  occurs : run <+: text.drop i
  before : ∀ p ∈ (text.take i).getLast?, isWordChar p = false
  after : StartsApart (text.drop (i + run.length))

theorem IsWord.exists_head (h : IsWord text) : ∃ c, text.head? = some c ∧ isWordChar c = true := by
  obtain ⟨c, tail, rfl⟩ := List.exists_cons_of_ne_nil h.ne_nil
  exact ⟨c, rfl, h.word c List.mem_cons_self⟩

theorem IsWord.exists_getLast (h : IsWord text) :
    ∃ c, text.getLast? = some c ∧ isWordChar c = true :=
  ⟨_, List.getLast?_eq_some_getLast h.ne_nil, h.word _ (List.getLast_mem h.ne_nil)⟩

theorem IsWord.freeBefore_iff (hold : IsWord old) :
    freeBefore old previous = true ↔ ∀ p ∈ previous, isWordChar p = false ∧ p ≠ '.' := by
  obtain ⟨c, hc, hword⟩ := hold.exists_head
  rw [Text.freeBefore_iff]
  exact ⟨fun h => h c hc hword, fun h _ _ _ => h⟩

theorem IsWord.freeAfter_iff (hold : IsWord old) :
    freeAfter old rest = true ↔ StartsApart rest := by
  obtain ⟨c, hc, hword⟩ := hold.exists_getLast
  rw [Text.freeAfter_iff]
  exact ⟨fun h => h c hc hword, fun h _ _ _ => h⟩

theorem isFreeAt_iff_isRunAt {i : Nat} (hold : IsWord old) :
    IsFreeAt old text i ↔ IsRunAt old text i ∧ (text.take i).getLast? ≠ some '.' := by
  rw [isFreeAt_iff, isFree, Bool.and_eq_true, hold.freeBefore_iff, hold.freeAfter_iff,
    List.drop_drop]
  constructor
  · rintro ⟨hoccurs, hbefore, hafter⟩
    exact ⟨⟨hold, hoccurs, fun p hp => (hbefore p hp).1, hafter⟩,
      fun hpoint => (hbefore '.' hpoint).2 rfl⟩
  · rintro ⟨hrun, hpoint⟩
    exact ⟨hrun.occurs, fun p hp => ⟨hrun.before p hp, fun hp' => hpoint (hp' ▸ hp)⟩, hrun.after⟩

/-- An identifier in front of a text that goes on with a run lies within the run. -/
theorem IsWord.prefix_run (hold : IsWord old) (hrest : StartsApart rest) (h : old <+: run ++ rest) :
    old <+: run := by
  rcases Nat.le_total old.length run.length with hle | hle
  · exact List.prefix_of_prefix_length_le h (List.prefix_append run rest) hle
  · obtain ⟨tail, rfl⟩ := List.prefix_of_prefix_length_le (List.prefix_append run rest) h hle
    have htail := (List.prefix_append_right_inj run).mp h
    cases tail with
    | nil => simp
    | cons c tail =>
      have hc := hold.word c (List.mem_append_right run List.mem_cons_self)
      obtain ⟨behind, rfl⟩ := htail
      exact absurd hc (Bool.eq_false_iff.mp (hrest c rfl))

section Runs

variable {old : List Char} (hold : IsWord old) (new : List Char)

include hold

theorem substituteFrom_other {c : Char} (hc : isWordChar c = false) (previous : Option Char)
    (rest : List Char) :
    substituteFrom old new 0 previous (c :: rest) =
      (c :: (substituteFrom old new 0 (some c) rest).1,
        (substituteFrom old new 0 (some c) rest).2) := by
  refine substituteFrom_cons (fun hinit => ?_) new previous
  obtain ⟨behind, hbehind⟩ := hinit
  obtain ⟨d, tail, htail⟩ := List.exists_cons_of_ne_nil hold.ne_nil
  have hd := hold.word d (htail ▸ List.mem_cons_self)
  rw [htail, List.cons_append] at hbehind
  exact absurd hd (Bool.eq_false_iff.mp ((List.cons.inj hbehind).1 ▸ hc))

theorem substituteFrom_apart (hrest : StartsApart rest) (previous : Option Char) :
    substituteFrom old new 0 previous rest = substituteFrom old new 0 none rest := by
  cases rest with
  | nil => rw [substituteFrom, substituteFrom]
  | cons c rest =>
    rw [substituteFrom_other hold new (hrest c rfl), substituteFrom_other hold new (hrest c rfl)]

/-- Behind a word character the rest of a run is copied, whatever occurs in it. -/
theorem substituteFrom_inside (hrest : StartsApart rest) {p : Char} (hp : isWordChar p = true)
    (hrun : ∀ c ∈ run, isWordChar c = true) :
    substituteFrom old new 0 (some p) (run ++ rest) =
      (run ++ (substituteFrom old new 0 none rest).1, (substituteFrom old new 0 none rest).2) := by
  induction hn : run.length using Nat.strongRecOn generalizing run p with
  | ind n ih =>
    cases run with
    | nil => exact substituteFrom_apart hold new hrest (some p)
    | cons c run =>
      by_cases hinit : old <+: c :: (run ++ rest)
      · have hwithin : old <+: c :: run := hold.prefix_run hrest hinit
        obtain ⟨behind, hbehind⟩ := hwithin
        obtain ⟨q, hq, hqword⟩ := hold.exists_getLast
        have hrejected : isFree old (some p) (old ++ (behind ++ rest)) = false := by
          rw [isFree, Bool.and_eq_false_iff]
          refine .inl (Bool.eq_false_iff.mpr fun hfree => ?_)
          exact absurd hp (Bool.eq_false_iff.mp (hold.freeBefore_iff.mp hfree p rfl).1)
        have hshorter : behind.length < n := by
          have hlength := congrArg List.length hbehind
          have hpos := List.length_pos_iff.mpr hold.ne_nil
          rw [List.length_append] at hlength
          omega
        have hword : ∀ d ∈ behind, isWordChar d = true := fun d hd =>
          hrun d (hbehind ▸ List.mem_append_right old hd)
        rw [← hbehind, List.append_assoc, substituteFrom_append hold.ne_nil, hrejected, hq,
          ih behind.length hshorter hqword hword rfl]
        simp
      · have hword := List.forall_mem_cons.mp hrun
        rw [List.cons_append, substituteFrom_cons hinit,
          ih run.length (hn ▸ Nat.lt_succ_self _) hword.1 hword.2 rfl]
        rfl

/-- A run is replaced as a whole or copied as a whole. -/
theorem substituteFrom_run (hrun : IsWord run) (hrest : StartsApart rest)
    (hprevious : ∀ p ∈ previous, isWordChar p = false) :
    substituteFrom old new 0 previous (run ++ rest) =
      if run = old ∧ previous ≠ some '.' then
        (new ++ (substituteFrom old new 0 none rest).1, true)
      else (run ++ (substituteFrom old new 0 none rest).1,
        (substituteFrom old new 0 none rest).2) := by
  by_cases hinit : old <+: run ++ rest
  · obtain ⟨behind, rfl⟩ := hold.prefix_run hrest hinit
    rw [List.append_assoc, substituteFrom_append hold.ne_nil]
    cases behind with
    | nil =>
      have hfree : isFree old previous (old ++ rest) = true ↔ previous ≠ some '.' := by
        rw [isFree, Bool.and_eq_true, List.drop_left, hold.freeBefore_iff, hold.freeAfter_iff]
        constructor
        · exact fun h hpoint => (h.1 '.' hpoint).2 rfl
        · exact fun h => ⟨fun p hp => ⟨hprevious p hp, fun heq => h (heq ▸ hp)⟩, hrest⟩
      simp only [List.append_nil, List.nil_append, hfree, true_and,
        substituteFrom_apart hold new hrest old.getLast?]
    | cons c behind =>
      have hword : ∀ d ∈ c :: behind, isWordChar d = true := fun d hd =>
        hrun.word d (List.mem_append_right old hd)
      have hrejected : isFree old previous (old ++ (c :: behind ++ rest)) = false := by
        rw [isFree, Bool.and_eq_false_iff, List.drop_left]
        refine .inr (Bool.eq_false_iff.mpr fun hfree => ?_)
        exact absurd (hword c List.mem_cons_self)
          (Bool.eq_false_iff.mp (hold.freeAfter_iff.mp hfree c rfl))
      obtain ⟨q, hq, hqword⟩ := hold.exists_getLast
      rw [hrejected, hq, substituteFrom_inside hold new hrest hqword hword]
      simp
  · have hother : run ≠ old := fun heq => hinit (heq ▸ List.prefix_append run rest)
    obtain ⟨c, tail, rfl⟩ := List.exists_cons_of_ne_nil hrun.ne_nil
    obtain ⟨hc, htail⟩ := List.forall_mem_cons.mp hrun.word
    rw [List.cons_append] at hinit
    rw [if_neg fun h => hother h.1, List.cons_append, substituteFrom_cons hinit,
      substituteFrom_inside hold new hrest hc htail]
    rfl

theorem startsApart_substituteFrom (hrest : StartsApart rest) (previous : Option Char) :
    StartsApart (substituteFrom old new 0 previous rest).1 := by
  cases rest with
  | nil => exact hrest
  | cons c rest =>
    rw [substituteFrom_other hold new (hrest c rfl)]
    exact hrest

end Runs

/-- Induction along the runs of word characters and the other characters of a text. -/
theorem runInduction {motive : List Char → Prop} (nil : motive [])
    (other : ∀ c rest, isWordChar c = false → motive rest → motive (c :: rest))
    (run : ∀ run rest, IsWord run → StartsApart rest → motive rest → motive (run ++ rest))
    (text : List Char) : motive text := by
  induction hn : text.length using Nat.strongRecOn generalizing text with
  | ind n ih =>
    cases text with
    | nil => exact nil
    | cons c rest =>
      cases hc : isWordChar c with
      | false => exact other c rest hc (ih rest.length (hn ▸ Nat.lt_succ_self _) rest rfl)
      | true =>
        have hapart : StartsApart (rest.dropWhile isWordChar) := fun d hd => by
          have hstop := List.head?_dropWhile_not isWordChar rest
          rwa [Option.mem_def.mp hd] at hstop
        have hword : IsWord (c :: rest.takeWhile isWordChar) :=
          ⟨List.cons_ne_nil _ _, List.forall_mem_cons.mpr
            ⟨hc, fun d hd => List.mem_takeWhile_imp hd⟩⟩
        have hshorter : (rest.dropWhile isWordChar).length < n :=
          hn ▸ Nat.lt_succ_of_le (List.length_dropWhile_le isWordChar rest)
        have hwhole := run _ _ hword hapart (ih _ hshorter _ rfl)
        rwa [List.cons_append, List.takeWhile_append_dropWhile] at hwhole

/-- Substituting back gives the text again, if the new identifier did not stand free in it. -/
theorem substituteFrom_substituteFrom {new : List Char} (hold : IsWord old) (hnew : IsWord new)
    (fresh text : List Char) (hprevious : ∀ p ∈ previous, isWordChar p = false)
    (hunused : (substituteFrom new fresh 0 previous text).2 = false) :
    substituteFrom new old 0 previous (substituteFrom old new 0 previous text).1 =
      (text, (substituteFrom old new 0 previous text).2) := by
  induction text using runInduction generalizing previous with
  | nil => simp [substituteFrom]
  | other c rest hc ih =>
    rw [substituteFrom_other hnew fresh hc] at hunused
    rw [substituteFrom_other hold new hc, substituteFrom_other hnew old hc,
      ih (by simpa using hc) hunused]
  | run run rest hrun hrest ih =>
    have hapart := startsApart_substituteFrom hold new hrest none
    rw [substituteFrom_run hnew fresh hrun hrest hprevious] at hunused
    have hother : ¬ (run = new ∧ previous ≠ some '.') := fun h => by
      rw [if_pos h] at hunused
      exact absurd hunused (by simp)
    rw [if_neg hother] at hunused
    have hrestored := ih (by simp) hunused
    rw [substituteFrom_run hold new hrun hrest hprevious]
    by_cases hfree : run = old ∧ previous ≠ some '.'
    · rw [if_pos hfree, substituteFrom_run hnew old hnew hapart hprevious,
        if_pos ⟨rfl, hfree.2⟩, hrestored, hfree.1]
    · rw [if_neg hfree, substituteFrom_run hnew old hrun hapart hprevious, if_neg hother, hrestored]

/-- Runs do not overlap, so none is passed over. -/
theorem IsLeftmostFrom.mem_filter_iff {matched : List Nat}
    (hmatched : IsLeftmostFrom old text 0 matched) (hold : IsWord old) {i : Nat} :
    i ∈ matched.filter (IsFreeAt old text) ↔ IsFreeAt old text i := by
  rw [List.mem_filter, decide_eq_true_eq]
  refine ⟨fun h => h.2, fun hi => ⟨?_, hi⟩⟩
  rcases hmatched.complete i (Nat.zero_le i) hi.occurs with hmem | ⟨j, hj, hlt, hinside⟩
  · exact hmem
  · have hbefore := ((isFreeAt_iff_isRunAt hold).mp hi).1.before
    rw [getLast?_take_of_inside (hmatched.occurs j hj).2 hlt hinside] at hbefore
    have hne : old.take (i - j) ≠ [] := by
      rw [ne_eq, List.take_eq_nil_iff, not_or]
      exact ⟨by omega, hold.ne_nil⟩
    have hmem := List.mem_of_mem_take (List.getLast_mem hne)
    exact absurd (hold.word _ hmem)
      (Bool.eq_false_iff.mp (hbefore _ (List.getLast?_eq_some_getLast hne)))

/-- Renaming can be undone if the new identifier did not stand free in the text, and it changes the
runs of the old identifier that no point precedes, and nothing else. -/
theorem replaceIdentifier?_isInvertible {text old new fresh renamed : String}
    (hold : IsWord old.toList) (hnew : IsWord new.toList) (hfresh : fresh ≠ new)
    (hunused : replaceIdentifier? text new fresh = none)
    (hrenamed : replaceIdentifier? text old new = some renamed) :
    replaceIdentifier? renamed new old = some text ∧
      ∃ places : List Nat, places.Pairwise (fun i j => i + old.toList.length ≤ j) ∧
        (∀ i, i ∈ places ↔ IsRunAt old.toList text.toList i ∧
          (text.toList.take i).getLast? ≠ some '.') ∧
        renamed.toList = splice new.toList old.toList.length text.toList 0 places := by
  have holdne : old ≠ "" := fun h => hold.ne_nil (String.toList_eq_nil_iff.mpr h)
  have hnewne : new ≠ "" := fun h => hnew.ne_nil (String.toList_eq_nil_iff.mpr h)
  have hne : old ≠ new := by
    rintro rfl
    simp [replaceIdentifier?_eq_none (.inr rfl)] at hrenamed
  constructor
  · rw [replaceIdentifier?_eq hnewne hfresh.symm] at hunused
    rw [replaceIdentifier?_eq holdne hne] at hrenamed
    have hnothing : (substituteFrom new.toList fresh.toList 0 none text.toList).2 = false :=
      Bool.eq_false_iff.mpr fun hfound => by simp [hfound] at hunused
    obtain ⟨hchanged, hresult⟩ := Option.ite_none_right_eq_some.mp hrenamed
    have hback := substituteFrom_substituteFrom hold hnew _ _ (by simp) hnothing
    rw [replaceIdentifier?_eq hnewne hne.symm, ← Option.some.inj hresult, String.toList_ofList,
      hback, if_pos hchanged, String.ofList_toList]
  · obtain ⟨matched, hmatched, hresult⟩ := exists_replaceIdentifier?_eq holdne hne text
    refine ⟨_, hmatched.apart.filter _,
      fun i => (hmatched.mem_filter_iff hold).trans (isFreeAt_iff_isRunAt hold), ?_⟩
    rw [hrenamed, replacedAt?] at hresult
    split at hresult
    · simp at hresult
    · rw [Option.some.inj hresult, String.toList_ofList]

theorem replaceIdentifier?_isInvertible_rate :
    replaceIdentifier? "rate * rates + self.rate" "rate" "price" =
        some "price * rates + self.rate" ∧
      replaceIdentifier? "price * rates + self.rate" "price" "rate" =
        some "rate * rates + self.rate" := by
  have hrenamed : replaceIdentifier? "rate * rates + self.rate" "rate" "price" =
      some "price * rates + self.rate" := by decide +kernel
  have hunused : replaceIdentifier? "rate * rates + self.rate" "price" "z" = none := by
    decide +kernel
  have hrate : IsWord "rate".toList := ⟨by decide, List.all_eq_true.mp (by decide +kernel)⟩
  have hprice : IsWord "price".toList := ⟨by decide, List.all_eq_true.mp (by decide +kernel)⟩
  exact ⟨hrenamed, (replaceIdentifier?_isInvertible hrate hprice (by decide) hunused hrenamed).1⟩

end CodeEvolution.Text
