import CodeEvolution.Text.Substitution
import Mathlib.Data.List.Infix
/-!
# Which occurrences a substitution replaces

A substitution is followed along the positions of the text. It finds the occurrences from left to
right without overlap, and its result is the text with the free ones among them replaced and all
else as it was.
-/
namespace CodeEvolution.Text

variable {old : List Char} (new : List Char) {rest text : List Char} {matched : List Nat}

/-- A text stands at a position of another and neither cuts an identifier nor is the member part
of a qualified name. -/
structure IsFreeAt (old text : List Char) (i : Nat) : Prop where
  occurs : old <+: text.drop i
  before : ∀ c ∈ old.head?, isWordChar c = true →
    ∀ p ∈ (text.take i).getLast?, isWordChar p = false ∧ p ≠ '.'
  after : ∀ c ∈ old.getLast?, isWordChar c = true →
    ∀ n ∈ (text.drop (i + old.length)).head?, isWordChar n = false

theorem freeBefore_iff {previous : Option Char} :
    freeBefore old previous = true ↔
      ∀ c ∈ old.head?, isWordChar c = true → ∀ p ∈ previous, isWordChar p = false ∧ p ≠ '.' := by
  cases old with
  | nil => simp [freeBefore]
  | cons c rest =>
    cases previous with
    | none => simp [freeBefore]
    | some p => cases hc : isWordChar c <;> simp [freeBefore, hc]

theorem freeAfter_iff :
    freeAfter old rest = true ↔
      ∀ c ∈ old.getLast?, isWordChar c = true → ∀ n ∈ rest.head?, isWordChar n = false := by
  cases hlast : old.getLast? with
  | none => simp [freeAfter, hlast]
  | some c =>
    cases rest with
    | nil => simp [freeAfter, hlast]
    | cons n rest => cases hc : isWordChar c <;> simp [freeAfter, hlast, hc]

theorem isFreeAt_iff {i : Nat} :
    IsFreeAt old text i ↔
      old <+: text.drop i ∧ isFree old (text.take i).getLast? (text.drop i) = true := by
  rw [isFree, Bool.and_eq_true, freeBefore_iff, freeAfter_iff, List.drop_drop]
  exact ⟨fun h => ⟨h.occurs, h.before, h.after⟩, fun h => ⟨h.1, h.2.1, h.2.2⟩⟩

instance (old text : List Char) : DecidablePred (IsFreeAt old text) :=
  fun _ => decidable_of_iff _ isFreeAt_iff.symm

/-- The positions at which a text occurs in another, taken from left to right without overlap, from
`start` on: an occurrence is passed over only where it begins inside one that is taken. -/
structure IsLeftmostFrom (old text : List Char) (start : Nat) (matched : List Nat) : Prop where
  occurs : ∀ i ∈ matched, start ≤ i ∧ old <+: text.drop i
  apart : matched.Pairwise fun i j => i + old.length ≤ j
  complete : ∀ i, start ≤ i → old <+: text.drop i →
    i ∈ matched ∨ ∃ j ∈ matched, j < i ∧ i < j + old.length

/-- A text from `start` on, with `length` characters replaced at each of the places. -/
def splice (new : List Char) (length : Nat) (text : List Char) : Nat → List Nat → List Char
  | start, [] => text.drop start
  | start, i :: places =>
    (text.drop start).take (i - start) ++ new ++ splice new length text (i + length) places

theorem splice_of_le {new : List Char} {length start middle : Nat} {places : List Nat}
    (hstart : start ≤ middle) (hplaces : ∀ i ∈ places, middle ≤ i) :
    splice new length text start places =
      (text.drop start).take (middle - start) ++ splice new length text middle places := by
  have hdrop : text.drop middle = (text.drop start).drop (middle - start) := by
    rw [List.drop_drop, Nat.add_sub_cancel' hstart]
  cases places with
  | nil => rw [splice, splice, hdrop, List.take_append_drop]
  | cons i places =>
    have hi := hplaces i List.mem_cons_self
    have hsplit : i - start = (middle - start) + (i - middle) := by omega
    rw [splice, splice, hsplit, List.take_add, hdrop]
    simp only [List.append_assoc]

/-! ### The scan from a position on -/

/-- The substitution from a position of the text on. -/
def resume (old new text : List Char) (start : Nat) : List Char × Bool :=
  substituteFrom old new 0 (text.take start).getLast? (text.drop start)

theorem substituteFrom_skip (old new : List Char) (skip : Nat) (previous : Option Char)
    (text : List Char) :
    substituteFrom old new skip previous text =
      substituteFrom old new 0 ((text.take skip).getLast?.or previous) (text.drop skip) := by
  induction skip generalizing previous text with
  | zero => simp
  | succ skip ih =>
    cases text with
    | nil => simp [substituteFrom]
    | cons c rest =>
      rw [substituteFrom, ih]
      simp [List.getLast?_cons]

theorem substituteFrom_append (hold : old ≠ []) (new : List Char) (previous : Option Char)
    (rest : List Char) :
    substituteFrom old new 0 previous (old ++ rest) =
      if isFree old previous (old ++ rest) = true then
        (new ++ (substituteFrom old new 0 old.getLast? rest).1, true)
      else (old ++ (substituteFrom old new 0 old.getLast? rest).1,
        (substituteFrom old new 0 old.getLast? rest).2) := by
  obtain ⟨c, tail, rfl⟩ := List.exists_cons_of_ne_nil hold
  have hinit : (c :: tail).isPrefixOf (c :: (tail ++ rest)) = true :=
    List.isPrefixOf_iff_prefix.mpr (List.prefix_append (c :: tail) rest)
  have htail : substituteFrom (c :: tail) new tail.length (some c) (tail ++ rest) =
      substituteFrom (c :: tail) new 0 (c :: tail).getLast? rest := by
    rw [substituteFrom_skip, List.take_left, List.drop_left]
    simp [List.getLast?_cons, Option.or_some]
  rw [List.cons_append, substituteFrom, if_pos hinit, List.length_cons, Nat.add_sub_cancel, htail]

theorem substituteFrom_cons {c : Char} (h : ¬ old <+: c :: rest) (new : List Char)
    (previous : Option Char) :
    substituteFrom old new 0 previous (c :: rest) =
      (c :: (substituteFrom old new 0 (some c) rest).1,
        (substituteFrom old new 0 (some c) rest).2) := by
  rw [substituteFrom, if_neg fun hinit => h (List.isPrefixOf_iff_prefix.mp hinit)]

section Scan

variable {old text : List Char} {start : Nat}

theorem resume_of_length_le (h : text.length ≤ start) :
    resume old new text start = ([], false) := by
  rw [resume, List.drop_of_length_le h, substituteFrom]

theorem resume_of_occurs (hold : old ≠ []) (new : List Char) (h : old <+: text.drop start) :
    resume old new text start =
      if IsFreeAt old text start then (new ++ (resume old new text (start + old.length)).1, true)
      else (old ++ (resume old new text (start + old.length)).1,
        (resume old new text (start + old.length)).2) := by
  obtain ⟨rest, hrest⟩ := h
  have hbehind : text.drop (start + old.length) = rest := by
    rw [← List.drop_drop, ← hrest, List.drop_left]
  have hlast : (text.take (start + old.length)).getLast? = old.getLast? := by
    obtain ⟨c, hc⟩ := Option.isSome_iff_exists.mp (List.getLast?_isSome.mpr hold)
    rw [List.take_add, ← hrest, List.take_left, List.getLast?_append, hc, Option.some_or]
  have hfree : isFree old (text.take start).getLast? (old ++ rest) = true ↔
      IsFreeAt old text start := by
    rw [isFreeAt_iff, ← hrest]
    exact ⟨fun h => ⟨List.prefix_append old rest, h⟩, fun h => h.2⟩
  rw [resume, resume, hbehind, hlast, ← hrest, substituteFrom_append hold]
  simp only [hfree]

theorem resume_of_not_occurs (hstart : start < text.length) (h : ¬ old <+: text.drop start) :
    resume old new text start =
      ((text.drop start).take 1 ++ (resume old new text (start + 1)).1,
        (resume old new text (start + 1)).2) := by
  obtain ⟨c, rest, hrest⟩ := List.exists_cons_of_ne_nil
    (fun hnil => Nat.not_le_of_lt hstart (List.drop_eq_nil_iff.mp hnil))
  have hbehind : text.drop (start + 1) = rest := by
    rw [← List.drop_drop, hrest, List.drop_one, List.tail_cons]
  have hlast : (text.take (start + 1)).getLast? = some c := by
    rw [List.take_add, hrest]
    simp
  rw [resume, resume, hbehind, hlast, hrest, substituteFrom_cons (hrest ▸ h)]
  rfl

theorem isLeftmostFrom_nil (hold : old ≠ []) (h : text.length ≤ start) :
    IsLeftmostFrom old text start [] where
  occurs := List.forall_mem_nil _
  apart := .nil
  complete i hi hoccurs := by
    rw [List.drop_of_length_le (Nat.le_trans h hi)] at hoccurs
    exact absurd (List.prefix_nil.mp hoccurs) hold

theorem IsLeftmostFrom.cons (h : old <+: text.drop start)
    (hrest : IsLeftmostFrom old text (start + old.length) matched) :
    IsLeftmostFrom old text start (start :: matched) where
  occurs := List.forall_mem_cons.mpr ⟨⟨Nat.le_refl start, h⟩,
    fun i hi => ⟨Nat.le_of_add_right_le (hrest.occurs i hi).1, (hrest.occurs i hi).2⟩⟩
  apart := List.pairwise_cons.mpr ⟨fun i hi => (hrest.occurs i hi).1, hrest.apart⟩
  complete i hi hoccurs := by
    by_cases hbehind : start + old.length ≤ i
    · rcases hrest.complete i hbehind hoccurs with hmem | ⟨j, hj, hinside⟩
      · exact .inl (List.mem_cons_of_mem start hmem)
      · exact .inr ⟨j, List.mem_cons_of_mem start hj, hinside⟩
    · rcases Nat.eq_or_lt_of_le hi with rfl | hlt
      · exact .inl List.mem_cons_self
      · exact .inr ⟨start, List.mem_cons_self, hlt, Nat.lt_of_not_le hbehind⟩

theorem IsLeftmostFrom.of_succ (h : ¬ old <+: text.drop start)
    (hrest : IsLeftmostFrom old text (start + 1) matched) :
    IsLeftmostFrom old text start matched where
  occurs i hi := ⟨Nat.le_of_succ_le (hrest.occurs i hi).1, (hrest.occurs i hi).2⟩
  apart := hrest.apart
  complete i hi hoccurs := by
    rcases Nat.eq_or_lt_of_le hi with rfl | hlt
    · exact absurd hoccurs h
    · exact hrest.complete i hlt hoccurs

end Scan

/-- The scan replaces the free ones among the leftmost occurrences. -/
theorem exists_resume_eq (hold : old ≠ []) (new text : List Char) (start : Nat) :
    ∃ matched, IsLeftmostFrom old text start matched ∧
      resume old new text start =
        (splice new old.length text start (matched.filter (IsFreeAt old text)),
          !(matched.filter (IsFreeAt old text)).isEmpty) := by
  induction hn : text.length - start using Nat.strongRecOn generalizing start with
  | ind n ih =>
    have hlength := List.length_pos_iff.mpr hold
    by_cases hend : text.length ≤ start
    · refine ⟨[], isLeftmostFrom_nil hold hend, ?_⟩
      rw [resume_of_length_le new hend, List.filter_nil, splice, List.drop_of_length_le hend]
      rfl
    by_cases hoccurs : old <+: text.drop start
    · obtain ⟨matched, hmatched, hresult⟩ :=
        ih (text.length - (start + old.length)) (by omega) (start + old.length) rfl
      refine ⟨start :: matched, hmatched.cons hoccurs, ?_⟩
      rw [resume_of_occurs hold new hoccurs, hresult]
      by_cases hfree : IsFreeAt old text start
      · rw [if_pos hfree, List.filter_cons_of_pos (by simpa using hfree), splice, Nat.sub_self,
          List.take_zero, List.nil_append]
        rfl
      · have hbehind : ∀ i ∈ matched.filter (IsFreeAt old text), start + old.length ≤ i :=
          fun i hi => (hmatched.occurs i (List.mem_filter.mp hi).1).1
        rw [if_neg hfree, List.filter_cons_of_neg (by simpa using hfree),
          splice_of_le (Nat.le_add_right start old.length) hbehind, Nat.add_sub_cancel_left,
          ← List.prefix_iff_eq_take.mp hoccurs]
    · obtain ⟨matched, hmatched, hresult⟩ :=
        ih (text.length - (start + 1)) (by omega) (start + 1) rfl
      refine ⟨matched, hmatched.of_succ hoccurs, ?_⟩
      have hbehind : ∀ i ∈ matched.filter (IsFreeAt old text), start + 1 ≤ i :=
        fun i hi => (hmatched.occurs i (List.mem_filter.mp hi).1).1
      rw [resume_of_not_occurs new (Nat.lt_of_not_le hend) hoccurs, hresult,
        splice_of_le (Nat.le_add_right start 1) hbehind, Nat.add_sub_cancel_left]

end CodeEvolution.Text
