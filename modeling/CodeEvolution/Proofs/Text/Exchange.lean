import CodeEvolution.Proofs.Text.IdentifierRenaming
import CodeEvolution.Proofs.Text.Tokens
/-!
# Texts that differ in one name

Two texts may be put together from the same pieces, except that in one of them the new name stands
in some places of the old one. Pieces are joined only where no word runs over the seam, so a name
that is a piece stands free in the whole. If the old name stands free nowhere in the second text,
that text is the first with the old name replaced; and if the texts differ, the new name stands
free in the second one.
-/
namespace CodeEvolution.Text

variable {previous : Option Char}

/-- A word may follow: the text ends with a character that is neither a word character nor a
point. -/
def endsApart (text : String) : Bool :=
  text.toList.getLast?.any fun c => !isWordChar c && c != '.'

/-- A word may stand before: the text starts with a character of no word. -/
def beginsApart (text : String) : Bool :=
  text.toList.head?.any fun c => !isWordChar c

inductive Exchanged (old new : String) : String → String → Prop
  | copy (text : String) : Exchanged old new text text
  | name : Exchanged old new old new
  | append {s s' t t' : String} (first : Exchanged old new s s') (second : Exchanged old new t t')
      (before : endsApart s = true ∨ beginsApart t = true)
      (after : endsApart s' = true ∨ beginsApart t' = true) :
      Exchanged old new (s ++ t) (s' ++ t')

section Seams

variable {s t : String}

theorem endsApart_iff :
    endsApart s = true ↔ ∃ c ∈ s.toList.getLast?, isWordChar c = false ∧ c ≠ '.' := by
  rw [endsApart, Option.any_eq_true]
  simp [Option.mem_def]

theorem endsApart_append (s : String) (h : endsApart t = true) : endsApart (s ++ t) = true := by
  obtain ⟨c, hc, hcut⟩ := endsApart_iff.mp h
  refine endsApart_iff.mpr ⟨c, ?_, hcut⟩
  rw [String.toList_append, List.getLast?_append, Option.mem_def.mp hc]
  rfl

theorem beginsApart_append (h : beginsApart s = true) (t : String) :
    beginsApart (s ++ t) = true := by
  obtain ⟨c, hc, hcut⟩ := (Option.any_eq_true ..).mp h
  rw [beginsApart, String.toList_append, List.head?_append, hc]
  exact hcut

theorem startsApart_of_beginsApart (h : beginsApart s = true) : StartsApart s.toList := by
  intro c hc
  rw [beginsApart, Option.mem_def.mp hc] at h
  simpa using h

end Seams

section Substitution

theorem substituteFrom_snd (old new fresh : List Char) (skip : Nat) (previous : Option Char)
    (text : List Char) :
    (substituteFrom old new skip previous text).2 =
      (substituteFrom old fresh skip previous text).2 := by
  fun_induction substituteFrom old new skip previous text <;> simp_all +zetaDelta [substituteFrom]

theorem infix_of_substituteFrom {old new text : List Char} {skip : Nat}
    (h : (substituteFrom old new skip previous text).2 = true) : old <:+: text := by
  fun_induction substituteFrom old new skip previous text with
  | case1 => cases h
  | case2 _ _ c _ ih => exact (ih h).trans (List.suffix_cons c _).isInfix
  | case3 _ _ _ hinit => exact (List.isPrefixOf_iff_prefix.mp hinit).isInfix
  | case4 _ _ _ hinit => exact (List.isPrefixOf_iff_prefix.mp hinit).isInfix
  | case5 _ c _ _ _ ih => exact (ih h).trans (List.suffix_cons c _).isInfix

variable {old : List Char} (hold : IsWord old) (new : List Char)

include hold

theorem substituteFrom_previous (h : ∀ p ∈ previous, isWordChar p = false ∧ p ≠ '.')
    (text : List Char) :
    substituteFrom old new 0 previous text = substituteFrom old new 0 none text := by
  cases text using runInduction with
  | nil => simp [substituteFrom]
  | other c rest hc _ => rw [substituteFrom_other hold new hc, substituteFrom_other hold new hc]
  | run run rest hrun hrest _ =>
    have hpoint : previous ≠ some '.' := fun heq => (h '.' heq).2 rfl
    rw [substituteFrom_run hold new hrun hrest fun p hp => (h p hp).1,
      substituteFrom_run hold new hrun hrest (by simp)]
    simp [hpoint]

/-- What stands on the two sides of a seam is substituted apart. -/
theorem substituteFrom_seam {s t : List Char} (hprevious : ∀ p ∈ previous, isWordChar p = false)
    (h : (∀ c ∈ s.getLast?.or previous, isWordChar c = false ∧ c ≠ '.') ∨ StartsApart t) :
    substituteFrom old new 0 previous (s ++ t) =
      ((substituteFrom old new 0 previous s).1 ++ (substituteFrom old new 0 none t).1,
        (substituteFrom old new 0 previous s).2 || (substituteFrom old new 0 none t).2) := by
  induction s using runInduction generalizing previous with
  | nil =>
    rw [List.nil_append, substituteFrom, List.nil_append, Bool.false_or]
    rcases h with h | h
    · exact substituteFrom_previous hold new h t
    · exact substituteFrom_apart hold new h previous
  | other c rest hc ih =>
    have hlast : (c :: rest).getLast?.or previous = rest.getLast?.or (some c) := by
      rw [List.getLast?_cons]
      cases rest.getLast? <;> rfl
    rw [hlast] at h
    rw [List.cons_append, substituteFrom_other hold new hc, substituteFrom_other hold new hc,
      ih (by simpa using hc) h]
    rfl
  | run run rest hrun hrest ih =>
    obtain ⟨d, hd, hword⟩ := hrun.exists_getLast
    have hseam : (∀ c ∈ rest.getLast?.or none, isWordChar c = false ∧ c ≠ '.') ∨ StartsApart t :=
      h.imp_left fun h c hc => h c (by
        rw [Option.or_none] at hc
        rw [List.getLast?_append, Option.mem_def.mp hc]
        rfl)
    have happart : StartsApart (rest ++ t) := by
      cases rest with
      | cons c rest => exact fun c' hc' => hrest c' hc'
      | nil =>
        refine h.resolve_left fun h => ?_
        rw [List.append_nil, hd] at h
        exact absurd hword (Bool.eq_false_iff.mp (h d rfl).1)
    rw [List.append_assoc, substituteFrom_run hold new hrun happart hprevious,
      substituteFrom_run hold new hrun hrest hprevious, ih (by simp) hseam]
    split <;> simp

theorem substituteFrom_unchanged {text : List Char}
    (hprevious : ∀ p ∈ previous, isWordChar p = false)
    (h : (substituteFrom old new 0 previous text).2 = false) :
    (substituteFrom old new 0 previous text).1 = text := by
  induction text using runInduction generalizing previous with
  | nil => simp [substituteFrom]
  | other c rest hc ih =>
    rw [substituteFrom_other hold new hc] at h ⊢
    rw [ih (by simpa using hc) h]
  | run run rest hrun hrest ih =>
    rw [substituteFrom_run hold new hrun hrest hprevious] at h ⊢
    split at h
    · cases h
    · rename_i hother
      rw [if_neg hother, ih (by simp) h]

theorem substituteFrom_self : substituteFrom old new 0 none old = (new, true) := by
  have hapart : StartsApart [] := by simp [StartsApart]
  have hnone : ∀ p ∈ (none : Option Char), isWordChar p = false := by simp
  have hrun := substituteFrom_run hold new hold hapart hnone
  simpa [substituteFrom] using hrun

end Substitution

section Words

variable {word old new s t : String} (hword : IsWord word.toList)

include hword

theorem containsWord_eq (fresh : List Char) :
    containsWord s word = (substituteFrom word.toList fresh 0 none s.toList).2 := by
  have hne : word ≠ "" := fun h => hword.ne_nil (String.toList_eq_nil_iff.mpr h)
  have hother : word ≠ "\x00" := by
    rintro rfl
    exact absurd (hword.word '\x00' (by simp)) (by decide +kernel)
  rw [containsWord, replaceIdentifier?_eq hne hother, substituteFrom_snd _ fresh "\x00".toList]
  split <;> simp_all

theorem substitute_append (fresh : List Char) (h : endsApart s = true ∨ beginsApart t = true) :
    substituteFrom word.toList fresh 0 none (s ++ t).toList =
      ((substituteFrom word.toList fresh 0 none s.toList).1 ++
          (substituteFrom word.toList fresh 0 none t.toList).1,
        containsWord s word || containsWord t word) := by
  rw [containsWord_eq hword fresh, containsWord_eq hword fresh, String.toList_append]
  refine substituteFrom_seam hword fresh (by simp) (h.imp ?_ startsApart_of_beginsApart)
  intro hs c hc
  obtain ⟨d, hd, hcut⟩ := endsApart_iff.mp hs
  rw [Option.or_none, hd] at hc
  exact Option.some.inj hc ▸ hcut

theorem containsWord_append (h : endsApart s = true ∨ beginsApart t = true) :
    containsWord (s ++ t) word = (containsWord s word || containsWord t word) := by
  rw [containsWord_eq hword [], substitute_append hword [] h]

theorem containsWord_self : containsWord word word = true := by
  rw [containsWord_eq hword [], substituteFrom_self hword]

end Words

section Ends

theorem not_isWordChar_of_isBlank {c : Char} (h : isBlank c = true) : isWordChar c = false := by
  have htable : ∀ n ∈ blankPoints, isWordChar (Char.ofNat n) = false := by decide +kernel
  have hc := htable c.toNat (mem_blankPoints h)
  rwa [Char.ofNat_toNat] at hc

theorem trimEnd_of_isWord {word : String} (h : IsWord word.toList) : trimEnd word = word := by
  obtain ⟨c, hc, hword⟩ := h.exists_getLast
  rw [← List.head?_reverse] at hc
  obtain ⟨rest, hrest⟩ := List.head?_eq_some_iff.mp hc
  have hsolid : ¬isBlank c = true := fun hblank =>
    absurd hword (Bool.eq_false_iff.mp (not_isWordChar_of_isBlank hblank))
  rw [trimEnd, trimEndWhile, hrest, List.dropWhile_cons_of_neg hsolid, ← hrest,
    List.reverse_reverse, String.ofList_toList]

theorem trimEnd_append (s t : String) :
    trimEnd (s ++ t) = if trimEnd t = "" then trimEnd s else s ++ trimEnd t := by
  simp only [trimEnd, trimEndWhile, String.toList_append, List.reverse_append,
    List.dropWhile_append, String.ofList_eq_empty_iff, List.reverse_eq_nil_iff,
    List.isEmpty_iff]
  split <;> simp

theorem beginsApart_trimEnd {t : String} (hne : trimEnd t ≠ "") (h : beginsApart t = true) :
    beginsApart (trimEnd t) = true := by
  have hprefix : (trimEnd t).toList <+: t.toList := by
    rw [trimEnd, trimEndWhile, String.toList_ofList, ← List.reverse_suffix, List.reverse_reverse]
    exact List.dropWhile_suffix _
  obtain ⟨behind, hbehind⟩ := hprefix
  obtain ⟨c, rest, hfirst⟩ :=
    List.exists_cons_of_ne_nil fun h => hne (String.toList_eq_nil_iff.mp h)
  rw [beginsApart, ← hbehind, hfirst] at h
  rw [beginsApart, hfirst]
  exact h

/-- A word that the solid text does not hold is none of the text, wherever its tokens have blanks
between them. -/
theorem not_containsWord_of_solid {word s : String} (hword : IsWord word.toList)
    (h : ¬word.toList <:+: solid s.toList) {text : String} (htokens : tokenize text = tokenize s) :
    containsWord text word = false := by
  refine Bool.eq_false_iff.mpr fun hfound => h ?_
  rw [containsWord_eq hword []] at hfound
  have hinfix := (infix_of_substituteFrom hfound).filter fun c => !isBlank c
  have hsolid : word.toList.filter (fun c => !isBlank c) = word.toList :=
    List.filter_eq_self.mpr fun c hc => by
      cases hblank : isBlank c with
      | false => rfl
      | true => simpa [hword.word c hc] using not_isWordChar_of_isBlank hblank
  have hwoven (text : String) : Woven (tokenize text) text.toList := woven_tokensAfter 0 text.toList
  have hsame : solid text.toList = solid s.toList :=
    (htokens ▸ hwoven text).solid_eq.trans (hwoven s).solid_eq.symm
  rw [hsolid] at hinfix
  exact hsame ▸ hinfix

end Ends

namespace Exchanged

variable {old new s s' t t' : String}

theorem behind (piece : String) (h : Exchanged old new t t')
    (hpiece : endsApart piece = true := by decide) :
    Exchanged old new (piece ++ t) (piece ++ t') :=
  .append (.copy piece) h (.inl hpiece) (.inl hpiece)

theorem before (h : Exchanged old new s s') (piece : String)
    (hpiece : beginsApart piece = true := by decide) :
    Exchanged old new (s ++ piece) (s' ++ piece) :=
  .append h (.copy piece) (.inr hpiece) (.inr hpiece)

theorem join (h : Exchanged old new s s') (piece : String) (h' : Exchanged old new t t')
    (hbegins : beginsApart piece = true := by decide)
    (hends : endsApart piece = true := by decide) :
    Exchanged old new (s ++ piece ++ t) (s' ++ piece ++ t') :=
  .append (h.before piece hbegins) h' (.inl (endsApart_append s hends))
    (.inl (endsApart_append s' hends))

theorem intercalate {texts texts' : List String}
    (h : List.Forall₂ (Exchanged old new) texts texts') :
    Exchanged old new (String.intercalate ", " texts) (String.intercalate ", " texts') := by
  induction h with
  | nil => exact .copy _
  | cons hfirst hrest ih =>
    cases hrest with
    | nil => simpa only [String.intercalate_singleton] using hfirst
    | cons _ _ =>
      rw [String.intercalate_cons_cons, String.intercalate_cons_cons]
      exact hfirst.join ", " ih

/-- Where the old name stands free nowhere any more, the second text is the first with the old name
replaced. -/
theorem substitute (hold : IsWord old.toList) (h : Exchanged old new s s')
    (hgone : containsWord s' old = false) :
    (substituteFrom old.toList new.toList 0 none s.toList).1 = s'.toList := by
  induction h with
  | copy text =>
    rw [containsWord_eq hold new.toList] at hgone
    exact substituteFrom_unchanged hold new.toList (by simp) hgone
  | name => rw [substituteFrom_self hold]
  | append _ _ hbefore hafter ih ih' =>
    rw [containsWord_append hold hafter, Bool.or_eq_false_iff] at hgone
    rw [substitute_append hold _ hbefore, ih hgone.1, ih' hgone.2, String.toList_append]

theorem replaceIdentifier?_eq (hold : IsWord old.toList) (hchange : old ≠ new)
    (h : Exchanged old new s s') (hne : s ≠ s') (hgone : containsWord s' old = false) :
    replaceIdentifier? s old new = some s' := by
  have hresult := h.substitute hold hgone
  have hfound : (substituteFrom old.toList new.toList 0 none s.toList).2 = true := by
    by_contra hnot
    have hkept := substituteFrom_unchanged hold new.toList (by simp) (Bool.eq_false_iff.mpr hnot)
    exact hne (String.toList_inj.mp (hkept.symm.trans hresult))
  have hsome : old ≠ "" := fun heq => hold.ne_nil (String.toList_eq_nil_iff.mpr heq)
  rw [Text.replaceIdentifier?_eq hsome hchange, if_pos hfound, hresult, String.ofList_toList]

theorem eq_or_containsWord (hnew : IsWord new.toList) (h : Exchanged old new s s') :
    s = s' ∨ containsWord s' new = true := by
  induction h with
  | copy => exact .inl rfl
  | name => exact .inr (containsWord_self hnew)
  | append _ _ _ hafter ih ih' =>
    rw [containsWord_append hnew hafter, Bool.or_eq_true]
    rcases ih with rfl | ih
    · rcases ih' with rfl | ih'
      · exact .inl rfl
      · exact .inr (.inr ih')
    · exact .inr (.inl ih)

theorem eq_empty_iff (hold : IsWord old.toList) (hnew : IsWord new.toList)
    (h : Exchanged old new s s') : s = "" ↔ s' = "" := by
  induction h with
  | copy => exact Iff.rfl
  | name =>
    rw [← String.toList_eq_nil_iff, ← String.toList_eq_nil_iff]
    exact iff_of_false hold.ne_nil hnew.ne_nil
  | append _ _ _ _ ih ih' => rw [String.append_eq_empty_iff, String.append_eq_empty_iff, ih, ih']

theorem trimEnd (hold : IsWord old.toList) (hnew : IsWord new.toList)
    (h : Exchanged old new s s') : Exchanged old new (Text.trimEnd s) (Text.trimEnd s') := by
  induction h with
  | copy text => exact .copy _
  | name =>
    rw [trimEnd_of_isWord hold, trimEnd_of_isWord hnew]
    exact .name
  | @append _ _ t _ first _ hbefore hafter ih ih' =>
    rw [trimEnd_append, trimEnd_append]
    by_cases hblank : Text.trimEnd t = ""
    · rw [if_pos hblank, if_pos ((ih'.eq_empty_iff hold hnew).mp hblank)]
      exact ih
    · have hblank' := mt (ih'.eq_empty_iff hold hnew).mpr hblank
      rw [if_neg hblank, if_neg hblank']
      exact .append first ih' (hbefore.imp_right (beginsApart_trimEnd hblank))
        (hafter.imp_right (beginsApart_trimEnd hblank'))

end Exchanged

end CodeEvolution.Text
