import CodeEvolution.Text.Token
import Mathlib.Data.List.TakeWhile
/-!
# Tokens leave out nothing but blanks

A text is its tokens in order with blanks between them. A token is not empty; a blank inside a
token stands in a string literal, from a quote to the next quote of its kind that is not escaped.
Texts with the same tokens therefore differ in the blanks between tokens and nowhere else.
-/
namespace CodeEvolution.Text

variable {c : Char} {text : List Char} {others : List String} (rest : List Char)

/-- What may stand between the quotes of a string literal: neither the quote nor a backslash,
unless behind a backslash, which takes any character along but a line feed. -/
inductive QuotedBody (quote : Char) : List Char → Prop
  | nil : QuotedBody quote []
  | plain {c : Char} {rest : List Char} (hquote : c ≠ quote) (hescape : c ≠ '\\')
      (tail : QuotedBody quote rest) : QuotedBody quote (c :: rest)
  | escaped {c : Char} {rest : List Char} (hline : c ≠ '\n') (tail : QuotedBody quote rest) :
      QuotedBody quote ('\\' :: c :: rest)

/-- A complete string literal. -/
def IsQuoted (token : List Char) : Prop :=
  ∃ quote body, (quote = doubleQuote ∨ quote = singleQuote) ∧ QuotedBody quote body ∧
    token = quote :: (body ++ [quote])

def HasBlank (text : List Char) : Prop :=
  ∃ c ∈ text, isBlank c = true

/-- A text made of the tokens in order, with gaps of blanks before, between and behind them. -/
inductive Woven : List String → List Char → Prop
  | last {gap : List Char} (hgap : ∀ c ∈ gap, isBlank c = true) : Woven [] gap
  | token (gap : List Char) {rest : List Char} {token : String} {others : List String}
      (hgap : ∀ c ∈ gap, isBlank c = true) (tail : Woven others rest) :
      Woven (token :: others) (gap ++ token.toList ++ rest)

/-- What of a text is not blank. -/
def solid (text : List Char) : List Char :=
  text.filter fun c => !isBlank c

def blankPoints : List Nat :=
  [0x9, 0xA, 0xB, 0xC, 0xD, 0x20, 0x85, 0xA0, 0x1680, 0x2000, 0x2001, 0x2002, 0x2003, 0x2004,
    0x2005, 0x2006, 0x2007, 0x2008, 0x2009, 0x200A, 0x2028, 0x2029, 0x202F, 0x205F, 0x3000]

theorem mem_blankPoints (h : isBlank c = true) : c.toNat ∈ blankPoints := by
  simp only [isBlank, Bool.or_eq_true, Bool.and_eq_true, decide_eq_true_eq, beq_iff_eq] at h
  simp only [blankPoints, List.mem_cons, List.not_mem_nil, or_false]
  omega

theorem not_isBlank_of_isNameChar (h : isNameChar c = true) : isBlank c = false := by
  refine Bool.eq_false_iff.mpr fun hblank => ?_
  have hpoint := mem_blankPoints hblank
  simp only [blankPoints, List.mem_cons, List.not_mem_nil, or_false] at hpoint
  simp only [isNameChar, isAsciiLetter, isAsciiDigit, Bool.or_eq_true, Bool.and_eq_true,
    decide_eq_true_eq, beq_iff_eq] at h
  rcases h with (hletter | hdigit) | rfl
  · omega
  · omega
  · exact absurd hpoint (by decide)

theorem not_isBlank_of_isDigit (h : isDigit c = true) : isBlank c = false := by
  -- no table of digits has a blank in it, which is checked point by point
  have htable : ∀ n ∈ blankPoints,
      (if n < 128 then decide (48 ≤ n) && decide (n ≤ 57) else inRuns digitRuns n) = false := by
    decide
  refine Bool.eq_false_iff.mpr fun hblank => ?_
  have hpoint := htable c.toNat (mem_blankPoints hblank)
  simp only [isDigit, isAsciiDigit] at h
  simp [h] at hpoint

/-! ### String literals -/

theorem quotedTail_cases {quote : Char} {tail : List Char} (h : quotedTail quote text = some tail) :
    tail <+: text ∧ ∃ body, QuotedBody quote body ∧ tail = body ++ [quote] := by
  fun_induction quotedTail quote text generalizing tail with
  | case1 => simp at h
  | case2 rest =>
    cases h
    exact ⟨List.prefix_append [quote] rest, [], .nil, rfl⟩
  | case3 => simp at h
  | case4 => simp at h
  | case5 d rest hline hquote ih =>
    obtain ⟨tail, htail, rfl⟩ := Option.map_eq_some_iff.mp h
    obtain ⟨hinit, body, hbody, rfl⟩ := ih htail
    exact ⟨List.prefix_cons_inj _ |>.mpr (List.prefix_cons_inj _ |>.mpr hinit),
      '\\' :: d :: body, .escaped hline hbody, rfl⟩
  | case6 c rest hquote hescape ih =>
    obtain ⟨tail, htail, rfl⟩ := Option.map_eq_some_iff.mp h
    obtain ⟨hinit, body, hbody, rfl⟩ := ih htail
    exact ⟨List.prefix_cons_inj _ |>.mpr hinit, c :: body, .plain hquote hescape hbody, rfl⟩

/-! ### One token -/

theorem fraction_cases (text : List Char) :
    fraction text = [] ∨
      ∃ rest, text = '.' :: rest ∧ fraction text = '.' :: rest.takeWhile isDigit := by
  fun_cases fraction text with
  | case1 rest digits hempty => exact .inl rfl
  | case2 rest digits hdigits => exact .inr ⟨rest, rfl, rfl⟩
  | case3 => exact .inl rfl

theorem fraction_prefix (text : List Char) : fraction text <+: text := by
  rcases fraction_cases text with hnone | ⟨rest, rfl, hsome⟩
  · exact hnone.symm ▸ List.nil_prefix
  · exact hsome.symm ▸ (List.prefix_cons_inj _ |>.mpr (List.takeWhile_prefix isDigit))

theorem lexeme_prefix (c : Char) (rest : List Char) : lexeme c rest <+: c :: rest := by
  fun_cases lexeme c rest with
  | case1 hname => exact List.prefix_cons_inj _ |>.mpr (List.takeWhile_prefix isNameChar)
  | case2 hname hdigit =>
    have hfraction := fraction_prefix (rest.dropWhile isDigit)
    have hnumber := List.prefix_append_right_inj (rest.takeWhile isDigit) |>.mpr hfraction
    rw [List.takeWhile_append_dropWhile] at hnumber
    exact List.prefix_cons_inj _ |>.mpr hnumber
  | case3 hname hdigit hquote tail htail =>
    exact List.prefix_cons_inj _ |>.mpr (quotedTail_cases htail).1
  | case4 => exact List.prefix_append [c] rest
  | case5 => exact List.prefix_append [c] rest

theorem lexeme_ne_nil (c : Char) (rest : List Char) : lexeme c rest ≠ [] := by
  fun_cases lexeme c rest <;> simp

theorem not_isBlank_of_mem_fraction {d : Char} (h : d ∈ fraction text) : isBlank d = false := by
  rcases fraction_cases text with hnone | ⟨rest, rfl, hsome⟩
  · exact absurd h (hnone.symm ▸ List.not_mem_nil)
  · rw [hsome] at h
    rcases List.mem_cons.mp h with rfl | h
    · decide
    · exact not_isBlank_of_isDigit (List.mem_takeWhile_imp h)

theorem lexeme_cases (hc : isBlank c = false) :
    (∀ d ∈ lexeme c rest, isBlank d = false) ∨ IsQuoted (lexeme c rest) := by
  fun_cases lexeme c rest with
  | case1 hname =>
    refine .inl (List.forall_mem_cons.mpr ⟨hc, fun d hd => ?_⟩)
    exact not_isBlank_of_isNameChar (List.mem_takeWhile_imp hd)
  | case2 hname hdigit =>
    refine .inl (List.forall_mem_cons.mpr ⟨hc, fun d hd => ?_⟩)
    rcases List.mem_append.mp hd with hd | hd
    · exact not_isBlank_of_isDigit (List.mem_takeWhile_imp hd)
    · exact not_isBlank_of_mem_fraction hd
  | case3 hname hdigit hquote tail htail =>
    obtain ⟨-, body, hbody, rfl⟩ := quotedTail_cases htail
    exact .inr ⟨c, body, hquote, hbody, rfl⟩
  | case4 => exact .inl (List.forall_mem_singleton.mpr hc)
  | case5 => exact .inl (List.forall_mem_singleton.mpr hc)

/-! ### All tokens -/

theorem Woven.cons_blank (hc : isBlank c = true) (h : Woven others text) :
    Woven others (c :: text) := by
  cases h with
  | last hgap => exact .last (List.forall_mem_cons.mpr ⟨hc, hgap⟩)
  | token gap hgap tail => exact .token (c :: gap) (List.forall_mem_cons.mpr ⟨hc, hgap⟩) tail

/-- A token takes its first characters off the text and the scan goes on behind it. -/
theorem cons_eq_lexeme_append (c : Char) (rest : List Char) :
    c :: rest = lexeme c rest ++ rest.drop ((lexeme c rest).length - 1) := by
  obtain ⟨behind, hbehind⟩ := lexeme_prefix c rest
  have hdrop := congrArg (List.drop (lexeme c rest).length) hbehind
  obtain ⟨n, hn⟩ := Nat.exists_eq_succ_of_ne_zero
    (fun h0 => lexeme_ne_nil c rest (List.eq_nil_of_length_eq_zero h0))
  rw [List.drop_left, hn, List.drop_succ_cons] at hdrop
  rw [hn, Nat.succ_sub_one, ← hdrop, hbehind]

theorem woven_tokensAfter (skip : Nat) (text : List Char) :
    Woven ((tokensAfter skip text).map String.ofList) (text.drop skip) := by
  fun_induction tokensAfter skip text with
  | case1 =>
    rw [List.drop_nil]
    exact .last (List.forall_mem_nil _)
  | case2 skip c rest ih => exact ih
  | case3 c rest hblank ih => exact ih.cons_blank hblank
  | case4 c rest hblank token ih =>
    have hwoven : Woven (String.ofList token :: _) ([] ++ (String.ofList token).toList ++ _) :=
      .token [] (List.forall_mem_nil _) ih
    rwa [List.nil_append, String.toList_ofList, ← cons_eq_lexeme_append] at hwoven

theorem mem_tokensAfter {skip : Nat} {token : List Char} (h : token ∈ tokensAfter skip text) :
    token ≠ [] ∧ (HasBlank token → IsQuoted token) := by
  fun_induction tokensAfter skip text with
  | case1 => simp at h
  | case2 skip c rest ih => exact ih h
  | case3 c rest hblank ih => exact ih h
  | case4 c rest hblank first ih =>
    rcases List.mem_cons.mp h with rfl | h
    · refine ⟨lexeme_ne_nil c rest, fun ⟨d, hd, hdblank⟩ => ?_⟩
      rcases lexeme_cases rest (Bool.eq_false_iff.mpr hblank) with hsolid | hquoted
      · exact absurd hdblank (Bool.eq_false_iff.mp (hsolid d hd))
      · exact hquoted
    · exact ih h

theorem Woven.solid_eq (h : Woven others text) :
    solid text = solid (others.map String.toList).flatten := by
  have hnone {gap : List Char} (hgap : ∀ c ∈ gap, isBlank c = true) : solid gap = [] :=
    List.filter_eq_nil_iff.mpr fun c hc => by simp [hgap c hc]
  induction h with
  | last hgap => exact hnone hgap
  | token gap hgap tail ih =>
    simp only [solid, List.filter_append, List.map_cons, List.flatten_cons] at hnone ih ⊢
    rw [hnone hgap, ih, List.nil_append]

/-- Every text is its tokens in order with blanks between them; no token is empty, and a token with
a blank in it is a complete string literal. Texts with the same tokens differ in blanks outside
the tokens only. -/
theorem tokenize_leavesOutBlanks (text : String) :
    Woven (tokenize text) text.toList ∧
      (∀ token ∈ tokenize text, token ≠ "" ∧ (HasBlank token.toList → IsQuoted token.toList)) ∧
      ∀ other, tokenize other = tokenize text →
        Woven (tokenize text) other.toList ∧ solid other.toList = solid text.toList := by
  have hwoven (text : String) : Woven (tokenize text) text.toList := woven_tokensAfter 0 text.toList
  refine ⟨hwoven text, fun token htoken => ?_, fun other hother => ?_⟩
  · obtain ⟨chars, hchars, rfl⟩ := List.mem_map.mp htoken
    obtain ⟨hne, hquoted⟩ := mem_tokensAfter hchars
    rw [String.toList_ofList]
    exact ⟨fun heq => hne (String.ofList_eq_empty_iff.mp heq), hquoted⟩
  · have hsame := hother ▸ hwoven other
    exact ⟨hsame, hsame.solid_eq.trans (hwoven text).solid_eq.symm⟩

theorem tokenize_leavesOutBlanks_call :
    tokenize " print ( 'a b',x1+2.5 )" = tokenize "print('a b', x1 + 2.5)" ∧
      Woven (tokenize "print('a b', x1 + 2.5)") " print ( 'a b',x1+2.5 )".toList ∧
      "'a b'" ∈ tokenize "print('a b', x1 + 2.5)" ∧ IsQuoted "'a b'".toList := by
  have hsame : tokenize " print ( 'a b',x1+2.5 )" = tokenize "print('a b', x1 + 2.5)" := by
    decide +kernel
  have hmem : "'a b'" ∈ tokenize "print('a b', x1 + 2.5)" := by decide +kernel
  obtain ⟨-, htokens, hothers⟩ := tokenize_leavesOutBlanks "print('a b', x1 + 2.5)"
  exact ⟨hsame, (hothers _ hsame).1, hmem, (htokens _ hmem).2 ⟨' ', by decide, by decide⟩⟩

end CodeEvolution.Text
