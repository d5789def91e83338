import CodeEvolution.Number.Binary64
import Mathlib.Algebra.Ring.Nat
/-!
# Quotients that are shares

The quotient of two naturals of which the first is not the greater rounds to a number between
zero and one. Its exponent is at most that of one, so the quotient is compared with one over its
own exponent, where rounding keeps an integral bound. The quotient of a number and itself is one.
-/
namespace CodeEvolution.Binary64

variable {num den : Nat} {exponent : Int}

theorem roundDiv_le {bound : Nat} (hden : 0 < den) (h : num ≤ bound * den) :
    roundDiv num den ≤ bound := by
  have hquotient : num / den ≤ bound := Nat.div_le_of_le_mul (by rwa [Nat.mul_comm] at h)
  unfold roundDiv
  dsimp only
  rcases Nat.lt_or_ge (num / den) bound with hlt | hge
  · split
    · omega
    · split <;> omega
  · have heq : num / den = bound := by omega
    have hmod := Nat.div_add_mod num den
    have hzero : num % den = 0 := by
      rw [heq, Nat.mul_comm] at hmod
      omega
    simp [heq, hzero, hden]

theorem chooseExponent_le (hnum : 0 < num) (h : num ≤ den) : chooseExponent num den ≤ -52 := by
  have hlog : num.log2 ≤ den.log2 :=
    (Nat.le_log2 (by omega)).mpr (Nat.le_trans (Nat.log2_self_le (by omega)) h)
  unfold chooseExponent
  dsimp only
  split <;> omega

theorem scale_of_neg (h : exponent < 0) :
    scale num den exponent = (num * 2 ^ (-exponent).toNat, den) := by
  rw [scale, if_neg (by omega)]
  rfl

/-- A mantissa and an exponent that stand for at most one. -/
def AtMostOne (mantissa : Nat) (exponent : Int) : Prop :=
  exponent ≤ -52 ∧ mantissa ≤ 2 ^ (-exponent).toNat

theorem carry_atMostOne {mantissa : Nat} (h : AtMostOne mantissa exponent) :
    AtMostOne (carry mantissa exponent).1 (carry mantissa exponent).2 := by
  obtain ⟨hexponent, hmantissa⟩ := h
  unfold carry
  split
  · rename_i hfull
    have hfull' : mantissa = 2 ^ 53 := hfull
    have hbits : 53 ≤ (-exponent).toNat :=
      (Nat.pow_le_pow_iff_right (by decide)).mp (hfull' ▸ hmantissa)
    exact ⟨by dsimp only; omega, Nat.pow_le_pow_right (by decide) (by dsimp only; omega)⟩
  · exact ⟨hexponent, hmantissa⟩

theorem AtMostOne.le_one {mantissa : Nat} (h : AtMostOne mantissa exponent) :
    (finite false mantissa exponent).le one = true := by
  obtain ⟨hexponent, hmantissa⟩ := h
  have hleast : min exponent (-52) = exponent := by omega
  have hshift : (-exponent).toNat = 52 + (-52 - exponent).toNat := by omega
  have hbound : mantissa ≤ 2 ^ 52 * 2 ^ (-52 - exponent).toNat := by
    rwa [hshift, Nat.pow_add] at hmantissa
  simp only [le, one, hleast, signedAt, Nat.pow_eq, Int.sub_self, Int.toNat_zero, Nat.pow_zero,
    Nat.mul_one, Bool.false_eq_true, ↓reduceIte, decide_eq_true_eq]
  exact_mod_cast hbound

theorem quotient_le_one (hden : 0 < den) (h : num ≤ den) : (quotient num den).le one = true := by
  unfold quotient ofRatio
  dsimp only
  split
  · decide
  · rename_i hnum
    have hexponent := chooseExponent_le (by omega) h
    rw [scale_of_neg (by omega)]
    dsimp only
    have hmantissa : roundDiv (num * 2 ^ (-chooseExponent num den).toNat) den ≤
        2 ^ (-chooseExponent num den).toNat := by
      apply roundDiv_le hden
      rw [Nat.mul_comm]
      exact Nat.mul_le_mul_left _ h
    have hcarry := carry_atMostOne ⟨hexponent, hmantissa⟩
    rw [if_neg (by have := hcarry.1; omega)]
    exact hcarry.le_one

theorem quotient_self {n : Nat} (h : 0 < n) : quotient n n = one := by
  have hexponent : chooseExponent n n = -52 := by
    unfold chooseExponent
    dsimp only
    rw [scale_of_neg (by omega), Int.sub_self, if_neg]
    · rfl
    · simp
  have hrounded : roundDiv (n * 2 ^ 52) n = 2 ^ 52 := by
    simp [roundDiv, h]
  unfold quotient ofRatio
  rw [if_neg (by omega), hexponent]
  dsimp only
  rw [scale_of_neg (by decide)]
  simp only [Int.neg_neg, Int.reduceToNat, hrounded]
  rfl

theorem zero_le_finite (mantissa : Nat) (exponent : Int) :
    zero.le (finite false mantissa exponent) = true := by
  simp only [le, zero, signedAt, Nat.zero_mul, Bool.false_eq_true, ↓reduceIte, decide_eq_true_eq]
  exact Int.natCast_nonneg _

theorem zero_le_quotient (num den : Nat) : zero.le (quotient num den) = true := by
  unfold quotient ofRatio
  dsimp only
  split
  · decide
  · split
    · rfl
    · exact zero_le_finite _ _

end CodeEvolution.Binary64
