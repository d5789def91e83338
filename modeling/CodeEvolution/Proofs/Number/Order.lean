import CodeEvolution.Number.Binary64
import Mathlib.Tactic.Ring
/-!
# Comparison of double precision numbers

Two finite numbers are compared over the lesser of their exponents. Over any exponent that is not
greater the comparison comes out the same, so three numbers can be compared over one exponent, and
the comparison is transitive. It is total but for what is not a number; a quotient always is one.
-/
namespace CodeEvolution.Binary64

theorem signedAt_shift (negative : Bool) (mantissa : Nat) {exponent high low : Int}
    (hlow : low ≤ high) (hhigh : high ≤ exponent) :
    signedAt negative mantissa exponent low =
      signedAt negative mantissa exponent high * 2 ^ (high - low).toNat := by
  have hsplit : (exponent - low).toNat = (exponent - high).toNat + (high - low).toNat := by
    omega
  simp only [signedAt, Nat.pow_eq, hsplit, Nat.pow_add]
  split
  · push_cast
    ring
  · push_cast
    ring

theorem finite_le_iff {n n' : Bool} {m m' : Nat} {e e' least : Int} (h : least ≤ e)
    (h' : least ≤ e') :
    (finite n m e).le (finite n' m' e') = true ↔
      signedAt n m e least ≤ signedAt n' m' e' least := by
  have hleast : least ≤ min e e' := by omega
  have hpow : (0 : Int) < 2 ^ (min e e' - least).toNat := Int.pow_pos (by decide)
  rw [le, decide_eq_true_eq, signedAt_shift n m hleast (by omega),
    signedAt_shift n' m' hleast (by omega)]
  exact (Int.mul_le_mul_iff_of_pos_right hpow).symm

theorem le_notANumber (x : Binary64) : x.le notANumber = false := by
  cases x <;> rfl

theorem le_trans {x y z : Binary64} (hxy : x.le y = true) (hyz : y.le z = true) :
    x.le z = true := by
  match x, y, z with
  | .finite n m e, .finite n' m' e', .finite n'' m'' e'' =>
    have he : min (min e e') e'' ≤ e := by omega
    have he' : min (min e e') e'' ≤ e' := by omega
    have he'' : min (min e e') e'' ≤ e'' := by omega
    rw [finite_le_iff he he'] at hxy
    rw [finite_le_iff he' he''] at hyz
    rw [finite_le_iff he he'']
    exact Int.le_trans hxy hyz
  | .notANumber, _, _ => simp [le] at hxy
  | x, .notANumber, _ => simp [le_notANumber] at hxy
  | _, y, .notANumber => simp [le_notANumber] at hyz
  | .infinite true, _, .infinite _ => rfl
  | .infinite true, _, .finite _ _ _ => rfl
  | .infinite false, .infinite false, z => exact hyz
  | .infinite false, .infinite true, _ => simp [le] at hxy
  | .infinite false, .finite _ _ _, _ => simp [le] at hxy
  | .finite _ _ _, _, .infinite false => rfl
  | .finite _ _ _, .infinite true, _ => simp [le] at hxy
  | .finite _ _ _, .infinite false, .infinite true => simp [le] at hyz
  | .finite _ _ _, .infinite false, .finite _ _ _ => simp [le] at hyz
  | .finite _ _ _, .finite _ _ _, .infinite true => simp [le] at hyz

theorem le_total {x y : Binary64} (hx : x ≠ notANumber) (hy : y ≠ notANumber) :
    (x.le y || y.le x) = true := by
  match x, y with
  | .notANumber, _ => exact absurd rfl hx
  | _, .notANumber => exact absurd rfl hy
  | .infinite true, .infinite _ => rfl
  | .infinite false, .infinite true => rfl
  | .infinite false, .infinite false => rfl
  | .infinite true, .finite _ _ _ => rfl
  | .infinite false, .finite _ _ _ => rfl
  | .finite _ _ _, .infinite true => rfl
  | .finite _ _ _, .infinite false => rfl
  | .finite n m e, .finite n' m' e' =>
    have he : min e e' ≤ e := by omega
    have he' : min e e' ≤ e' := by omega
    rw [Bool.or_eq_true, finite_le_iff he he', finite_le_iff he' he]
    exact Int.le_total _ _

theorem quotient_ne_notANumber (num den : Nat) : quotient num den ≠ notANumber := by
  unfold quotient ofRatio
  dsimp only
  split
  · simp
  · split <;> simp

end CodeEvolution.Binary64
