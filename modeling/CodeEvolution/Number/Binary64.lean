/-!
# Double precision numbers

A number is a sign, a natural mantissa and a power of two, an infinity, or not a number.
Quotients and decimals are rounded to the nearest value with at most 53 significant bits, ties
to the even mantissa, by exact arithmetic on naturals. Comparison is by value.
-/
namespace CodeEvolution

variable (negative : Bool) (num mantissa den : Nat) (exponent : Int)

inductive Binary64 where
  | notANumber
  | infinite (negative : Bool)
  /-- Plus or minus `mantissa * 2 ^ exponent`. -/
  | finite (negative : Bool) (mantissa : Nat) (exponent : Int)
deriving DecidableEq, Repr

namespace Binary64

def roundDiv : Nat :=
  let quotient := num / den
  let twice := 2 * (num % den)
  if twice < den then quotient
  else if den < twice then quotient + 1
  else quotient + quotient % 2

def scale : Nat × Nat :=
  if 0 ≤ exponent then (num, den * Nat.pow 2 exponent.toNat)
  else (num * Nat.pow 2 (-exponent).toNat, den)

/-- The exponent with which `num / den` has a mantissa of 53 bits, or the least exponent. -/
def chooseExponent : Int :=
  let guess : Int := (num.log2 : Int) - (den.log2 : Int) - 52
  let scaled := scale num den guess
  let exponent := if scaled.1 < scaled.2 * Nat.pow 2 52 then guess - 1 else guess
  max exponent (-1074)

def carry : Nat × Int :=
  if mantissa = Nat.pow 2 53 then (Nat.pow 2 52, exponent + 1) else (mantissa, exponent)

def ofRatio : Binary64 :=
  if num = 0 then .finite negative 0 0
  else
    let exponent := chooseExponent num den
    let scaled := scale num den exponent
    let rounded := carry (roundDiv scaled.1 scaled.2) exponent
    if 971 < rounded.2 then .infinite negative else .finite negative rounded.1 rounded.2

def ofDecimal (digits : Nat) (exponent : Int) : Binary64 :=
  if digits = 0 then .finite negative 0 0
  else if 400 < exponent then .infinite negative
  else if exponent + ((digits.log2 + 1 : Nat) : Int) < -1200 then .finite negative 0 0
  else if 0 ≤ exponent then ofRatio negative (digits * Nat.pow 10 exponent.toNat) 1
  else ofRatio negative digits (Nat.pow 10 (-exponent).toNat)

def quotient : Binary64 :=
  ofRatio false num den

def zero : Binary64 := .finite false 0 0

def one : Binary64 := .finite false (Nat.pow 2 52) (-52)

def half : Binary64 := .finite false (Nat.pow 2 52) (-53)

def signedAt (least : Int) : Int :=
  let magnitude : Int := ((mantissa * Nat.pow 2 (exponent - least).toNat : Nat) : Int)
  if negative then -magnitude else magnitude

/-- `x ≤ y` by value; false when either is not a number. -/
def le : Binary64 → Binary64 → Bool
  | .notANumber, _ => false
  | _, .notANumber => false
  | .infinite true, _ => true
  | _, .infinite false => true
  | .infinite false, _ => false
  | _, .infinite true => false
  | .finite n m e, .finite n' m' e' =>
    decide (signedAt n m e (min e e') ≤ signedAt n' m' e' (min e e'))

def lt : Binary64 → Binary64 → Bool
  | .notANumber, _ => false
  | _, .notANumber => false
  | x, y => !le y x

def isFinite : Binary64 → Bool
  | .finite _ _ _ => true
  | _ => false

end Binary64

end CodeEvolution
