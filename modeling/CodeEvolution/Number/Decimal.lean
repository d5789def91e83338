import CodeEvolution.Number.Binary64
/-!
# Decimal texts of numbers

Two forms are written. The fixed form has six places after the point, the last one rounded to
nearest with ties to even. The shortest form has the fewest digits that read back as the same
number, the nearest of those, and no exponent. Both have a reader's view: plain decimal numbers
with an optional exponent.
-/
namespace CodeEvolution.Decimal

def ofNat (n : Nat) : String :=
  String.ofList (Nat.toDigits 10 n)

def padded (width n : Nat) : String :=
  let digits := Nat.toDigits 10 n
  String.ofList (List.replicate (width - digits.length) '0' ++ digits)

def sign (negative : Bool) : String :=
  if negative then "-" else ""

def fractionOf (mantissa : Nat) (exponent : Int) : Nat × Nat :=
  if 0 ≤ exponent then (mantissa * Nat.pow 2 exponent.toNat, 1)
  else (mantissa, Nat.pow 2 (-exponent).toNat)

def fixed : Binary64 → String
  | .notANumber => "NaN"
  | .infinite negative => sign negative ++ "inf"
  | .finite negative mantissa exponent =>
    let value := fractionOf mantissa exponent
    let millionths := Binary64.roundDiv (value.1 * 1000000) value.2
    sign negative ++ ofNat (millionths / 1000000) ++ "." ++ padded 6 (millionths % 1000000)

def leadingZeros (num den : Nat) : Nat → Nat
  | 0 => 0
  | fuel + 1 => if num * 10 < den then leadingZeros (num * 10) den fuel + 1 else 0

def topExponent (num den : Nat) : Int :=
  if den ≤ num then ((Nat.toDigits 10 (num / den)).length : Int) - 1
  else -((leadingZeros num den 400 : Nat) : Int) - 1

def overPower (num den : Nat) (exponent : Int) : Nat × Nat :=
  if 0 ≤ exponent then (num, den * Nat.pow 10 exponent.toNat)
  else (num * Nat.pow 10 (-exponent).toNat, den)

/-- Of the two neighbours of a positive number on the grid of multiples of `10 ^ exponent`, the
nearer one that reads back as `number`. -/
def readsBack? (number : Binary64) (num den : Nat) (exponent : Int) : Option Nat :=
  let scaled := overPower num den exponent
  let below := scaled.1 / scaled.2
  let nearFirst :=
    if 2 * (scaled.1 % scaled.2) ≤ scaled.2 then [below, below + 1] else [below + 1, below]
  nearFirst.find? fun digits => Binary64.ofDecimal false digits exponent == number

/-- The digits and the exponent of the shortest decimal of a positive number, trying grids of
`count`, `count + 1`, … digits. -/
def shortestFrom (number : Binary64) (num den : Nat) (top : Int) : Nat → Nat → Nat × Int
  | _, 0 => (0, 0)
  | count, fuel + 1 =>
    let exponent := top - (count : Int) + 1
    match readsBack? number num den exponent with
    | some digits => (digits, exponent)
    | none => shortestFrom number num den top (count + 1) fuel

def positional (digits : Nat) (exponent : Int) : String :=
  if 0 ≤ exponent then ofNat (digits * Nat.pow 10 exponent.toNat)
  else
    let places := (-exponent).toNat
    let whole := digits / Nat.pow 10 places
    let part := (padded places (digits % Nat.pow 10 places)).toList
    let kept := (part.reverse.dropWhile (· == '0')).reverse
    if kept.isEmpty then ofNat whole else ofNat whole ++ "." ++ String.ofList kept

def shortest : Binary64 → String
  | .notANumber => "NaN"
  | .infinite negative => sign negative ++ "inf"
  | .finite negative mantissa exponent =>
    if mantissa = 0 then sign negative ++ "0"
    else
      let value := fractionOf mantissa exponent
      let number := Binary64.finite false mantissa exponent
      let best := shortestFrom number value.1 value.2 (topExponent value.1 value.2) 1 18
      sign negative ++ positional best.1 best.2

def digitsValue (digits : List Char) : Nat :=
  digits.foldl (fun n c => n * 10 + (c.toNat - 48)) 0

def isDigit (c : Char) : Bool :=
  decide (48 ≤ c.toNat) && decide (c.toNat ≤ 57)

def natural? (text : List Char) : Option Nat :=
  let digits := match text with
    | '+' :: rest => rest
    | _ => text
  if digits.isEmpty || !digits.all isDigit then none else some (digitsValue digits)

def exponent? : List Char → Option Int
  | [] => some 0
  | mark :: rest =>
    if mark != 'e' && mark != 'E' then none
    else
      let negative := rest.head? == some '-'
      let digits := match rest with
        | '-' :: r => r
        | '+' :: r => r
        | _ => rest
      if digits.isEmpty || !digits.all isDigit then none
      else
        let size : Int := ((digitsValue digits : Nat) : Int)
        some (if negative then -size else size)

/-- A decimal number: a sign, digits with an optional point (at least one digit in all), an
optional exponent. -/
def number? (text : List Char) : Option Binary64 :=
  let negative := text.head? == some '-'
  let body := match text with
    | '-' :: r => r
    | '+' :: r => r
    | _ => text
  let whole := body.takeWhile isDigit
  let afterWhole := body.dropWhile isDigit
  let places := match afterWhole with
    | '.' :: r => r.takeWhile isDigit
    | _ => []
  let rest := match afterWhole with
    | '.' :: r => r.dropWhile isDigit
    | _ => afterWhole
  if whole.isEmpty && places.isEmpty then none
  else
    (exponent? rest).map fun exponent =>
      Binary64.ofDecimal negative (digitsValue (whole ++ places))
        (exponent - (places.length : Int))

end CodeEvolution.Decimal
