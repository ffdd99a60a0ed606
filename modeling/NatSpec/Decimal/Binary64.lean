import NatSpec.Text.Digits

/-!
Numbers of the binary format with 53 significant bits. A finite number is `m · 2^q` with
`m < 2^53` and `q ≥ -1074`, and `m ≥ 2^52` unless `q = -1074`, so that each number has one
writing. `round` gives the nearest such number to a quotient; a tie goes to the even `m`.
-/

namespace NatSpec

/-- A binary number with 53 significant bits, an infinity, or no number. -/
inductive Binary64
  | nan
  | infinity (negative : Bool)
  | finite (negative : Bool) (mantissa : Nat) (exponent : Int)
  deriving DecidableEq, Repr, Inhabited

namespace Binary64

/-- The least exponent. -/
def minExponent : Int := -1074

/-- The greatest exponent. -/
def maxExponent : Int := 971

def twoTo (n : Nat) : Nat := Nat.pow 2 n

def tenTo (n : Nat) : Nat := Nat.pow 10 n

/-- `num / den` rounded to a whole number, a tie going to the even neighbour. -/
def roundQuotient (num den : Nat) : Nat :=
  let q := num / den
  let r := num % den
  if 2 * r < den then q
  else if den < 2 * r then q + 1
  else if q % 2 = 0 then q else q + 1

/-- The numerator and denominator of `num / den / 2^q`. -/
def scaled (num den : Nat) (q : Int) : Nat × Nat :=
  if 0 ≤ q then (num, den * twoTo q.toNat) else (num * twoTo (-q).toNat, den)

/-- The exponent `q` for which `num / den` has 53 bits before the point of `num / den / 2^q`,
or the least exponent if that is greater. -/
def exponentFor (num den : Nat) : Int :=
  let guess : Int := (Nat.log2 num : Int) - Nat.log2 den - 52
  let (n, d) := scaled num den guess
  let q := if n / d < twoTo 52 then guess - 1 else guess
  max q minExponent

/-- The nearest number to `num / den`, with the given sign. -/
def round (negative : Bool) (num den : Nat) : Binary64 :=
  if num = 0 then finite negative 0 minExponent
  else
    let q := exponentFor num den
    let (n, d) := scaled num den q
    let m := roundQuotient n d
    let (m, q) := if m = twoTo 53 then (twoTo 52, q + 1) else (m, q)
    if maxExponent < q then infinity negative else finite negative m q

/-- The nearest number to `digits · 10^exponent`. Magnitudes far outside the range are told from
the count of digits. -/
def ofDecimal (negative : Bool) (digits : Nat) (exponent : Int) : Binary64 :=
  if digits = 0 then finite negative 0 minExponent
  else
    let magnitude : Int := (Text.decimalDigits digits).length + exponent
    if 400 < magnitude then infinity negative
    else if magnitude < -400 then finite negative 0 minExponent
    else if 0 ≤ exponent then round negative (digits * tenTo exponent.toNat) 1
    else round negative digits (tenTo (-exponent).toNat)

/-- Whether a number is zero, of either sign. -/
def isZero : Binary64 → Bool
  | finite _ m _ => m = 0
  | _ => false

/-- The whole number that a number equals, if there is one. -/
def whole? : Binary64 → Option Int
  | finite negative m q =>
    let signed : Int := if negative then -(m : Int) else m
    if 0 ≤ q then some (signed * twoTo q.toNat)
    else if m % twoTo (-q).toNat = 0 then some (signed / twoTo (-q).toNat)
    else none
  | _ => none

end Binary64

end NatSpec
