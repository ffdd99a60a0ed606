import NatSpec.Decimal.Binary64

/-!
The shortest decimal that reads back. A positive number `m · 2^q` is the nearest binary number to
every decimal of an interval around it, ends included exactly if `m` is even. The grids of 1, 2,
… 17 significant digits are tried in turn; on each, only the two neighbours of the number have to
be tested, for if any point of a grid lies in the interval then so does one of them.
-/

namespace NatSpec.Binary64

/-- The interval of quotients that round to a number: the number itself and both ends, over one
denominator, and whether the ends belong to it. -/
structure Interval where
  low : Nat
  value : Nat
  high : Nat
  den : Nat
  closed : Bool

/-- The interval of the number `m · 2^q`. Below a power of two the neighbour is half as far. -/
def Interval.around (m : Nat) (q : Int) : Interval :=
  let gap := if m = twoTo 52 ∧ minExponent < q then 1 else 2
  let scale := if 2 ≤ q then twoTo (q - 2).toNat else 1
  let den := if 2 ≤ q then 1 else twoTo (2 - q).toNat
  { low := (4 * m - gap) * scale, value := 4 * m * scale, high := (4 * m + 2) * scale,
    den := den, closed := m % 2 = 0 }

def Interval.holds (i : Interval) (digits : Nat) (exponent : Int) : Bool :=
  let point := digits * tenTo exponent.toNat * i.den
  let unit := tenTo (-exponent).toNat
  if i.closed then i.low * unit ≤ point && point ≤ i.high * unit
  else i.low * unit < point && point < i.high * unit

/-- The power of ten just above a positive quotient: `10^(k-1) ≤ num / den < 10^k`. -/
def decade (num den : Nat) : Int :=
  if den ≤ num then (Text.decimalDigits (num / den)).length
  else
    let t := (den + num - 1) / num
    if t ≤ 1 then 1 else 1 - ((Text.decimalDigits (t - 1)).length : Int)

/-- The point of the grid with unit `10^exponent` that lies in the interval, the nearer one if
two do. -/
def Interval.onGrid? (i : Interval) (exponent : Int) : Option Nat :=
  let num := i.value * tenTo (-exponent).toNat
  let den := i.den * tenTo exponent.toNat
  let below := num / den
  let rest := num % den
  match i.holds below exponent, i.holds (below + 1) exponent with
  | true, true =>
    if 2 * rest < den then some below
    else if den < 2 * rest then some (below + 1)
    else if below % 2 = 0 then some below else some (below + 1)
  | true, false => some below
  | false, true => some (below + 1)
  | false, false => none

/-- The first hit on the grids of `count`, `count + 1`, … digits. -/
def Interval.search (i : Interval) (top : Int) : Nat → Nat → Nat × Int
  | 0, count => ((i.onGrid? (top - count)).getD 0, top - count)
  | more + 1, count =>
    match i.onGrid? (top - count) with
    | some digits => (digits, top - count)
    | none => i.search top more (count + 1)

/-- The digits and the power of ten of the shortest decimal that reads back as `m · 2^q`. -/
def shortest (m : Nat) (q : Int) : Nat × Int :=
  let i := Interval.around m q
  i.search (decade i.value i.den) 16 1

/-- Drops trailing zeros of a positive number, counting them into the power of ten. -/
def dropZeros : Nat → Nat → Int → Nat × Int
  | 0, digits, exponent => (digits, exponent)
  | fuel + 1, digits, exponent =>
    if digits % 10 = 0 ∧ digits ≠ 0 then dropZeros fuel (digits / 10) (exponent + 1)
    else (digits, exponent)

/-- How numbers are written: positionally from `10^low` up to below `10^high`, else with an
exponent of at least two digits and a sign. -/
structure Style where
  low : Int
  high : Int

/-- Numbers from 0.0001 up to below 10^16 are written positionally. -/
def plainStyle : Style := ⟨-4, 16⟩

/-- Writes `digits · 10^exponent`, which has a point and at least one digit after it unless it has
an exponent. -/
def Style.write (n : Style) (digits : List Char) (exponent : Int) : List Char :=
  let point : Int := digits.length + exponent
  if n.low < point ∧ point ≤ n.high then
    if point ≤ 0 then '0' :: '.' :: List.replicate (-point).toNat '0' ++ digits
    else if 0 ≤ exponent then digits ++ List.replicate exponent.toNat '0' ++ ['.', '0']
    else digits.take point.toNat ++ '.' :: digits.drop point.toNat
  else
    let power := point - 1
    let shown := Text.decimalDigits power.natAbs
    let padded := if shown.length < 2 then '0' :: shown else shown
    let mantissa := match digits with
      | [] => []
      | [d] => [d]
      | d :: rest => d :: '.' :: rest
    mantissa ++ 'e' :: (if power < 0 then '-' else '+') :: padded

/-- The shortest text that reads back as a number. -/
def toText (nanText infinityText : String) : Binary64 → String
  | nan => nanText
  | infinity negative => if negative then "-" ++ infinityText else infinityText
  | finite negative m q =>
    let body :=
      if m = 0 then ['0', '.', '0']
      else
        let (digits, exponent) := shortest m q
        let (digits, exponent) := dropZeros 20 digits exponent
        plainStyle.write (Text.decimalDigits digits) exponent
    String.ofList (if negative then '-' :: body else body)

end NatSpec.Binary64
