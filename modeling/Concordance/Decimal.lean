import Concordance.Binary64

/-!
# The shortest decimal that reads back

A double stands for all real numbers that round to it. Among those,
`Decimal.ofBinary64` finds one with the fewest digits, and of these the one nearest
to the double; of two equally near ones the even one.

The double and the ends of its interval are kept as numerators over one
denominator, so every comparison is one of natural numbers.
-/

namespace Concordance

/-- The number `digits` times ten to the power `exponent`. -/
structure Decimal where
  digits : Nat
  exponent : Int
  deriving DecidableEq, Repr

namespace Decimal

/-- A number between two others, as numerators over one denominator. -/
structure Interval where
  low : Nat
  value : Nat
  high : Nat
  denominator : Nat
  /-- The ends belong to the interval. -/
  closed : Bool

namespace Interval

/-- The numbers that round to `mantissa` times two to the power `exponent`. Below the
least mantissa of its exponent a double has its neighbours twice as near. -/
def ofParts (mantissa : Nat) (exponent : Int) (nearBelow : Bool) : Interval :=
  let low := 4 * mantissa - (if nearBelow then 1 else 2)
  let value := 4 * mantissa
  let high := 4 * mantissa + 2
  let closed := mantissa % 2 == 0
  match exponent - 2 with
  | .ofNat power =>
    ⟨low * Nat.pow 2 power, value * Nat.pow 2 power, high * Nat.pow 2 power, 1, closed⟩
  | .negSucc power => ⟨low, value, high, Nat.pow 2 (power + 1), closed⟩

/-- The interval of a finite double that is not zero, whatever its sign. -/
def ofBinary64 (number : Binary64) : Interval :=
  let bits := number.bits.toNat
  let fraction := bits % 0x10000000000000
  let field : Nat := bits / 0x10000000000000 % 0x800
  if field = 0 then ofParts fraction (-1074) false
  else ofParts (0x10000000000000 + fraction) (Int.ofNat field - 1075) (fraction == 0 && 1 < field)

/-- Times ten to a power. -/
def scale (interval : Interval) (power : Int) : Interval :=
  match power with
  | .ofNat up =>
    { interval with
      low := interval.low * Nat.pow 10 up
      value := interval.value * Nat.pow 10 up
      high := interval.high * Nat.pow 10 up }
  | .negSucc down => { interval with denominator := interval.denominator * Nat.pow 10 (down + 1) }

/-- A natural number lies in the interval. -/
def contains (interval : Interval) (number : Nat) : Bool :=
  let numerator := number * interval.denominator
  if interval.closed then interval.low ≤ numerator && numerator ≤ interval.high
  else interval.low < numerator && numerator < interval.high

/-- The natural number in the interval that is nearest to its value; of two the even one. -/
def nearest? (interval : Interval) : Option Nat :=
  let below := interval.value / interval.denominator
  let above := below + 1
  match interval.contains below && below != 0, interval.contains above with
  | false, false => none
  | true, false => some below
  | false, true => some above
  | true, true =>
    let down := interval.value - below * interval.denominator
    let up := above * interval.denominator - interval.value
    if down < up then some below
    else if up < down then some above
    else if below % 2 = 0 then some below
    else some above

/-- The first hit on grids of tens, each ten times finer than the one before. -/
def search (interval : Interval) : (grids : Nat) → (exponent : Int) → Decimal
  | 0, exponent =>
    let scaled := interval.scale (-exponent)
    ⟨scaled.value / scaled.denominator, exponent⟩
  | grids + 1, exponent =>
    match (interval.scale (-exponent)).nearest? with
    | some digits => ⟨digits, exponent⟩
    | none => search interval grids (exponent - 1)

/-- The number of decimal digits of a natural number. -/
def digitCount (number : Nat) : Nat := (Nat.toDigits 10 number).length

/-- An exponent of ten above the interval. -/
def top (interval : Interval) : Int :=
  (digitCount interval.high : Int) - digitCount interval.denominator + 1

end Interval

/-- The shortest decimal of a finite double that is not zero, whatever its sign. The grids
from above the interval down to seventeen digits hold it. -/
def ofBinary64 (number : Binary64) : Decimal :=
  let interval := Interval.ofBinary64 number
  interval.search 20 interval.top

end Decimal

end Concordance
