import Concordance.Decimal

/-!
# Numbers in JSON text

A double is written as the shortest decimal that reads back, with a point and a
digit on either side of it from 0.00001 up to 16 digits before the point, and
beyond that with an exponent. A value that is no finite number is null.
-/

namespace Concordance.Json

/-- The decimal digits of a natural number. -/
def naturalText (value : Nat) : String := String.ofList (Nat.toDigits 10 value)

def integerText : Int → String
  | .ofNat value => naturalText value
  | .negSucc value => "-" ++ naturalText (value + 1)

/-! The place of a number is that of its point, counted from its first digit: the number of
digits before the point, or the number of zeros after it, negated. Numbers from the smallest
to the largest place are written without an exponent. -/

def smallestPlace : Int := -4

def largestPlace : Int := 16

/-- The text of a decimal that is not zero. -/
def decimalText (decimal : Decimal) : String :=
  let digits := Nat.toDigits 10 decimal.digits
  let place : Int := digits.length + decimal.exponent
  let zeros (count : Int) : List Char := List.replicate count.toNat '0'
  if 0 ≤ decimal.exponent ∧ place ≤ largestPlace then
    String.ofList (digits ++ zeros decimal.exponent) ++ ".0"
  else if 0 < place ∧ place ≤ largestPlace then
    String.ofList (digits.take place.toNat ++ '.' :: digits.drop place.toNat)
  else if smallestPlace ≤ place ∧ place ≤ 0 then
    "0." ++ String.ofList (zeros (-place) ++ digits)
  else
    let mantissa :=
      match digits with
      | first :: second :: rest => first :: '.' :: second :: rest
      | single => single
    String.ofList mantissa ++ "e" ++ integerText (place - 1)

/-- The text of a double. -/
def numberText (number : Binary64) : String :=
  let magnitude := number.bits &&& 0x7fffffffffffffff
  if 0x7ff0000000000000 ≤ magnitude then "null"
  else
    let sign := if magnitude = number.bits then "" else "-"
    sign ++ if magnitude = 0 then "0.0" else decimalText (Decimal.ofBinary64 ⟨magnitude⟩)

end Concordance.Json
