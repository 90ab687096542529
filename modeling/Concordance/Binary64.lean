/-!
# Double-precision numbers by their bits

An average length and a score are kept as the 64 bits of an IEEE double. Stored
bits come back exactly, whatever they are, and the total order tells any two bit
patterns apart: negative values that are no number, negative numbers, positive
numbers, positive values that are no number.

Arithmetic is that of `Float`; a result that is no number has the bits of
`indefinite`.
-/

namespace Concordance

structure Binary64 where
  bits : UInt64
  deriving DecidableEq, Repr

namespace Binary64

def zero : Binary64 := ⟨0⟩

/-- The result of an operation that has no number as its result. -/
def indefinite : Binary64 := ⟨0xfff8000000000000⟩

def toFloat (number : Binary64) : Float := Float.ofBits number.bits

def ofFloat (value : Float) : Binary64 :=
  if value.isNaN then indefinite else ⟨value.toBits⟩

/-- The bits are those of no number: the exponent is full and the fraction is not zero. -/
def isNaN (number : Binary64) : Bool :=
  0x7ff0000000000000 < number.bits &&& 0x7fffffffffffffff

/-- What arithmetic makes of bits that are no number: the same with the quiet bit set. -/
def quiet (number : Binary64) : Binary64 := ⟨number.bits ||| 0x0008000000000000⟩

/-- The sign bit is set. -/
def isNegative (number : Binary64) : Bool := 0x8000000000000000 ≤ number.bits

/-- The place in the total order: below the sign bit, larger bits come later where the sign
is positive and earlier where it is negative. -/
def place (number : Binary64) : Nat :=
  if number.isNegative then 0xffffffffffffffff - number.bits.toNat
  else 0x8000000000000000 + number.bits.toNat

/-- The total order of bit patterns. -/
def totalOrder (first second : Binary64) : Ordering := compare first.place second.place

/-- At most as large in the total order. -/
def atMost (first second : Binary64) : Bool := first.place ≤ second.place

/-- A zero, of either sign. -/
def isZero (number : Binary64) : Bool := number.bits &&& 0x7fffffffffffffff == 0

/-- Larger as numbers: false where either is no number, and of two zeros. -/
def exceeds (first second : Binary64) : Bool :=
  !first.isNaN && !second.isNaN && !(first.isZero && second.isZero)
    && second.place < first.place

end Binary64

end Concordance
