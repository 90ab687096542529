import Concordance.PopStream
import Concordance.Varint

/-!
# Readers of written numbers

Both readers give out the numbers written from a start on. A `CountedReader`
knows how many there are, a `BoundedReader` where their bytes end.
-/

namespace Concordance.Varint

/-- Reads the next `left` numbers from `cur` on. -/
structure CountedReader where
  bytes : Bytes
  cur : Nat
  left : Nat

instance : PopStream CountedReader UInt32 where
  remaining reader := reader.left
  pop reader :=
    if reader.left = 0 then (.error (.exhausted .varint), reader)
    else
      match read reader.bytes reader.bytes.size reader.cur with
      | .ok (value, next) => (.ok value, { reader with cur := next, left := reader.left - 1 })
      | .error fault => (.error fault, reader)
  remaining_lt_of_pop {reader rest value} h := by
    split at h
    · cases h
    · split at h
      · cases h
        simp only
        omega
      · cases h

/-- Reads at `cur`, in a region that ends at `stop`; a region has to lie inside the
bytes. -/
def readRegion (bytes : Bytes) (stop cur : Nat) : Except Fault (UInt32 × Nat) :=
  if stop ≤ bytes.size then read bytes stop cur else .error .outOfBounds

/-- A number read in a region ends inside it, and the region inside the bytes. -/
theorem lt_of_readRegion {bytes : Bytes} {stop cur next : Nat} {value : UInt32}
    (h : readRegion bytes stop cur = .ok (value, next)) :
    cur < next ∧ next ≤ stop ∧ stop ≤ bytes.size := by
  unfold readRegion at h
  split at h
  · next hstop => exact ⟨(lt_of_read h).1, (lt_of_read h).2, hstop⟩
  · cases h

/-- Reads the numbers from `cur` on up to the end bound. -/
structure BoundedReader where
  bytes : Bytes
  cur : Nat
  stop : Nat

/-- The reader of a whole buffer. -/
def BoundedReader.ofBytes (bytes : Bytes) : BoundedReader := ⟨bytes, 0, bytes.size⟩

instance : PopStream BoundedReader UInt32 where
  remaining reader := reader.stop - reader.cur
  pop reader :=
    if reader.stop ≤ reader.cur then (.error .pastBound, reader)
    else
      match readRegion reader.bytes reader.stop reader.cur with
      | .ok (value, next) => (.ok value, { reader with cur := next })
      | .error fault => (.error fault, reader)
  remaining_lt_of_pop {reader rest value} h := by
    split at h
    · cases h
    · split at h
      · next hread =>
          have := lt_of_readRegion hread
          cases h
          simp only
          omega
      · cases h

end Concordance.Varint
