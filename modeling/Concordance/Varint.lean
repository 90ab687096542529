import Concordance.Error

/-!
# Variable-length numbers

A 32-bit number is written in one to five bytes: the low seven bits of each byte
hold a digit of base 128, the least significant digit first, and the high bit says
that another byte follows. `encode` writes the shortest form.

There are two readers. `decode` is for bytes from outside: it refuses a number that
ends too early, has more than five bytes or does not fit 32 bits. `read` is for
bytes this library has written or checked: it keeps the low 32 bits of a number of up
to five bytes, and faults if the bytes end first or a sixth byte follows.

Both read below a bound `stop`, the end of the region that the number belongs to.
-/

namespace Concordance

abbrev Bytes := Array UInt8

/-- The byte at `i`, if it lies below the bound `stop`. -/
def Bytes.below? (bytes : Bytes) (stop i : Nat) : Option UInt8 :=
  if i < stop then bytes[i]? else none

theorem Bytes.below?_eq_some_iff {bytes : Bytes} {stop i : Nat} {byte : UInt8} :
    bytes.below? stop i = some byte ↔ i < stop ∧ bytes[i]? = some byte := by
  unfold Bytes.below?
  split
  · next h => simp [h]
  · next h => simp [h]

namespace Varint

/-- Bytes of the longest written form. -/
def maxSize : Nat := 5

/-- The digits of base 128, least significant first, all but the last marked. -/
def digits (value : Nat) : List UInt8 :=
  if value < 128 then [value.toUInt8]
  else (value % 128 + 128).toUInt8 :: digits (value / 128)
termination_by value

/-- The shortest written form of a number. -/
def encode (value : UInt32) : Bytes :=
  (digits value.toNat).toArray

/-- Bytes of the shortest written form. -/
def size (value : UInt32) : Nat :=
  if value < 0x80 then 1
  else if value < 0x4000 then 2
  else if value < 0x200000 then 3
  else if value < 0x10000000 then 4
  else 5

/-- The number at `cur` of at most `room` bytes, and where it ends. -/
def scan (bytes : Bytes) (stop : Nat) : (room cur : Nat) → Except Malformed (Nat × Nat)
  | room, cur =>
    match bytes.below? stop cur with
    | none => .error .incompleteVarint
    | some byte =>
      match room with
      | 0 => .error .varintTooLong
      | room + 1 =>
        if byte < 128 then .ok (byte.toNat, cur + 1)
        else
          match scan bytes stop room (cur + 1) with
          | .ok (rest, next) => .ok (byte.toNat - 128 + 128 * rest, next)
          | .error cause => .error cause

/-- The number at `cur` and where it ends, read with every check. -/
def decode (bytes : Bytes) (stop cur : Nat) : Except Malformed (UInt32 × Nat) :=
  if stop < cur then .error (.offsetPastEnd cur stop)
  else
    match scan bytes stop maxSize cur with
    | .error cause => .error cause
    | .ok (value, next) =>
      if value < UInt32.size then .ok (value.toUInt32, next)
      else .error (.varintTooLarge value)

/-- The low 32 bits of the number at `cur` of at most `room` bytes, and where it ends. The digits
of a byte more would have to be moved beyond the word. -/
def readWithin (bytes : Bytes) (stop : Nat) : (room cur : Nat) → Except Fault (UInt32 × Nat)
  | room, cur =>
    match bytes.below? stop cur with
    | none => .error .outOfBounds
    | some byte =>
      match room with
      | 0 => .error .overflow
      | room + 1 =>
        if byte < 128 then .ok (byte.toUInt32, cur + 1)
        else
          match readWithin bytes stop room (cur + 1) with
          | .ok (rest, next) => .ok (byte.toUInt32 - 128 + 128 * rest, next)
          | .error fault => .error fault

/-- The number at `cur` and where it ends, read without a check on its size. -/
def read (bytes : Bytes) (stop cur : Nat) : Except Fault (UInt32 × Nat) :=
  readWithin bytes stop maxSize cur

theorem lt_of_scan {bytes : Bytes} {stop room cur value next : Nat}
    (h : scan bytes stop room cur = .ok (value, next)) : cur < next ∧ next ≤ stop := by
  induction room generalizing cur value next with
  | zero =>
      unfold scan at h
      split at h <;> simp at h
  | succ room ih =>
      unfold scan at h
      split at h
      · cases h
      · next byte hb =>
          have hlt := (Bytes.below?_eq_some_iff.1 hb).1
          simp only at h
          split at h
          · simp only [Except.ok.injEq, Prod.mk.injEq] at h
            omega
          · split at h
            · next rest next' hs =>
                have := ih hs
                simp only [Except.ok.injEq, Prod.mk.injEq] at h
                omega
            · cases h

/-- A decoded number ends after it starts and within the bound. -/
theorem lt_of_decode {bytes : Bytes} {stop cur next : Nat} {value : UInt32}
    (h : decode bytes stop cur = .ok (value, next)) : cur < next ∧ next ≤ stop := by
  unfold decode at h
  split at h
  · cases h
  · split at h
    · cases h
    · next hs =>
        split at h
        · simp only [Except.ok.injEq, Prod.mk.injEq] at h
          have := lt_of_scan hs
          omega
        · cases h

theorem lt_of_readWithin {bytes : Bytes} {stop room cur next : Nat} {value : UInt32}
    (h : readWithin bytes stop room cur = .ok (value, next)) : cur < next ∧ next ≤ stop := by
  induction room generalizing cur value next with
  | zero =>
      unfold readWithin at h
      split at h <;> cases h
  | succ room ih =>
      unfold readWithin at h
      split at h
      · cases h
      · next byte hbyte =>
          have hlt := (Bytes.below?_eq_some_iff.1 hbyte).1
          simp only at h
          split at h
          · cases h
            omega
          · split at h
            · next rest next' hread =>
                have := ih hread
                cases h
                omega
            · cases h

/-- A number read ends after it starts and within the bound. -/
theorem lt_of_read {bytes : Bytes} {stop cur next : Nat} {value : UInt32}
    (h : read bytes stop cur = .ok (value, next)) : cur < next ∧ next ≤ stop :=
  lt_of_readWithin h

end Varint

end Concordance
