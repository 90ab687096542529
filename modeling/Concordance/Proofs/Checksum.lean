import Concordance.Checksum
import Concordance.Proofs.Layout
import Mathlib.Data.Nat.Bitwise

/-!
# A checksum notices a burst

The register is linear: of two registers and two bytes it takes in the exclusive or as it
takes in each of them. A difference of four bytes or fewer leaves the register empty only
if there was none, since the register then held the very bytes that were taken in; and a
register that differs stays different whatever comes behind. So bytes that differ within a
window of four have different checksums, however many there are.
-/

namespace Concordance.Checksum

open Layout

variable {register other : UInt32} {byte : UInt8} {bytes : List UInt8}

theorem and_one_eq_one_iff : register &&& 1 = 1 ↔ register.toNat % 2 = 1 := by
  rw [← UInt32.toNat_inj, UInt32.toNat_and, UInt32.toNat_one, Nat.and_one_is_mod]

theorem shiftBit_of_even (h : register.toNat % 2 = 0) : shiftBit register = register >>> 1 := by
  rw [shiftBit, if_neg]
  rw [and_one_eq_one_iff]
  omega

theorem shiftBit_of_odd (h : register.toNat % 2 = 1) :
    shiftBit register = (register >>> 1) ^^^ polynomial := by
  rw [shiftBit, if_pos (and_one_eq_one_iff.2 h)]

theorem shiftBit_xor (register other : UInt32) :
    shiftBit (register ^^^ other) = shiftBit register ^^^ shiftBit other := by
  have hparity : (register ^^^ other).toNat % 2 = (register.toNat + other.toNat) % 2 := by
    rw [UInt32.toNat_xor, Nat.xor_mod_two_eq]
  rcases Nat.mod_two_eq_zero_or_one register.toNat with hr | hr <;>
    rcases Nat.mod_two_eq_zero_or_one other.toNat with ho | ho
  · rw [shiftBit_of_even (by omega), shiftBit_of_even hr, shiftBit_of_even ho,
      UInt32.shiftRight_xor]
  · rw [shiftBit_of_odd (by omega), shiftBit_of_even hr, shiftBit_of_odd ho,
      UInt32.shiftRight_xor, UInt32.xor_assoc]
  · rw [shiftBit_of_odd (by omega), shiftBit_of_odd hr, shiftBit_of_even ho,
      UInt32.shiftRight_xor]
    ac_rfl
  · rw [shiftBit_of_even (by omega), shiftBit_of_odd hr, shiftBit_of_odd ho,
      UInt32.shiftRight_xor]
    calc
      _ = (register >>> 1 ^^^ other >>> 1) ^^^ (polynomial ^^^ polynomial) := by
        rw [UInt32.xor_self, UInt32.xor_zero]
      _ = _ := by ac_rfl

/-- The polynomial sets the highest bit, so that a register without it was only shifted. -/
theorem toNat_of_shiftBit_lt (h : (shiftBit register).toNat < 2 ^ 31) :
    register.toNat = 2 * (shiftBit register).toNat := by
  have hhalf : (register >>> 1).toNat = register.toNat / 2 := by
    rw [UInt32.toNat_shiftRight]
    exact Nat.shiftRight_eq_div_pow register.toNat 1
  rcases Nat.mod_two_eq_zero_or_one register.toNat with heven | hodd
  · rw [shiftBit_of_even heven, hhalf]
    omega
  · rw [shiftBit_of_odd hodd, UInt32.toNat_xor, hhalf] at h
    have hlow : (register.toNat / 2).testBit 31 = false :=
      Nat.testBit_lt_two_pow (by have := register.toNat_lt; omega)
    have hhigh : polynomial.toNat.testBit 31 = true := by decide
    have hset := Nat.testBit_xor (register.toNat / 2) polynomial.toNat 31
    rw [hlow, hhigh, Nat.testBit_lt_two_pow h] at hset
    cases hset

theorem shiftBit_injective : Function.Injective shiftBit := by
  intro register other h
  rw [← UInt32.xor_eq_zero_iff, ← shiftBit_xor] at h
  have hzero : (register ^^^ other).toNat = 2 * (shiftBit (register ^^^ other)).toNat :=
    toNat_of_shiftBit_lt (by rw [h]; decide)
  rw [h] at hzero
  rw [← UInt32.xor_eq_zero_iff, ← UInt32.toNat_inj, hzero]
  rfl

/-! Bits taken out one after the other. -/

theorem repeat_shiftBit_xor (count : Nat) (register other : UInt32) :
    Nat.repeat shiftBit count (register ^^^ other) =
      Nat.repeat shiftBit count register ^^^ Nat.repeat shiftBit count other := by
  induction count with
  | zero => rfl
  | succ count ih => rw [Nat.repeat, ih, shiftBit_xor, Nat.repeat, Nat.repeat]

theorem repeat_shiftBit_injective (count : Nat) :
    Function.Injective (Nat.repeat shiftBit count) := by
  induction count with
  | zero => exact fun _ _ h => h
  | succ count ih => exact fun _ _ h => ih (shiftBit_injective h)

theorem toNat_of_repeat_shiftBit_lt {count : Nat} (hcount : count ≤ 32)
    (h : (Nat.repeat shiftBit count register).toNat < 2 ^ (32 - count)) :
    register.toNat = 2 ^ count * (Nat.repeat shiftBit count register).toNat := by
  induction count with
  | zero => rw [Nat.pow_zero, Nat.one_mul, Nat.repeat]
  | succ count ih =>
      have hle : 2 ^ (32 - (count + 1)) ≤ 2 ^ 31 := Nat.pow_le_pow_right (by decide) (by omega)
      have hlast : (Nat.repeat shiftBit count register).toNat =
          2 * (Nat.repeat shiftBit (count + 1) register).toNat :=
        toNat_of_shiftBit_lt (Nat.lt_of_lt_of_le h hle)
      have hpow : 2 ^ (32 - count) = 2 ^ (32 - (count + 1)) * 2 := by
        rw [← Nat.pow_succ]
        congr 1
        omega
      rw [ih (by omega) (by omega), hlast, Nat.pow_succ, Nat.mul_assoc]

/-! Bytes taken in. -/

theorem shiftByte_xor (register other : UInt32) (byte otherByte : UInt8) :
    shiftByte (register ^^^ other) (byte ^^^ otherByte) =
      shiftByte register byte ^^^ shiftByte other otherByte := by
  rw [shiftByte, shiftByte, shiftByte, ← repeat_shiftBit_xor, UInt8.toUInt32_xor]
  congr 1
  ac_rfl

theorem shiftByte_injective (byte : UInt8) :
    Function.Injective fun register => shiftByte register byte := by
  intro register other h
  have heq := repeat_shiftBit_injective 8 h
  rwa [UInt32.xor_left_inj] at heq

/-- A register that holds no more than three bytes after it has taken in one held that one
before them. -/
theorem toNat_of_shiftByte_lt (h : (shiftByte register byte).toNat < 2 ^ 24) :
    register.toNat = byte.toNat + 256 * (shiftByte register byte).toNat := by
  have hshift : (register ^^^ byte.toUInt32).toNat = 2 ^ 8 * (shiftByte register byte).toNat :=
    toNat_of_repeat_shiftBit_lt (by decide) h
  rw [UInt32.toNat_xor, UInt8.toNat_toUInt32] at hshift
  have hbyte := byte.toNat_lt
  have hlow : register.toNat % 2 ^ 8 ^^^ byte.toNat % 2 ^ 8 = 0 := by
    rw [← Nat.xor_mod_two_pow, hshift, Nat.mul_mod_right]
  have hhigh : register.toNat / 2 ^ 8 ^^^ byte.toNat / 2 ^ 8 = (shiftByte register byte).toNat := by
    rw [← Nat.xor_div_two_pow, hshift, Nat.mul_div_cancel_left _ (by decide)]
  rw [Nat.xor_eq_zero_iff] at hlow
  rw [Nat.div_eq_of_lt hbyte, Nat.xor_zero] at hhigh
  omega

theorem foldl_shiftByte_xor {bytes others : List UInt8} (hlength : bytes.length = others.length)
    (register other : UInt32) :
    (List.zipWith (· ^^^ ·) bytes others).foldl shiftByte (register ^^^ other) =
      bytes.foldl shiftByte register ^^^ others.foldl shiftByte other := by
  induction bytes generalizing others register other with
  | nil =>
      rw [List.length_nil, eq_comm, List.length_eq_zero_iff] at hlength
      subst hlength
      rfl
  | cons byte bytes ih =>
      cases others with
      | nil => cases hlength
      | cons otherByte others =>
          rw [List.zipWith_cons_cons, List.foldl_cons, shiftByte_xor]
          exact ih (Nat.succ.inj hlength) _ _

theorem foldl_shiftByte_injective (bytes : List UInt8) :
    Function.Injective (bytes.foldl shiftByte) := by
  induction bytes with
  | nil => exact fun _ _ h => h
  | cons byte bytes ih => exact fun _ _ h => shiftByte_injective byte (ih h)

/-- Four bytes or fewer leave the register empty only if it held just them. -/
theorem toNat_eq_ofLittleEndian (hlength : bytes.length ≤ 4)
    (h : bytes.foldl shiftByte register = 0) : register.toNat = ofLittleEndian bytes := by
  induction bytes generalizing register with
  | nil =>
      rw [List.foldl_nil] at h
      rw [h]
      rfl
  | cons byte bytes ih =>
      have hrest : (shiftByte register byte).toNat = ofLittleEndian bytes :=
        ih (Nat.le_of_succ_le hlength) h
      have hlt : (shiftByte register byte).toNat < 2 ^ 24 := by
        rw [hrest]
        calc
          ofLittleEndian bytes < 256 ^ bytes.length := ofLittleEndian_lt bytes
          _ ≤ 256 ^ 3 := Nat.pow_le_pow_right (by decide) (Nat.le_of_succ_le_succ hlength)
      rw [toNat_of_shiftByte_lt hlt, hrest]
      rfl

theorem eq_of_zipWith_xor {bytes others : List UInt8} (hlength : bytes.length = others.length)
    (h : ofLittleEndian (List.zipWith (· ^^^ ·) bytes others) = 0) : bytes = others := by
  induction bytes generalizing others with
  | nil => exact (List.length_eq_zero_iff.1 hlength.symm).symm
  | cons byte bytes ih =>
      cases others with
      | nil => cases hlength
      | cons other others =>
          rw [List.zipWith_cons_cons, ofLittleEndian, Nat.add_eq_zero_iff] at h
          have hbyte : byte ^^^ other = 0 := UInt8.toNat_inj.1 h.1
          rw [UInt8.xor_eq_zero_iff] at hbyte
          rw [hbyte, ih (Nat.succ.inj hlength) (by omega)]

/-- Four bytes or fewer are told apart by the register, whatever it held before. -/
theorem eq_of_foldl_shiftByte_eq {bytes others : List UInt8} (hlength : bytes.length = others.length)
    (hwindow : bytes.length ≤ 4)
    (h : bytes.foldl shiftByte register = others.foldl shiftByte register) : bytes = others := by
  apply eq_of_zipWith_xor hlength
  have hempty := foldl_shiftByte_xor hlength register register
  rw [h, UInt32.xor_self, UInt32.xor_self] at hempty
  rw [← toNat_eq_ofLittleEndian _ hempty]
  · rfl
  · rw [List.length_zipWith]
    omega

/-- Bytes that differ, but only within a window of four, have different checksums. -/
theorem compute_ne_of_burst {first second : Bytes} (start : Nat) (hsize : first.size = second.size)
    (houtside : ∀ i, i < start ∨ start + 4 ≤ i → first[i]? = second[i]?) (hne : first ≠ second) :
    compute first ≠ compute second := by
  intro heq
  apply hne
  have hparts (bytes : Bytes) : bytes.toList = bytes.toList.take start ++
      ((bytes.toList.drop start).take 4 ++ bytes.toList.drop (start + 4)) := by
    rw [← List.drop_drop, List.take_append_drop, List.take_append_drop]
  have hbefore : first.toList.take start = second.toList.take start := by
    apply List.ext_getElem?
    intro i
    rw [List.getElem?_take, List.getElem?_take]
    split
    · next hi => simpa using houtside i (.inl hi)
    · rfl
  have hbehind : first.toList.drop (start + 4) = second.toList.drop (start + 4) := by
    apply List.ext_getElem?
    intro i
    simpa [List.getElem?_drop] using houtside (start + 4 + i) (.inr (Nat.le_add_right _ _))
  rw [compute, compute, UInt32.xor_left_inj, ← Array.foldl_toList, ← Array.foldl_toList,
    hparts first, hparts second, hbefore, hbehind] at heq
  simp only [List.foldl_append] at heq
  have hwindow := eq_of_foldl_shiftByte_eq (by simp [hsize]) (List.length_take_le ..)
    (foldl_shiftByte_injective _ heq)
  rw [← Array.toList_inj, hparts first, hparts second, hbefore, hwindow, hbehind]

end Concordance.Checksum
