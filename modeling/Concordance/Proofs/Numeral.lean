import Concordance.Proofs.Bytes
import Mathlib.Algebra.Group.Nat.Defs

/-!
# Numerals, the written forms of numbers

A numeral is any run of marked bytes with one byte without a mark behind it. The low seven bits
of its bytes are the digits, so that each number has many numerals. Its digits as `encode` writes
them are the shortest of these. Scanning finds a number just where a numeral of it stands.
-/

namespace Concordance.Varint

/-- Marked bytes, and behind them the last byte, which has no mark. -/
inductive Numeral where
  | last (byte : UInt8) (unmarked : byte < 128)
  | more (byte : UInt8) (marked : 128 ≤ byte) (rest : Numeral)

namespace Numeral

def toList : Numeral → List UInt8
  | last byte _ => [byte]
  | more byte _ rest => byte :: rest.toList

def bytes (numeral : Numeral) : Bytes := numeral.toList.toArray

/-- The number whose digits of base 128 are the low seven bits of the bytes, least significant
first. -/
def value : Numeral → Nat
  | last byte _ => byte.toNat % 128
  | more byte _ rest => byte.toNat % 128 + 128 * rest.value

theorem length_pos (numeral : Numeral) : 0 < numeral.toList.length := by
  cases numeral <;> exact Nat.succ_pos _

theorem value_last {byte : UInt8} (unmarked : byte < 128) :
    (last byte unmarked).value = byte.toNat :=
  Nat.mod_eq_of_lt (UInt8.lt_iff_toNat_lt.1 unmarked)

theorem value_more {byte : UInt8} (marked : 128 ≤ byte) (rest : Numeral) :
    (more byte marked rest).value = byte.toNat - 128 + 128 * rest.value := by
  have hle : 128 ≤ byte.toNat := UInt8.le_iff_toNat_le.1 marked
  have hlt := byte.toNat_lt
  rw [value]
  omega

end Numeral

theorem digits_ne_nil (value : Nat) : digits value ≠ [] := by
  unfold digits
  split <;> exact List.cons_ne_nil _ _

theorem size_encode_pos (value : UInt32) : 0 < (encode value).size :=
  List.length_pos_iff.2 (digits_ne_nil value.toNat)

/-- A number takes one byte and at most one more for each 128 it holds. -/
theorem length_digits_le (value : Nat) : (digits value).length ≤ 1 + value / 128 := by
  fun_induction digits value with
  | case1 value hsmall => simp
  | case2 value hbig ih =>
      rw [List.length_cons]
      omega

theorem size_encode_le (value : UInt32) : (encode value).size ≤ 1 + value.toNat / 128 :=
  length_digits_le value.toNat

/-- A number has so many digits as powers of 128 fit below it. -/
theorem length_digits_le_iff {value n : Nat} :
    (digits value).length ≤ n + 1 ↔ value < 128 ^ (n + 1) := by
  fun_induction digits value generalizing n with
  | case1 value hsmall =>
      have hpow : 128 ≤ 128 ^ (n + 1) := Nat.le_self_pow (Nat.succ_ne_zero n) 128
      simp only [List.length_singleton]
      omega
  | case2 value hbig ih =>
      rw [List.length_cons, Nat.succ_le_succ_iff]
      cases n with
      | zero =>
          have := List.length_pos_iff.2 (digits_ne_nil (value / 128))
          omega
      | succ n => rw [ih, Nat.div_lt_iff_lt_mul (by decide), Nat.pow_succ 128 (n + 1)]

/-- The digits of a number are a numeral of it. -/
theorem exists_numeral (value : Nat) :
    ∃ numeral : Numeral, numeral.toList = digits value ∧ numeral.value = value := by
  fun_induction digits value with
  | case1 value hsmall =>
      have hbyte : value.toUInt8.toNat = value :=
        UInt8.toNat_ofNat_of_lt' (Nat.lt_trans hsmall (by decide))
      have hunmarked : value.toUInt8 < 128 := by
        rw [UInt8.lt_iff_toNat_lt, hbyte]
        exact hsmall
      exact ⟨.last _ hunmarked, rfl, (Numeral.value_last hunmarked).trans hbyte⟩
  | case2 value hbig ih =>
      obtain ⟨rest, hlist, hvalue⟩ := ih
      have hbyte : (value % 128 + 128).toUInt8.toNat = value % 128 + 128 :=
        UInt8.toNat_ofNat_of_lt' (Nat.add_lt_add_right (Nat.mod_lt value (by decide)) 128)
      have hmarked : 128 ≤ (value % 128 + 128).toUInt8 := by
        rw [UInt8.le_iff_toNat_le, hbyte]
        exact Nat.le_add_left 128 (value % 128)
      refine ⟨.more _ hmarked rest, congrArg (_ :: ·) hlist, ?_⟩
      rw [Numeral.value_more, hbyte, hvalue]
      omega

/-- The digits of a number are the only shortest numeral of it. -/
theorem digits_value (numeral : Numeral) :
    numeral.toList = digits numeral.value ∨
      (digits numeral.value).length < numeral.toList.length := by
  induction numeral with
  | last byte unmarked =>
      have hsmall : byte.toNat < 128 := UInt8.lt_iff_toNat_lt.1 unmarked
      have hbyte : byte.toNat.toUInt8 = byte := UInt8.ofNat_toNat
      left
      rw [Numeral.value_last, digits, if_pos hsmall, hbyte]
      rfl
  | more byte marked rest ih =>
      by_cases hsmall : (Numeral.more byte marked rest).value < 128
      · -- One digit is enough, so that the bytes behind the first say nothing.
        right
        rw [digits, if_pos hsmall]
        exact Nat.succ_lt_succ rest.length_pos
      · have hle : 128 ≤ byte.toNat := UInt8.le_iff_toNat_le.1 marked
        have hlt := byte.toNat_lt
        have hrest : (Numeral.more byte marked rest).value / 128 = rest.value := by
          rw [Numeral.value]
          omega
        have hdigit : (Numeral.more byte marked rest).value % 128 + 128 = byte.toNat := by
          rw [Numeral.value]
          omega
        have hbyte : byte.toNat.toUInt8 = byte := UInt8.ofNat_toNat
        rw [digits, if_neg hsmall, hrest, hdigit, hbyte]
        apply ih.imp
        · exact congrArg (byte :: ·)
        · exact Nat.succ_lt_succ

/-- The size that is told of a number is that of its written form. -/
theorem size_encode (value : UInt32) : (encode value).size = size value := by
  have hpos := size_encode_pos value
  have hvalue := value.toNat_lt
  -- The steps of `size` are the powers of 128; a fifth digit is the last that a word can need.
  have hlength (n : Nat) : (encode value).size ≤ n + 1 ↔ value.toNat < 128 ^ (n + 1) :=
    length_digits_le_iff
  have hone := hlength 0
  have htwo := hlength 1
  have hthree := hlength 2
  have hfour := hlength 3
  have hfive := hlength 4
  simp only [size, UInt32.lt_iff_toNat_lt, UInt32.reduceToNat]
  repeat' split
  all_goals omega

theorem scan_zero_ne_ok {bytes : Bytes} {stop cur : Nat} (found : Nat × Nat) :
    scan bytes stop 0 cur ≠ .ok found := by
  unfold scan
  split <;> exact nofun

/-- What the first byte says of a number that is scanned. -/
theorem scan_succ_eq_ok_iff {bytes : Bytes} {stop room cur value next : Nat} :
    scan bytes stop (room + 1) cur = .ok (value, next) ↔
      ∃ byte, bytes.below? stop cur = some byte ∧
        ((byte < 128 ∧ byte.toNat = value ∧ cur + 1 = next) ∨
          (¬ byte < 128 ∧ ∃ rest, scan bytes stop room (cur + 1) = .ok (rest, next) ∧
            byte.toNat - 128 + 128 * rest = value)) := by
  rw [scan]
  cases hbyte : bytes.below? stop cur with
  | none => simp
  | some byte =>
      simp only [Option.some.injEq, exists_eq_left']
      by_cases hsmall : byte < 128
      · simp [hsmall]
      · cases hrest : scan bytes stop room (cur + 1) with
        | error cause => simp [hsmall]
        | ok found =>
            obtain ⟨rest, next'⟩ := found
            simp only [hsmall, if_false, false_and, not_false_eq_true, true_and, false_or,
              Except.ok.injEq, Prod.mk.injEq]
            constructor
            · rintro ⟨hvalue, hnext⟩
              exact ⟨rest, ⟨rfl, hnext⟩, hvalue⟩
            · rintro ⟨_, ⟨rfl, hnext⟩, hvalue⟩
              exact ⟨hvalue, hnext⟩

/-- A number is scanned where a numeral of it stands that has room and ends within the bound. -/
theorem scan_eq_ok_iff {bytes : Bytes} {bound room start value stop : Nat} :
    scan bytes bound room start = .ok (value, stop) ↔
      ∃ numeral : Numeral, bytes.At start numeral.bytes ∧ numeral.toList.length ≤ room ∧
        numeral.value = value ∧ start + numeral.toList.length = stop ∧ stop ≤ bound := by
  induction room generalizing start value stop with
  | zero =>
      constructor
      · intro h
        exact absurd h (scan_zero_ne_ok _)
      · rintro ⟨numeral, -, hroom, -⟩
        have := numeral.length_pos
        omega
  | succ room ih =>
      rw [scan_succ_eq_ok_iff]
      constructor
      · rintro ⟨byte, hbyte, ⟨hsmall, rfl, rfl⟩ | ⟨hbig, rest, hrest, rfl⟩⟩
        · obtain ⟨hlt, hbyte⟩ := Bytes.below?_eq_some_iff.1 hbyte
          refine ⟨.last byte hsmall, ?_, ?_, Numeral.value_last hsmall, rfl, hlt⟩
          · exact Bytes.at_cons_iff.2 ⟨hbyte, fun i hi => absurd hi (Nat.not_lt_zero i)⟩
          · exact Nat.succ_le_succ (Nat.zero_le room)
        · obtain ⟨-, hbyte⟩ := Bytes.below?_eq_some_iff.1 hbyte
          obtain ⟨numeral, hat, hroom, rfl, rfl, hbound⟩ := ih.1 hrest
          have hmarked : 128 ≤ byte := UInt8.not_lt.1 hbig
          refine ⟨.more byte hmarked numeral, ?_, ?_, Numeral.value_more hmarked numeral, ?_, hbound⟩
          · exact Bytes.at_cons_iff.2 ⟨hbyte, hat⟩
          · exact Nat.succ_le_succ hroom
          · simp only [Numeral.toList, List.length_cons]
            omega
      · rintro ⟨numeral, hat, hroom, rfl, rfl, hbound⟩
        cases numeral with
        | last byte unmarked =>
            obtain ⟨hbyte, -⟩ := Bytes.at_cons_iff.1 hat
            refine ⟨byte, Bytes.below?_eq_some_iff.2 ⟨hbound, hbyte⟩, .inl ?_⟩
            exact ⟨unmarked, (Numeral.value_last unmarked).symm, rfl⟩
        | more byte marked rest =>
            obtain ⟨hbyte, hat⟩ := Bytes.at_cons_iff.1 hat
            simp only [Numeral.toList, List.length_cons] at hroom hbound ⊢
            refine ⟨byte, Bytes.below?_eq_some_iff.2 ⟨by omega, hbyte⟩, .inr ?_⟩
            refine ⟨UInt8.not_lt.2 marked, rest.value, ?_, (Numeral.value_more marked rest).symm⟩
            exact ih.2 ⟨rest, hat, by omega, rfl, by omega, by omega⟩

end Concordance.Varint
