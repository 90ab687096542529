import Concordance.Proofs.Numeral
import Concordance.Varint.Reader

/-!
# Reading written numbers back

A number is decoded just where a numeral of it stands that has at most five bytes. So a number
that was written is decoded, together with the place behind it, and a number that was decoded is
decoded wherever its own bytes are the same. What the reader with checks accepts, the other reader
gives as well (`read_of_decode`), and bytes added behind a region change nothing that was read in
it. `decode_exact` puts together what is accepted and what is written.
-/

namespace Concordance.Varint

/-- A number that fits a word is decoded where one is scanned, so where a numeral of it stands. -/
theorem decode_eq_ok_iff {bytes : Bytes} {bound start stop : Nat} {value : UInt32} :
    decode bytes bound start = .ok (value, stop) ↔
      ∃ numeral : Numeral, bytes.At start numeral.bytes ∧ numeral.toList.length ≤ maxSize ∧
        numeral.value = value.toNat ∧ start + numeral.toList.length = stop ∧ stop ≤ bound := by
  rw [← scan_eq_ok_iff, decode]
  constructor
  · intro h
    split at h
    · cases h
    · split at h
      · cases h
      · next found next' hscan =>
          split at h
          · next hlt =>
              cases h
              rwa [show found.toUInt32.toNat = found from UInt32.toNat_ofNat_of_lt' hlt]
          · cases h
  · intro h
    have hlt := lt_of_scan h
    rw [if_neg (by omega), h]
    simp only [value.toNat_lt, if_true]
    rw [show value.toNat.toUInt32 = value from UInt32.ofNat_toNat]

/-- What was decoded is decoded wherever its own bytes are the same. -/
theorem decode_of_keptIn {bytes other : Bytes} {stop stop' cur next : Nat} {value : UInt32}
    (h : decode bytes stop cur = .ok (value, next)) (hkept : bytes.KeptIn other cur next)
    (hle : next ≤ stop') : decode other stop' cur = .ok (value, next) := by
  obtain ⟨numeral, hat, hsize, hvalue, rfl, -⟩ := decode_eq_ok_iff.1 h
  exact decode_eq_ok_iff.2 ⟨numeral, hat.of_keptIn hkept, hsize, hvalue, rfl, hle⟩

/-- What was decoded stays where bytes are added and the bound is raised. -/
theorem decode_append {bytes more : Bytes} {stop stop' cur next : Nat} {value : UInt32}
    (h : decode bytes stop cur = .ok (value, next)) (hle : stop ≤ stop') :
    decode (bytes ++ more) stop' cur = .ok (value, next) :=
  decode_of_keptIn h (Bytes.keptIn_append bytes more cur next)
    (Nat.le_trans (lt_of_decode h).2 hle)

/-- A number that was written is decoded. -/
theorem decode_encode {bytes : Bytes} {cur : Nat} {value : UInt32}
    (hat : bytes.At cur (encode value)) (stop : Nat) (hstop : cur + (encode value).size ≤ stop) :
    decode bytes stop cur = .ok (value, cur + (encode value).size) := by
  obtain ⟨numeral, hlist, hvalue⟩ := exists_numeral value.toNat
  have hbytes : numeral.bytes = encode value := congrArg List.toArray hlist
  have hsize : (digits value.toNat).length ≤ maxSize := by
    apply length_digits_le_iff.2
    calc
      value.toNat < 2 ^ 32 := value.toNat_lt
      _ < 128 ^ 5 := by decide
  rw [← hbytes] at hat hstop ⊢
  exact decode_eq_ok_iff.2 ⟨numeral, hat, hlist ▸ hsize, hvalue, rfl, hstop⟩

/-- Where a numeral stands that has room its number is read, up to its lower 32 bits. -/
theorem readWithin_of_at {bytes : Bytes} {stop room start : Nat} (numeral : Numeral)
    (hat : bytes.At start numeral.bytes) (hroom : numeral.toList.length ≤ room)
    (hstop : start + numeral.toList.length ≤ stop) :
    readWithin bytes stop room start =
      .ok (numeral.value.toUInt32, start + numeral.toList.length) := by
  induction numeral generalizing room start with
  | last byte unmarked =>
      obtain ⟨hbyte, -⟩ := Bytes.at_cons_iff.1 hat
      obtain ⟨room, rfl⟩ := Nat.exists_eq_succ_of_ne_zero (Nat.pos_iff_ne_zero.1 hroom)
      have hvalue : byte.toUInt32 = (Numeral.last byte unmarked).value.toUInt32 := by
        rw [Numeral.value_last, ← UInt32.toNat_inj]
        simp
      rw [readWithin, Bytes.below?_eq_some_iff.2 ⟨hstop, hbyte⟩]
      simp only [unmarked, if_true, hvalue]
      rfl
  | more byte marked rest ih =>
      obtain ⟨hbyte, hat⟩ := Bytes.at_cons_iff.1 hat
      simp only [Numeral.toList, List.length_cons] at hroom hstop ⊢
      obtain ⟨room, rfl⟩ := Nat.exists_eq_succ_of_ne_zero (show room ≠ 0 by omega)
      have hread := ih hat (Nat.le_of_succ_le_succ hroom) (by omega)
      have hle : (128 : UInt32) ≤ byte.toUInt32 := by
        rw [UInt32.le_iff_toNat_le, UInt8.toNat_toUInt32]
        exact UInt8.le_iff_toNat_le.1 marked
      have hvalue : byte.toUInt32 - 128 + 128 * rest.value.toUInt32 =
          (Numeral.more byte marked rest).value.toUInt32 := by
        rw [← UInt32.toNat_inj, UInt32.toNat_add, UInt32.toNat_sub_of_le _ _ hle,
          UInt32.toNat_mul, UInt8.toNat_toUInt32, Numeral.value_more]
        simp only [Nat.toUInt32_eq, UInt32.toNat_ofNat', UInt32.toNat_ofNat]
        omega
      rw [readWithin, Bytes.below?_eq_some_iff.2 ⟨by omega, hbyte⟩]
      simp only [UInt8.not_lt.2 marked, if_false, hread, hvalue, Except.ok.injEq, Prod.mk.injEq,
        true_and]
      omega

/-- Where a number is decoded, it is also read. -/
theorem read_of_decode {bytes : Bytes} {stop stop' cur next : Nat} {value : UInt32}
    (h : decode bytes stop cur = .ok (value, next)) (hstop : next ≤ stop') :
    read bytes stop' cur = .ok (value, next) := by
  obtain ⟨numeral, hat, hsize, hvalue, rfl, -⟩ := decode_eq_ok_iff.1 h
  have hword : numeral.value.toUInt32 = value := by
    rw [hvalue]
    exact UInt32.ofNat_toNat
  rw [read, readWithin_of_at numeral hat hsize hstop, hword]

/-- A number that was written is read back. -/
theorem read_encode {bytes : Bytes} {cur : Nat} {value : UInt32}
    (hat : bytes.At cur (encode value)) (stop : Nat) (hstop : cur + (encode value).size ≤ stop) :
    read bytes stop cur = .ok (value, cur + (encode value).size) :=
  read_of_decode (decode_encode hat stop hstop) hstop

theorem readWithin_append {bytes more : Bytes} {stop stop' room cur next : Nat} {value : UInt32}
    (h : readWithin bytes stop room cur = .ok (value, next)) (hle : stop ≤ stop') :
    readWithin (bytes ++ more) stop' room cur = .ok (value, next) := by
  induction room generalizing cur value next with
  | zero =>
      unfold readWithin at h
      split at h <;> cases h
  | succ room ih =>
      unfold readWithin at h ⊢
      split at h
      · cases h
      · next byte hbyte =>
          obtain ⟨hlt, hbyte⟩ := Bytes.below?_eq_some_iff.1 hbyte
          rw [Bytes.below?_eq_some_iff.2 ⟨Nat.lt_of_lt_of_le hlt hle,
            Bytes.getElem?_append_of_getElem? more hbyte⟩]
          simp only at h ⊢
          split at h
          · next hsmall => rwa [if_pos hsmall]
          · next hbig =>
              rw [if_neg hbig]
              split at h
              · next rest next' hread => rwa [ih hread]
              · cases h

/-- What was read stays where bytes are added and the bound is raised. -/
theorem read_append {bytes more : Bytes} {stop stop' cur next : Nat} {value : UInt32}
    (h : read bytes stop cur = .ok (value, next)) (hle : stop ≤ stop') :
    read (bytes ++ more) stop' cur = .ok (value, next) :=
  readWithin_append h hle

theorem readRegion_eq_read {bytes : Bytes} {stop cur : Nat} (hstop : stop ≤ bytes.size) :
    readRegion bytes stop cur = read bytes stop cur :=
  if_pos hstop

theorem readRegion_append {bytes more : Bytes} {stop cur next : Nat} {value : UInt32}
    (h : readRegion bytes stop cur = .ok (value, next)) :
    readRegion (bytes ++ more) stop cur = .ok (value, next) := by
  have hstop := (lt_of_readRegion h).2.2
  rw [readRegion_eq_read hstop] at h
  rw [readRegion_eq_read (by rw [Array.size_append]; omega)]
  exact read_append h (Nat.le_refl _)

/-- A number is decoded just where a numeral of it stands that has at most five bytes and ends
within the bound, and it is read there as well. What is written of it has the size that is told
of it, is shorter than every other numeral, and is decoded whatever stands behind it. -/
theorem decode_exact (bytes : Bytes) (bound start : Nat) (value : UInt32) :
    (∀ stop, decode bytes bound start = .ok (value, stop) ↔
      ∃ numeral : Numeral, bytes.At start numeral.bytes ∧ numeral.bytes.size ≤ 5 ∧
        numeral.value = value.toNat ∧ start + numeral.bytes.size = stop ∧ stop ≤ bound) ∧
    (∀ stop, decode bytes bound start = .ok (value, stop) →
      read bytes bound start = .ok (value, stop)) ∧
    (encode value).size = size value ∧
    (∀ numeral : Numeral, numeral.value = value.toNat →
      numeral.bytes = encode value ∨ size value < numeral.bytes.size) ∧
    ∀ rest : Bytes, decode (encode value ++ rest) (encode value ++ rest).size 0 =
      .ok (value, size value) := by
  refine ⟨fun stop => ?_, fun stop h => ?_, size_encode value, fun numeral hvalue => ?_,
    fun rest => ?_⟩
  · exact decode_eq_ok_iff
  · exact read_of_decode h (lt_of_decode h).2
  · rw [← size_encode, encode, ← hvalue]
    exact (digits_value numeral).imp_left (congrArg List.toArray)
  · have hat := Bytes.at_between #[] (encode value) rest
    rw [Array.empty_append] at hat
    have hstop : 0 + (encode value).size ≤ (encode value ++ rest).size := by
      rw [Array.size_append]
      omega
    exact (decode_encode hat _ hstop).trans (by rw [size_encode, Array.size_empty, Nat.zero_add])

/-- A numeral of 300 with a digit that says nothing. -/
def paddedNumeral : Numeral := .more 0xac (by decide) (.more 0x82 (by decide) (.last 0 (by decide)))

/-- The padded numeral is decoded and read, and is longer than what is written of its number. -/
theorem decode_exact_padded :
    decode #[7, 0xac, 0x82, 0] 4 1 = .ok (300, 4) ∧ read #[7, 0xac, 0x82, 0] 4 1 = .ok (300, 4) ∧
    paddedNumeral.value = 300 ∧ size 300 < paddedNumeral.bytes.size := by
  obtain ⟨haccepts, hread, hsize, hshortest, -⟩ := decode_exact #[7, 0xac, 0x82, 0] 4 1 300
  have hat : Bytes.At #[7, 0xac, 0x82, 0] 1 paddedNumeral.bytes :=
    Bytes.at_size_append #[7] paddedNumeral.bytes
  have hvalue : paddedNumeral.value = (300 : UInt32).toNat := rfl
  have hdecode : decode #[7, 0xac, 0x82, 0] 4 1 = .ok (300, 4) :=
    (haccepts 4).2 ⟨paddedNumeral, hat, by decide, hvalue, rfl, Nat.le_refl 4⟩
  refine ⟨hdecode, hread 4 hdecode, hvalue, ?_⟩
  apply (hshortest paddedNumeral hvalue).resolve_left
  intro heq
  have hsizes : paddedNumeral.bytes.size = (encode 300).size := congrArg Array.size heq
  rw [hsize] at hsizes
  exact absurd hsizes (by decide)

end Concordance.Varint
