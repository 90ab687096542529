import Concordance.Varint

/-!
# Runs of bytes inside others

`Bytes.At` says where a run of bytes lies in others, and `Bytes.KeptIn` that the bytes from one
place up to another are found in others at the same place. A run that lies in bytes that are kept
lies in the others as well.
-/

namespace Concordance.Bytes

/-- The bytes from `start` on begin with `part`. -/
def At (bytes : Bytes) (start : Nat) (part : Bytes) : Prop :=
  ∀ i, i < part.size → bytes[start + i]? = part[i]?

theorem at_append_iff {bytes : Bytes} {start : Nat} {first second : Bytes} :
    bytes.At start (first ++ second) ↔
      bytes.At start first ∧ bytes.At (start + first.size) second := by
  constructor
  · intro h
    constructor
    · intro i hi
      rw [h i (by rw [Array.size_append]; omega), Array.getElem?_append_left hi]
    · intro i hi
      have hat := h (first.size + i) (by rw [Array.size_append]; omega)
      rw [Array.getElem?_append_right (by omega)] at hat
      rw [Nat.add_assoc, hat, Nat.add_sub_cancel_left]
  · rintro ⟨hfirst, hsecond⟩ i hi
    by_cases hlt : i < first.size
    · rw [hfirst i hlt, Array.getElem?_append_left hlt]
    · rw [Array.size_append] at hi
      have hat := hsecond (i - first.size) (by omega)
      rw [Array.getElem?_append_right (by omega), ← hat]
      congr 1
      omega

/-- A first byte, and the others behind it. -/
theorem at_cons_iff {bytes : Bytes} {start : Nat} {byte : UInt8} {rest : List UInt8} :
    bytes.At start (byte :: rest).toArray ↔
      bytes[start]? = some byte ∧ bytes.At (start + 1) rest.toArray := by
  have hsplit : (byte :: rest).toArray = #[byte] ++ rest.toArray := by simp
  have hsingle : bytes.At start #[byte] ↔ bytes[start]? = some byte := by
    constructor
    · intro h
      exact h 0 Nat.one_pos
    · intro h i hi
      have hzero : i = 0 := Nat.lt_one_iff.1 hi
      subst hzero
      exact h
  rw [hsplit, at_append_iff, hsingle]
  rfl

/-- What is put behind bytes lies behind them. -/
theorem at_size_append (bytes part : Bytes) : Bytes.At (bytes ++ part) bytes.size part := by
  intro i _
  rw [Array.getElem?_append_right (by omega), Nat.add_sub_cancel_left]

/-- Written bytes lie where they are put between others. -/
theorem at_between (pre written suf : Bytes) :
    Bytes.At (pre ++ written ++ suf) pre.size written := by
  rw [Array.append_assoc]
  exact (at_append_iff.1 (at_size_append pre (written ++ suf))).1

theorem extract_of_at {bytes part : Bytes} {start : Nat} (hat : bytes.At start part)
    (hsize : start + part.size ≤ bytes.size) : bytes.extract start (start + part.size) = part := by
  apply Array.ext_getElem?
  intro i
  rw [Array.getElem?_extract]
  by_cases hi : i < part.size
  · rw [if_pos (by omega), hat i hi]
  · rw [if_neg (by omega), Array.getElem?_eq_none (by omega)]

theorem getElem?_append_of_getElem? {bytes : Bytes} {i : Nat} {byte : UInt8} (more : Bytes)
    (h : bytes[i]? = some byte) : (bytes ++ more)[i]? = some byte := by
  rw [Array.getElem?_append_left (Array.getElem?_eq_some_iff.1 h).1, h]

/-- Each byte from `start` up to `stop` stands in the other bytes at the same place. -/
def KeptIn (bytes other : Bytes) (start stop : Nat) : Prop :=
  ∀ i byte, start ≤ i → i < stop → bytes[i]? = some byte → other[i]? = some byte

theorem KeptIn.mono {bytes other : Bytes} {start stop first last : Nat}
    (h : bytes.KeptIn other start stop) (hfirst : start ≤ first) (hlast : last ≤ stop) :
    bytes.KeptIn other first last :=
  fun i byte hi hi' hbyte => h i byte (by omega) (by omega) hbyte

theorem keptIn_append (bytes more : Bytes) (start stop : Nat) :
    bytes.KeptIn (bytes ++ more) start stop :=
  fun _ _ _ _ hbyte => getElem?_append_of_getElem? more hbyte

theorem At.of_keptIn {bytes other part : Bytes} {start : Nat} (hat : bytes.At start part)
    (h : bytes.KeptIn other start (start + part.size)) : other.At start part := by
  intro i hi
  have hbyte : part[i]? = some part[i] := Array.getElem?_eq_getElem hi
  rw [hbyte]
  exact h _ _ (Nat.le_add_right start i) (Nat.add_lt_add_left hi start) ((hat i hi).trans hbyte)

theorem KeptIn.extract_eq {bytes other : Bytes} {start stop : Nat}
    (h : bytes.KeptIn other start stop) (hsize : stop ≤ bytes.size) (hother : stop ≤ other.size) :
    other.extract start stop = bytes.extract start stop := by
  apply Array.ext_getElem?
  intro i
  rw [Array.getElem?_extract, Array.getElem?_extract, Nat.min_eq_left hsize,
    Nat.min_eq_left hother]
  split
  · next hi =>
      have hbyte : bytes[start + i]? = some bytes[start + i] := Array.getElem?_eq_getElem (by omega)
      rw [hbyte]
      exact h _ _ (by omega) (by omega) hbyte
  · rfl

end Concordance.Bytes
