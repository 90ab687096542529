import Concordance.Proofs.PopStream
import Concordance.Proofs.Result
import Concordance.Proofs.Varint
import Concordance.Varint.Buffer

/-!
# Buffers are lists of numbers

Numbers are put into a buffer at either end. Its bytes are then the written forms of a list of
numbers, one behind the other, and where one form ends is told by its own bytes alone. The reader
that counts the numbers and the reader that knows the end of the bytes therefore stop at the same
places, and give out that list. A buffer is stored and decoded to itself as long as its byte count
fits a word.
-/

namespace Concordance.Varint

open PopStream Result

/-- The written forms of numbers, back to back. -/
def encodeAll : List UInt32 → Bytes
  | [] => #[]
  | value :: values => encode value ++ encodeAll values

/-- The place behind so many of the numbers. -/
def boundary (values : List UInt32) (count : Nat) : Nat := (encodeAll (values.take count)).size

theorem encodeAll_append (values more : List UInt32) :
    encodeAll (values ++ more) = encodeAll values ++ encodeAll more := by
  induction values with
  | nil => exact Array.empty_append.symm
  | cons value values ih => simp only [List.cons_append, encodeAll, ih, Array.append_assoc]

theorem boundary_length (values : List UInt32) :
    boundary values values.length = (encodeAll values).size := by
  rw [boundary, List.take_length]

theorem boundary_min (values : List UInt32) (count : Nat) :
    boundary values (min count values.length) = boundary values count := by
  rw [boundary, boundary, ← List.take_eq_take_min]

theorem boundary_le (values : List UInt32) (count : Nat) :
    boundary values count ≤ (encodeAll values).size := by
  calc
    boundary values count
      ≤ (encodeAll (values.take count)).size + (encodeAll (values.drop count)).size :=
        Nat.le_add_right _ _
    _ = (encodeAll (values.take count ++ values.drop count)).size := by
        rw [encodeAll_append, Array.size_append]
    _ = (encodeAll values).size := by rw [List.take_append_drop]

section
variable {values : List UInt32} {i : Nat} {value : UInt32}

theorem boundary_succ (h : values[i]? = some value) :
    boundary values (i + 1) = boundary values i + (encode value).size := by
  rw [boundary, List.take_add_one, h, encodeAll_append, Array.size_append]
  rfl

/-- Each number stands at its place. -/
theorem at_boundary (h : values[i]? = some value) :
    (encodeAll values).At (boundary values i) (encode value) := by
  obtain ⟨hi, hvalue⟩ := List.getElem?_eq_some_iff.1 h
  have hsplit : encodeAll values =
      encodeAll (values.take i) ++ encode value ++ encodeAll (values.drop (i + 1)) := by
    calc
      encodeAll values = encodeAll (values.take i ++ value :: values.drop (i + 1)) := by
        rw [← hvalue, ← List.drop_eq_getElem_cons hi, List.take_append_drop]
      _ = _ := by rw [encodeAll_append, encodeAll, Array.append_assoc]
  rw [hsplit]
  exact Bytes.at_between _ _ _

/-- Reading at the place of a number gives the number, and the place of the next. -/
theorem read_boundary (h : values[i]? = some value) :
    read (encodeAll values) (encodeAll values).size (boundary values i) =
      .ok (value, boundary values (i + 1)) := by
  have hle := boundary_le values (i + 1)
  rw [boundary_succ h] at hle ⊢
  exact read_encode (at_boundary h) _ hle

theorem boundary_lt (h : i < values.length) : boundary values i < (encodeAll values).size := by
  have hsucc := boundary_succ (List.getElem?_eq_getElem h)
  have hpos := size_encode_pos values[i]
  have hle := boundary_le values (i + 1)
  omega

end

/-- The reader that counts goes from the place of one number to the place of the next. -/
theorem CountedReader.visits (values : List UInt32) :
    Visits (fun i => (⟨encodeAll values, boundary values i, values.length - i⟩ : CountedReader))
      values (.exhausted .varint) where
  pop_eq {i value} h := by
    have hi := (List.getElem?_eq_some_iff.1 h).1
    simp only [pop]
    rw [if_neg (by omega), read_boundary h, Nat.sub_sub]
  pop_end := by simp [pop]
  remaining_iff {i} hi := by
    simp only [remaining]
    omega

/-- The reader that knows the end of the bytes goes the same way. -/
theorem BoundedReader.visits (values : List UInt32) :
    Visits (fun i =>
        (⟨encodeAll values, boundary values i, (encodeAll values).size⟩ : BoundedReader))
      values .pastBound where
  pop_eq {i value} h := by
    have hlt := boundary_lt (List.getElem?_eq_some_iff.1 h).1
    simp only [pop]
    rw [if_neg (by omega), readRegion_eq_read (Nat.le_refl _), read_boundary h]
  pop_end := by simp [pop, boundary_length]
  remaining_iff {i} hi := by
    simp only [remaining]
    constructor
    · intro hzero
      refine Nat.le_of_not_lt fun hlt => ?_
      have := boundary_lt hlt
      omega
    · intro hle
      rw [Nat.le_antisymm hi hle, boundary_length, Nat.sub_self]

namespace Buffer

section
variable {bytes other : Bytes} {offset stop : Nat} {buffer : Buffer}

theorem decode_eq_ok_iff :
    Buffer.decode bytes offset = .ok (buffer, stop) ↔
      ∃ length start, Varint.decode bytes bytes.size offset = .ok (length, start) ∧
        stop = start + length.toNat ∧ stop ≤ bytes.size ∧ buffer = ⟨bytes.extract start stop⟩ := by
  simp only [Buffer.decode, throw_eq_error, error_bind, bind_eq_ok_iff, liftM_malformed_eq_ok_iff,
    ite_error_eq_ok_iff, pure_eq_ok, Except.ok.injEq, Prod.exists, Prod.mk.injEq, Nat.not_lt]
  constructor
  · rintro ⟨length, start, hlength, hstop, rfl, rfl⟩
    exact ⟨length, start, hlength, rfl, hstop, rfl⟩
  · rintro ⟨length, start, hlength, rfl, hstop, rfl⟩
    exact ⟨length, start, hlength, hstop, rfl, rfl⟩

theorem lt_of_decode (h : Buffer.decode bytes offset = .ok (buffer, stop)) : offset < stop := by
  obtain ⟨length, start, hlength, hstop, -, -⟩ := decode_eq_ok_iff.1 h
  have := Varint.lt_of_decode hlength
  omega

theorem decode_of_keptIn (h : Buffer.decode bytes offset = .ok (buffer, stop))
    (hkept : bytes.KeptIn other offset stop) (hother : stop ≤ other.size) :
    Buffer.decode other offset = .ok (buffer, stop) := by
  obtain ⟨length, start, hlength, hstop, hsize, rfl⟩ := decode_eq_ok_iff.1 h
  have hlt := Varint.lt_of_decode hlength
  have hdata : bytes.KeptIn other start stop := hkept.mono (by omega) (Nat.le_refl _)
  refine decode_eq_ok_iff.2 ⟨length, start, ?_, hstop, hother, ?_⟩
  · exact Varint.decode_of_keptIn hlength (hkept.mono (Nat.le_refl _) (by omega)) (by omega)
  · rw [hdata.extract_eq hsize hother]

/-- What is decoded is counted by a word. -/
theorem size_lt_of_decode (h : Buffer.decode bytes offset = .ok (buffer, stop)) :
    buffer.size < UInt32.size := by
  obtain ⟨length, start, -, hstop, hsize, rfl⟩ := decode_eq_ok_iff.1 h
  have hlt := length.toNat_lt_size
  rw [size, Array.size_extract]
  omega

/-- A stored buffer is decoded. -/
theorem decode_of_at (hsize : buffer.size < UInt32.size) (hat : bytes.At offset buffer.encode)
    (hstop : offset + buffer.encode.size ≤ bytes.size) :
    Buffer.decode bytes offset = .ok (buffer, offset + buffer.encode.size) := by
  obtain ⟨hatSize, hatBytes⟩ := Bytes.at_append_iff.1 hat
  have hlength : buffer.size.toUInt32.toNat = buffer.bytes.size := UInt32.toNat_ofNat_of_lt' hsize
  have hwhole : offset + buffer.encode.size =
      offset + (Varint.encode buffer.size.toUInt32).size + buffer.bytes.size := by
    rw [encode, Array.size_append, Nat.add_assoc]
  rw [hwhole] at hstop ⊢
  have hdecode := Varint.decode_encode hatSize bytes.size (by omega)
  refine decode_eq_ok_iff.2 ⟨_, _, hdecode, by rw [hlength], hstop, ?_⟩
  rw [Bytes.extract_of_at hatBytes hstop]

end

/-- A buffer that was stored between other bytes is decoded if a word can count its bytes. -/
theorem decode_between_iff (pre suf : Bytes) (buffer : Buffer) :
    Buffer.decode (pre ++ buffer.encode ++ suf) pre.size =
      .ok (buffer, pre.size + buffer.encode.size) ↔ buffer.size < UInt32.size := by
  constructor
  · exact size_lt_of_decode
  · intro hsize
    apply decode_of_at hsize (Bytes.at_between pre buffer.encode suf)
    simp only [Array.size_append]
    omega

/-- What is done to a buffer. -/
inductive Edit where
  | append (value : UInt32)
  | prepend (value : UInt32)
  deriving DecidableEq, Repr

/-- The buffer after an edit, and the bytes this took. -/
def edit (buffer : Buffer) : Edit → Buffer × Nat
  | .append value => buffer.append value
  | .prepend value => buffer.prepend value

/-- The buffer after edits in turn, and the bytes that they took together. -/
def editAll (buffer : Buffer) : List Edit → Buffer × Nat
  | [] => (buffer, 0)
  | edit :: edits =>
    (((buffer.edit edit).1.editAll edits).1,
      (buffer.edit edit).2 + ((buffer.edit edit).1.editAll edits).2)

/-- The numbers after an edit. -/
def Edit.apply (values : List UInt32) : Edit → List UInt32
  | append value => values ++ [value]
  | prepend value => value :: values

/-- The numbers in a buffer that was empty before these edits. -/
def numbers (edits : List Edit) : List UInt32 := edits.foldl Edit.apply []

/-- An edit does to the bytes what it does to the numbers. -/
theorem bytes_edit {buffer : Buffer} {values : List UInt32} (h : buffer.bytes = encodeAll values)
    (edit : Edit) : (buffer.edit edit).1.bytes = encodeAll (edit.apply values) := by
  cases edit with
  | append value =>
      calc
        buffer.bytes ++ Varint.encode value = encodeAll values ++ encodeAll [value] := by
          rw [h, encodeAll, encodeAll, Array.append_empty]
        _ = encodeAll (values ++ [value]) := (encodeAll_append _ _).symm
  | prepend value => exact congrArg (Varint.encode value ++ ·) h

theorem size_edit (buffer : Buffer) (edit : Edit) :
    (buffer.edit edit).1.size = buffer.size + (buffer.edit edit).2 := by
  cases edit with
  | append value => exact Array.size_append
  | prepend value => exact Array.size_append.trans (Nat.add_comm _ _)

theorem bytes_editAll {buffer : Buffer} {values : List UInt32}
    (h : buffer.bytes = encodeAll values) (edits : List Edit) :
    (buffer.editAll edits).1.bytes = encodeAll (edits.foldl Edit.apply values) := by
  induction edits generalizing buffer values with
  | nil => exact h
  | cons edit edits ih => exact ih (bytes_edit h edit)

theorem size_editAll (buffer : Buffer) (edits : List Edit) :
    (buffer.editAll edits).1.size = buffer.size + (buffer.editAll edits).2 := by
  induction edits generalizing buffer with
  | nil => rfl
  | cons edit edits ih =>
      simp only [editAll]
      rw [ih, size_edit, Nat.add_assoc]

/-- Whatever is put into an empty buffer at its ends, its bytes are the written forms of the
numbers in turn. Both readers give out these numbers, are at their end behind the last, and stand
at the same place inside the buffer all the while. The edits took as many bytes as the buffer
has, and it is stored and decoded to itself just if a word can count them. -/
theorem serves_numbers {edits : List Edit} {buffer : Buffer} {taken : Nat}
    (h : empty.editAll edits = (buffer, taken)) :
    buffer.bytes = encodeAll (numbers edits) ∧
    Serves (⟨buffer.bytes, 0, (numbers edits).length⟩ : CountedReader) (numbers edits)
      (.exhausted .varint) ∧
    Serves (BoundedReader.ofBytes buffer.bytes) (numbers edits) .pastBound ∧
    (∀ count,
      (take count (⟨buffer.bytes, 0, (numbers edits).length⟩ : CountedReader)).rest.cur =
        boundary (numbers edits) count ∧
      (take count (BoundedReader.ofBytes buffer.bytes)).rest.cur =
        boundary (numbers edits) count ∧
      boundary (numbers edits) count ≤ buffer.size) ∧
    taken = buffer.size ∧
    ∀ pre suf, Buffer.decode (pre ++ buffer.encode ++ suf) pre.size =
      .ok (buffer, pre.size + buffer.encode.size) ↔ buffer.size < UInt32.size := by
  have hbuffer : (empty.editAll edits).1 = buffer := congrArg Prod.fst h
  have htaken : (empty.editAll edits).2 = taken := congrArg Prod.snd h
  have hempty : empty.bytes = encodeAll [] := rfl
  have hbytes : buffer.bytes = encodeAll (numbers edits) := hbuffer ▸ bytes_editAll hempty edits
  have hsize : buffer.size = 0 + taken := hbuffer ▸ htaken ▸ size_editAll empty edits
  have hcounted := CountedReader.visits (numbers edits)
  have hbounded := BoundedReader.visits (numbers edits)
  rw [← hbytes] at hcounted hbounded
  refine ⟨hbytes, hcounted.serves, hbounded.serves, fun count => ⟨?_, ?_, ?_⟩, ?_, ?_⟩
  · exact (congrArg CountedReader.cur (hcounted.rest_take count)).trans (boundary_min _ _)
  · exact (congrArg BoundedReader.cur (hbounded.rest_take count)).trans (boundary_min _ _)
  · rw [size, hbytes]
    exact boundary_le _ _
  · rw [hsize, Nat.zero_add]
  · exact fun pre suf => decode_between_iff pre suf buffer

/-- A number of two bytes, one of one byte put before it, and one of five bytes behind. -/
def sampleEdits : List Edit := [.append 300, .prepend 7, .append 4294967295]

def sampleBuffer : Buffer := ⟨#[7, 0xac, 2, 0xff, 0xff, 0xff, 0xff, 0x0f]⟩

/-- Asked four times, the reader gives out three numbers and refuses; the buffer is decoded from
between other bytes. -/
theorem serves_numbers_three :
    empty.editAll sampleEdits = (sampleBuffer, 8) ∧
    (take 4 (BoundedReader.ofBytes sampleBuffer.bytes)).values = [7, 300, 4294967295] ∧
    (take 4 (BoundedReader.ofBytes sampleBuffer.bytes)).fault? = some .pastBound ∧
    Buffer.decode (#[0x80] ++ sampleBuffer.encode ++ #[1, 2]) 1 =
      .ok (sampleBuffer, 1 + sampleBuffer.encode.size) := by
  have hedits : empty.editAll sampleEdits = (sampleBuffer, 8) := by decide +kernel
  obtain ⟨-, -, hserves, -, -, hstored⟩ := serves_numbers hedits
  have hsize : sampleBuffer.size < UInt32.size := by decide
  exact ⟨hedits, hserves.values_take 4, hserves.fault?_take 4,
    (hstored #[0x80] #[1, 2]).2 hsize⟩

end Buffer

end Concordance.Varint
