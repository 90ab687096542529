import Concordance.Proofs.RoundTrip
import Concordance.Snapshot.Layout

/-!
# Stored values are read back

A reader takes a value back wherever it is written, and stands behind it then; `Reads`
says so of one reader, and there is a lemma for each way to put readers together. Counts
and lengths have 64 bits, which is enough within bytes that are no more than that.
-/

namespace Concordance.Layout
variable {α β : Type} {bytes : Bytes}

/-- Wherever this is written in the bytes, the reader takes the value and moves behind it. -/
def Reads (bytes : Bytes) (read : Reader α) (written : Bytes) (value : α) : Prop :=
  ∀ cur, bytes.At cur written → cur + written.size ≤ bytes.size →
    read cur = some (value, cur + written.size)

theorem length_littleEndian (width value : Nat) : (littleEndian width value).length = width := by
  induction width generalizing value with
  | zero => rfl
  | succ width ih => rw [littleEndian, List.length_cons, ih]

/-- A number that the bytes have room for comes back. -/
theorem ofLittleEndian_littleEndian {width value : Nat} (h : value < 256 ^ width) :
    ofLittleEndian (littleEndian width value) = value := by
  induction width generalizing value with
  | zero => rw [littleEndian, ofLittleEndian, Nat.lt_one_iff.1 h]
  | succ width ih =>
      have hrest : value / 256 < 256 ^ width := Nat.div_lt_of_lt_mul (by rwa [← Nat.pow_succ'])
      have hbyte : (value % 256).toUInt8.toNat = value % 256 :=
        UInt8.toNat_ofNat_of_lt' (Nat.mod_lt _ (by decide))
      rw [littleEndian, ofLittleEndian, ih hrest, hbyte, Nat.mod_add_div]

theorem ofLittleEndian_lt (bytes : List UInt8) : ofLittleEndian bytes < 256 ^ bytes.length := by
  induction bytes with
  | nil => exact Nat.one_pos
  | cons byte bytes ih =>
      have hbyte := byte.toNat_lt
      rw [ofLittleEndian, List.length_cons, Nat.pow_succ]
      omega

/-- Equally many bytes of the same number are the same. -/
theorem eq_of_ofLittleEndian_eq {bytes others : List UInt8} (hlength : bytes.length = others.length)
    (h : ofLittleEndian bytes = ofLittleEndian others) : bytes = others := by
  induction bytes generalizing others with
  | nil => exact (List.length_eq_zero_iff.1 hlength.symm).symm
  | cons byte bytes ih =>
      cases others with
      | nil => cases hlength
      | cons other others =>
          have hbyte := byte.toNat_lt
          have hother := other.toNat_lt
          simp only [ofLittleEndian] at h
          have hfirst : byte = other := UInt8.toNat_inj.1 (by omega)
          rw [hfirst, ih (Nat.succ.inj hlength) (by omega)]

theorem size_writeNat (width value : Nat) : (writeNat width value).size = width :=
  length_littleEndian width value

theorem size_writeCount (count : Nat) : (writeCount count).size = 8 := size_writeNat 8 count

theorem size_writeBytes (part : Bytes) : (writeBytes part).size = 8 + part.size := by
  rw [writeBytes, Array.size_append, size_writeCount]

theorem reads_pure (bytes : Bytes) (value : α) : Reads bytes (pure value) #[] value := by
  intro cur _ _
  rfl

/-- What is written one after the other is read one after the other. -/
theorem Reads.bind {read : Reader α} {next : α → Reader β} {first second : Bytes} {a : α} {b : β}
    (h : Reads bytes read first a) (hnext : Reads bytes (next a) second b) :
    Reads bytes (read >>= next) (first ++ second) b := by
  intro cur hat hle
  obtain ⟨hfirst, hsecond⟩ := Bytes.at_append_iff.1 hat
  rw [Array.size_append] at hle ⊢
  have hread := h cur hfirst (by omega)
  change (read cur >>= fun found => next found.1 found.2) = _
  rw [hread, ← Nat.add_assoc]
  exact hnext _ hsecond (by omega)

/-- After the last bytes, what was read decides the value. -/
theorem Reads.bind_pure {read : Reader α} {next : α → Reader β} {written : Bytes} {a : α} {b : β}
    (h : Reads bytes read written a) (hnext : next a = pure b) :
    Reads bytes (read >>= next) written b := by
  have hbind := h.bind (hnext ▸ reads_pure bytes b)
  rwa [Array.append_empty] at hbind

theorem Reads.map {read : Reader α} {written : Bytes} {a : α} (h : Reads bytes read written a)
    (f : α → β) : Reads bytes (read >>= fun value => pure (f value)) written (f a) :=
  h.bind_pure rfl

theorem reads_raw (bytes part : Bytes) : Reads bytes (readRaw bytes part.size) part part := by
  intro cur hat hle
  rw [readRaw, if_pos hle, Bytes.extract_of_at hat hle]

theorem reads_nat (bytes : Bytes) {width value : Nat} (h : value < 256 ^ width) :
    Reads bytes (readNat bytes width) (writeNat width value) value := by
  have hraw := reads_raw bytes (writeNat width value)
  rw [size_writeNat] at hraw
  exact hraw.bind_pure (congrArg pure (ofLittleEndian_littleEndian h))

theorem reads_word (bytes : Bytes) (word : UInt32) :
    Reads bytes (readWord bytes) (writeWord word) word :=
  (reads_nat bytes word.toNat_lt).bind_pure (congrArg pure UInt32.ofNat_toNat)

theorem reads_long (bytes : Bytes) (word : UInt64) :
    Reads bytes (readLong bytes) (writeLong word) word :=
  (reads_nat bytes word.toNat_lt).bind_pure (congrArg pure UInt64.ofNat_toNat)

theorem reads_count (bytes : Bytes) {count : Nat} (h : count < UInt64.size) :
    Reads bytes (readNat bytes 8) (writeCount count) count :=
  reads_nat bytes h

theorem reads_flag (bytes : Bytes) (flag : Bool) :
    Reads bytes (readFlag bytes) (writeFlag flag) flag := by
  cases flag with
  | false =>
      have hbyte : Reads bytes (readNat bytes 1) (writeNat 1 0) 0 := reads_nat bytes (by decide)
      exact hbyte.bind_pure rfl
  | true =>
      have hbyte : Reads bytes (readNat bytes 1) (writeNat 1 1) 1 := reads_nat bytes (by decide)
      exact hbyte.bind_pure rfl

/-- A value that may be missing is read back if it is read back where it is there. -/
theorem reads_option {read : Reader α} {write : α → Bytes}
    (h : ∀ value, Reads bytes read (write value) value) (value? : Option α) :
    Reads bytes (readOption bytes read) (writeOption write value?) value? := by
  cases value? with
  | none => exact (reads_flag bytes false).bind_pure rfl
  | some value => exact (reads_flag bytes true).bind ((h value).map some)

/-- Items that are read back one by one are read back in a row. -/
theorem reads_items {read : Reader α} {write : α → Bytes} {items : List α}
    (h : ∀ item ∈ items, Reads bytes read (write item) item) :
    Reads bytes (readItems read items.length) (writeItems write items) items := by
  induction items with
  | nil => exact reads_pure bytes []
  | cons item items ih =>
      rw [List.forall_mem_cons] at h
      exact h.1.bind ((ih h.2).map fun rest => item :: rest)

theorem size_writeItems (write : α → Bytes) (items : List α) :
    (writeItems write items).size =
      items.foldr (fun item size => (write item).size + size) 0 := by
  induction items with
  | nil => rfl
  | cons item items ih => rw [writeItems, Array.size_append, ih, List.foldr_cons]

theorem length_le_size_writeItems {write : α → Bytes} (hpos : ∀ item, 0 < (write item).size)
    (items : List α) : items.length ≤ (writeItems write items).size := by
  induction items with
  | nil => exact Nat.le_refl 0
  | cons item items ih =>
      have := hpos item
      rw [writeItems, List.length_cons, Array.size_append]
      omega

/-! Within bytes whose count has 64 bits, no part has a length or a count of more. -/
section
variable (hsize : bytes.size < UInt64.size)
include hsize

theorem reads_bytes (part : Bytes) : Reads bytes (readBytes bytes) (writeBytes part) part := by
  intro cur hat hle
  have hwritten := size_writeBytes part
  have hcount : part.size < UInt64.size := by omega
  exact (reads_count bytes hcount).bind (reads_raw bytes part) cur hat hle

theorem reads_text (text : String) : Reads bytes (readText bytes) (writeText text) text := by
  have hvalid : String.fromUTF8? ⟨text.toUTF8.data⟩ = some text := dif_pos text.isValidUTF8
  apply (reads_bytes hsize text.toUTF8.data).bind_pure
  rw [hvalid]

/-- A list of items that take a byte at least is read back if each of them is. -/
theorem reads_list {read : Reader α} {write : α → Bytes} {items : List α}
    (hpos : ∀ item, 0 < (write item).size)
    (h : ∀ item ∈ items, Reads bytes read (write item) item) :
    Reads bytes (readList bytes read) (writeList write items) items := by
  intro cur hat hle
  have hlength := length_le_size_writeItems hpos items
  have hwritten : (writeList write items).size = 8 + (writeItems write items).size := by
    rw [writeList, Array.size_append, size_writeCount]
  have hcount : items.length < UInt64.size := by omega
  exact (reads_count bytes hcount).bind (reads_items h) cur hat hle

end

end Concordance.Layout
