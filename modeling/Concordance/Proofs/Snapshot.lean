import Concordance.Proofs.Layout
import Concordance.Proofs.Table
import Concordance.Snapshot

/-!
# Stored snapshots are read back

Every part of a payload is read back, and behind its header the payload is found with the
size and the checksum that the header says; no other bytes have a header that is accepted.
The entries of the length table may have been stored in any order.
-/

namespace Concordance.Snapshot

open Layout Result

section
variable {bytes : Bytes}

theorem reads_config (bytes : Bytes) (config : Config) :
    Reads bytes (readConfig bytes) (writeConfig config) config := by
  simp only [writeConfig, Array.append_assoc]
  apply (reads_long bytes config.skipSpan).bind
  apply (reads_long bytes config.defaultResults).bind
  apply (reads_long bytes config.cacheSize).bind
  apply (reads_long bytes config.minTokenLen).bind
  apply (reads_long bytes config.maxTokenLen).bind
  exact (reads_flag bytes config.caseSensitive).map fun caseSensitive => { config with caseSensitive }

variable (hsize : bytes.size < UInt64.size)
include hsize

theorem reads_lengths {table : DocLengths} {entries : List (UInt32 × UInt32)}
    (hperm : entries.Perm table.lengths.toList) :
    Reads bytes (readLengths bytes) (writeLengths table entries) table := by
  have hentries : Reads bytes (readList bytes do return (← readWord bytes, ← readWord bytes))
      (writeList (fun entry => writeWord entry.1 ++ writeWord entry.2) entries) entries := by
    apply reads_list hsize
    · rintro ⟨docId, length⟩
      have hdocId : (writeWord docId).size = 4 := size_writeNat 4 docId.toNat
      simp only [Array.size_append, hdocId]
      omega
    · rintro ⟨docId, length⟩ -
      exact (reads_word bytes docId).bind ((reads_word bytes length).map fun length => (docId, length))
  simp only [writeLengths, Array.append_assoc]
  apply hentries.bind
  apply (reads_long bytes table.average.bits).bind
  apply (reads_option (reads_word bytes) table.lastDocId?).bind_pure
  rw [Table.foldl_insert_of_perm_toList hperm]

theorem reads_payload {snapshot : Snapshot} {entries : List (UInt32 × UInt32)}
    (hperm : entries.Perm snapshot.lengths.lengths.toList) :
    Reads bytes (readPayload bytes) (snapshot.writePayload entries) snapshot := by
  simp only [writePayload, Array.append_assoc]
  apply (reads_config bytes snapshot.config).bind
  apply (reads_word bytes snapshot.nextDocId).bind
  apply (reads_lengths hsize hperm).bind
  have hpostings : Reads bytes (readList bytes do return (← readText bytes, ← readBytes bytes))
      (writeList (fun entry => writeText entry.1 ++ writeBytes entry.2) snapshot.postings)
      snapshot.postings := by
    apply reads_list hsize
    · rintro ⟨term, list⟩
      simp only [Array.size_append, size_writeBytes]
      omega
    · rintro ⟨term, list⟩ -
      exact (reads_text hsize term).bind ((reads_bytes hsize list).map fun list => (term, list))
  exact hpostings.map fun postings => { snapshot with postings }

end

theorem headerField_of_at {bytes : Bytes} {start width value : Nat}
    (hat : bytes.At start (writeNat width value)) (hsize : start + width ≤ bytes.size)
    (hvalue : value < 256 ^ width) : headerField bytes start width = value := by
  have hextract := Bytes.extract_of_at hat (by rwa [size_writeNat])
  rw [size_writeNat] at hextract
  rw [headerField, hextract]
  exact ofLittleEndian_littleEndian hvalue

theorem size_addHeader (payload : Bytes) : (addHeader payload).size = headerSize + payload.size := by
  simp only [addHeader, Array.size_append, writeWord, size_writeNat, size_writeCount]
  rfl

/-- The lists and the length table take up the stored form, and less than a hundred bytes else. -/
theorem size_encode_le (snapshot : Snapshot) :
    snapshot.encode.size ≤ 98 + 8 * snapshot.lengths.lengths.toList.length +
      snapshot.postings.foldr (fun entry size =>
        8 + entry.1.toUTF8.data.size + (8 + entry.2.size) + size) 0 := by
  have hword (word : UInt32) : (writeWord word).size = 4 := size_writeNat 4 word.toNat
  have hlong (word : UInt64) : (writeLong word).size = 8 := size_writeNat 8 word.toNat
  have hflag (flag : Bool) : (writeFlag flag).size = 1 := rfl
  have hlast : (writeOption writeWord snapshot.lengths.lastDocId?).size ≤ 5 := by
    cases snapshot.lengths.lastDocId? <;> simp [writeOption, writeByte, hword]
  simp only [encode, encodeIn, size_addHeader, headerSize, writePayload, writeConfig, writeLengths,
    writeList, writeText, Array.size_append, size_writeCount, size_writeBytes, size_writeItems,
    hword, hlong, hflag]
  have hentries : snapshot.lengths.lengths.toList.foldr (fun _ size => 4 + 4 + size) 0 =
      8 * snapshot.lengths.lengths.toList.length := by
    induction snapshot.lengths.lengths.toList with
    | nil => rfl
    | cons _ entries ih =>
        rw [List.foldr_cons, ih, List.length_cons]
        omega
  omega

/-- Where the parts of a header lie, and the payload behind them. -/
theorem at_addHeader (payload : Bytes) :
    (addHeader payload).At 0 mark ∧ (addHeader payload).At 8 (writeWord version) ∧
      (addHeader payload).At 12 (writeWord (Checksum.compute payload)) ∧
      (addHeader payload).At 16 (writeCount payload.size) ∧
      (addHeader payload).At headerSize payload := by
  obtain ⟨bytes, hbytes⟩ : ∃ bytes, bytes = addHeader payload := ⟨_, rfl⟩
  have hat : bytes.At 0 (addHeader payload) := by
    rw [hbytes]
    intro i _
    rw [Nat.zero_add]
  have hmarkSize : mark.size = 8 := rfl
  simp only [addHeader, Bytes.at_append_iff, Array.size_append, hmarkSize, writeWord,
    size_writeNat, size_writeCount, Nat.zero_add, Nat.reduceAdd] at hat
  obtain ⟨⟨⟨⟨hatMark, hatVersion⟩, hatChecksum⟩, hatCount⟩, hatPayload⟩ := hat
  rw [← hbytes]
  exact ⟨hatMark, hatVersion, hatChecksum, hatCount, hatPayload⟩

/-- The payload is found behind its header. -/
theorem stripHeader_addHeader {payload : Bytes} (hsize : payload.size < UInt64.size) :
    stripHeader (addHeader payload) = .ok payload := by
  obtain ⟨hatMark, hatVersion, hatChecksum, hatCount, hatPayload⟩ := at_addHeader payload
  have hwhole := size_addHeader payload
  have hlong : ¬ (addHeader payload).size < headerSize := by omega
  have hpayload : (addHeader payload).extract headerSize (addHeader payload).size = payload := by
    rw [hwhole]
    exact Bytes.extract_of_at hatPayload (Nat.le_of_eq hwhole.symm)
  rw [headerSize] at hwhole
  have hmarkSize : mark.size = 8 := rfl
  have hmark : (addHeader payload).extract 0 8 = mark :=
    Bytes.extract_of_at hatMark (by rw [hmarkSize]; omega)
  have hversion : headerField (addHeader payload) 8 4 = version.toNat :=
    headerField_of_at hatVersion (by omega) version.toNat_lt
  have hchecksum : headerField (addHeader payload) 12 4 = (Checksum.compute payload).toNat :=
    headerField_of_at hatChecksum (by omega) (Checksum.compute payload).toNat_lt
  have hcount : headerField (addHeader payload) 16 8 = payload.size :=
    headerField_of_at hatCount (by omega) hsize
  rw [stripHeader]
  simp only [if_neg hlong, hmark, hversion, hchecksum, hcount, hpayload, Nat.toUInt32_eq,
    UInt32.ofNat_toNat, ne_eq, not_true_eq_false, if_false, Checksum.verify, if_true, ok_bind,
    pure_eq_ok]

section
variable {bytes payload : Bytes} {start : Nat}

theorem headerField_lt {width : Nat} (hsize : start + width ≤ bytes.size) :
    headerField bytes start width < 256 ^ width := by
  have hlt := ofLittleEndian_lt (bytes.extract start (start + width)).toList
  rwa [Array.length_toList, Array.size_extract, Nat.min_eq_left hsize, Nat.add_sub_cancel_left]
    at hlt

/-- The bytes of a field are those that its number is written in. -/
theorem writeNat_headerField {width : Nat} (hsize : start + width ≤ bytes.size) :
    writeNat width (headerField bytes start width) = bytes.extract start (start + width) := by
  rw [writeNat, ← Array.toList_inj]
  apply eq_of_ofLittleEndian_eq
  · rw [length_littleEndian, Array.length_toList, Array.size_extract]
    omega
  · exact ofLittleEndian_littleEndian (headerField_lt hsize)

theorem writeWord_headerField (hsize : start + 4 ≤ bytes.size) :
    writeWord (headerField bytes start 4).toUInt32 = bytes.extract start (start + 4) := by
  rw [writeWord, Nat.toUInt32_eq, UInt32.toNat_ofNat_of_lt' (headerField_lt hsize),
    writeNat_headerField hsize]

theorem verify_eq_ok_iff {expected : UInt32} :
    Checksum.verify payload expected = .ok () ↔ Checksum.compute payload = expected := by
  rw [Checksum.verify]
  split
  · next heq => simp [heq]
  · next hne => simp [hne]

/-- A header is accepted before its own payload only. -/
theorem stripHeader_eq_ok_iff :
    stripHeader bytes = .ok payload ↔ payload.size < UInt64.size ∧ bytes = addHeader payload := by
  refine ⟨fun h => ?_, fun ⟨hsize, hbytes⟩ => hbytes ▸ stripHeader_addHeader hsize⟩
  simp only [stripHeader, throw_eq_error, error_bind, ite_error_eq_ok_iff, bind_eq_ok_iff,
    pure_eq_ok, not_not, Except.ok.injEq] at h
  obtain ⟨hlong, hmark, hversion, hcount, ⟨⟩, hchecksum, hpayload⟩ := h
  rw [verify_eq_ok_iff] at hchecksum
  rw [hpayload] at hcount hchecksum
  rw [headerSize] at hlong hpayload
  have hversionField : bytes.extract 8 12 = writeWord version := by
    rw [← hversion, writeWord_headerField (by omega)]
  have hchecksumField : bytes.extract 12 16 = writeWord (Checksum.compute payload) := by
    rw [hchecksum, writeWord_headerField (by omega)]
  have hcountField : bytes.extract 16 24 = writeCount payload.size := by
    rw [hcount, writeCount, writeNat_headerField (by omega)]
  refine ⟨by rw [hcount]; exact headerField_lt (by omega), ?_⟩
  calc
    bytes = bytes.extract 0 8 ++ bytes.extract 8 12 ++ bytes.extract 12 16 ++
        bytes.extract 16 24 ++ bytes.extract 24 bytes.size := by
      have hwhole : max 24 bytes.size = bytes.size := by omega
      simp [Array.extract_append_extract, hwhole]
    _ = addHeader payload := by
      rw [addHeader, hmark, hversionField, hchecksumField, hcountField, hpayload]

end

/-- What is stored is decoded to the snapshot, whatever order its length table is stored in. -/
theorem decode_encodeIn {snapshot : Snapshot} {entries : List (UInt32 × UInt32)}
    (hperm : entries.Perm snapshot.lengths.lengths.toList)
    (hsize : (snapshot.writePayload entries).size < UInt64.size) :
    decode (snapshot.encodeIn entries) = .ok snapshot := by
  have hread := reads_payload hsize hperm 0 (fun i _ => by rw [Nat.zero_add])
    (by rw [Nat.zero_add])
  rw [decode, encodeIn, stripHeader_addHeader hsize, ok_bind]
  simp only [StateT.run, hread, pure_eq_ok]

/-- What is stored is decoded to the snapshot, in whatever order the entries of its length table
are stored, as long as the size of the payload is a number that its header has room for. -/
theorem decode_encodeIn_iff {snapshot : Snapshot} {entries : List (UInt32 × UInt32)}
    (hperm : entries.Perm snapshot.lengths.lengths.toList) :
    decode (snapshot.encodeIn entries) = .ok snapshot ↔
      (snapshot.writePayload entries).size < UInt64.size := by
  refine ⟨?_, decode_encodeIn hperm⟩
  intro h
  obtain ⟨payload, hstrip, -⟩ := bind_eq_ok_iff.1 h
  obtain ⟨hsize, hbytes⟩ := stripHeader_eq_ok_iff.1 hstrip
  have hwhole := congrArg Array.size hbytes
  rw [encodeIn, size_addHeader, size_addHeader] at hwhole
  omega

/-- A snapshot with lengths of two documents, an average that is no number, and a term that has
two stored lists, one of them without bytes. -/
def oddSnapshot : Snapshot where
  config := { skipSpan := 18446744073709551615, caseSensitive := true }
  nextDocId := 3
  lengths := ⟨(∅ : Std.ExtTreeMap UInt32 UInt32).insert 7 5 |>.insert 2 4294967295,
    ⟨0x7ff8000000000001⟩, some 9⟩
  postings := [("é", #[0, 255]), ("é", #[])]

/-- The entries come in another order than that of the table. -/
theorem decode_encodeIn_iff_odd :
    [(7, 5), (2, 4294967295)].Perm oddSnapshot.lengths.lengths.toList ∧
      decode (oddSnapshot.encodeIn [(7, 5), (2, 4294967295)]) = .ok oddSnapshot := by
  have hentries : oddSnapshot.lengths.lengths.toList = [(2, 4294967295), (7, 5)] := by
    decide +kernel
  have hperm : [(7, 5), (2, 4294967295)].Perm oddSnapshot.lengths.lengths.toList := by
    rw [hentries]
    exact List.Perm.swap ..
  exact ⟨hperm, (decode_encodeIn_iff hperm).2 (by decide +kernel)⟩

end Concordance.Snapshot
