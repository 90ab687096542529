import Concordance.Proofs.Posting

/-!
# Reading postings back

`Header.Describes` says that a header and the regions it points to are those of a
posting. `Header.Written` says more: the posting lies in the data in numbers that can be
decoded one inside the other, the occurrences inside the posting and the posting inside
the data. What is written of a posting has such a header, and such a header is what a
reader without checks finds. Both stay true where bytes are added behind.

A posting whose size takes more than 32 bits is written with the low ones of them. Its
header does not say where it ends, but still names it: `Header.Names`.
-/

namespace Concordance.PostingList

open Result Posting PopStream

/-- The header has the numbers of the posting, and shows its offset pairs unless the size of
these was cut. -/
structure Header.Names (header : Header) (data : Bytes) (posting : Posting) : Prop where
  docId_eq : header.docId = posting.docId
  termFreq_eq : header.termFreq = posting.termFreq
  offsets : posting.OffsetsSized →
    Gives (OffsetReader.ofRegion data header.offsetsStart header.offsetsStop) posting.offsets

/-- The header is that of the posting, and its regions hold the posting's occurrences. -/
structure Header.Describes (header : Header) (data : Bytes) (posting : Posting) : Prop where
  docId_eq : header.docId = posting.docId
  termFreq_eq : header.termFreq = posting.termFreq
  offsets : Gives (OffsetReader.ofRegion data header.offsetsStart header.offsetsStop)
    posting.offsets
  positions : Gives (PositionReader.ofRegion data header.offsetsStop header.next)
    posting.positions

theorem Header.Describes.names {header : Header} {data : Bytes} {posting : Posting}
    (h : header.Describes data posting) : header.Names data posting where
  docId_eq := h.docId_eq
  termFreq_eq := h.termFreq_eq
  offsets := fun _ => h.offsets

theorem Header.Names.append {header : Header} {data : Bytes} {posting : Posting}
    (h : header.Names data posting) (more : Bytes) : header.Names (data ++ more) posting where
  docId_eq := h.docId_eq
  termFreq_eq := h.termFreq_eq
  offsets := fun hsized => OffsetReader.Gives.append more (h.offsets hsized)

theorem Header.Describes.append {header : Header} {data : Bytes} {posting : Posting}
    (h : header.Describes data posting) (more : Bytes) :
    header.Describes (data ++ more) posting where
  docId_eq := h.docId_eq
  termFreq_eq := h.termFreq_eq
  offsets := OffsetReader.Gives.append more h.offsets
  positions := PositionReader.Gives.append more h.positions

theorem readHeader_eq_ok_iff {data : Bytes} {previousDocId : UInt32} {offset : Nat}
    {header : Header} :
    readHeader data previousDocId offset = .ok header ↔
      ∃ contentSize content delta first second offsetsSize,
        Varint.read data data.size offset = .ok (contentSize, content) ∧
        Varint.read data data.size content = .ok (delta, first) ∧
        Varint.read data data.size first = .ok (header.termFreq, second) ∧
        Varint.read data data.size second = .ok (offsetsSize, header.offsetsStart) ∧
        Word.sum previousDocId delta = .ok header.docId ∧
        header.offsetsStop = header.offsetsStart + offsetsSize.toNat ∧
        header.next = content + contentSize.toNat := by
  simp only [readHeader, bind_eq_ok_iff, pure_eq_ok, Except.ok.injEq, Prod.exists]
  constructor
  · rintro ⟨contentSize, content, h1, delta, first, h2, termFreq, second, h3, offsetsSize, start,
      h4, docId, h5, rfl⟩
    exact ⟨contentSize, content, delta, first, second, offsetsSize, h1, h2, h3, h4, h5, rfl, rfl⟩
  · rintro ⟨contentSize, content, delta, first, second, offsetsSize, h1, h2, h3, h4, h5, hstop,
      hnext⟩
    refine ⟨contentSize, content, h1, delta, first, h2, _, second, h3, offsetsSize, _, h4, _, h5,
      ?_⟩
    rw [← hstop, ← hnext]

theorem readHeader_append {data : Bytes} {previousDocId : UInt32} {offset : Nat}
    {header : Header} (h : readHeader data previousDocId offset = .ok header) (more : Bytes) :
    readHeader (data ++ more) previousDocId offset = .ok header := by
  rw [readHeader_eq_ok_iff] at h ⊢
  obtain ⟨contentSize, content, delta, first, second, offsetsSize, h1, h2, h3, h4, h⟩ := h
  have hle : data.size ≤ (data ++ more).size := by
    rw [Array.size_append]
    omega
  refine ⟨contentSize, content, delta, first, second, offsetsSize, ?_, ?_, ?_, ?_, h⟩
  · exact Varint.read_append h1 hle
  · exact Varint.read_append h2 hle
  · exact Varint.read_append h3 hle
  · exact Varint.read_append h4 hle

/-- The sizes in a header are words, and so are the numbers of pairs and positions. -/
theorem Header.Describes.lengths_lt {header : Header} {data : Bytes} {posting : Posting}
    (h : header.Describes data posting) {previousDocId : UInt32} {offset : Nat}
    (hread : PostingList.readHeader data previousDocId offset = .ok header) :
    posting.offsets.length < UInt32.size ∧ posting.positions.length < UInt32.size := by
  obtain ⟨contentSize, content, delta, first, second, offsetsSize, -, h2, h3, h4, -, hstop,
    hnext⟩ :=
    readHeader_eq_ok_iff.1 hread
  have hoffsets := offsetsSize.toNat_lt
  have hcontent := contentSize.toNat_lt
  constructor
  · calc
      posting.offsets.length ≤ header.offsetsStop - header.offsetsStart := h.offsets.length_le
      _ = offsetsSize.toNat := by omega
      _ < UInt32.size := hoffsets
  · have := Varint.lt_of_read h2
    have := Varint.lt_of_read h3
    have := Varint.lt_of_read h4
    calc
      posting.positions.length ≤ header.next - header.offsetsStop := h.positions.length_le
      _ ≤ contentSize.toNat := by omega
      _ < UInt32.size := hcontent

/-- The posting lies at `cur` in numbers that can be decoded, with `delta` in place of its
document id and with this header. -/
structure Header.Written (header : Header) (data : Bytes) (cur : Nat) (delta : UInt32)
    (posting : Posting) : Prop where
  docId_eq : header.docId = posting.docId
  termFreq_eq : header.termFreq = posting.termFreq
  numbers : ∃ contentSize content first second offsetsSize,
    Varint.decode data data.size cur = .ok (contentSize, content) ∧
    Varint.decode data header.next content = .ok (delta, first) ∧
    Varint.decode data header.next first = .ok (header.termFreq, second) ∧
    Varint.decode data header.next second = .ok (offsetsSize, header.offsetsStart) ∧
    header.offsetsStop = header.offsetsStart + offsetsSize.toNat ∧
    header.next = content + contentSize.toNat
  offsetsStop_le : header.offsetsStop ≤ header.next
  next_le : header.next ≤ data.size
  offsets : OffsetRegion data header.offsetsStop header.offsetsStart 0 posting.offsets
  positions : PositionRegion data header.next header.offsetsStop 0 posting.positions

namespace Header.Written
variable {header : Header} {data : Bytes} {cur : Nat} {delta : UInt32} {posting : Posting}

/-- A posting takes at least the four numbers before its regions. -/
theorem add_four_le (h : header.Written data cur delta posting) : cur + 4 ≤ header.next := by
  obtain ⟨contentSize, content, first, second, offsetsSize, h1, h2, h3, h4, -, -⟩ := h.numbers
  have := Varint.lt_of_decode h1
  have := Varint.lt_of_decode h2
  have := Varint.lt_of_decode h3
  have := Varint.lt_of_decode h4
  omega

theorem describes (h : header.Written data cur delta posting) :
    header.Describes data posting where
  docId_eq := h.docId_eq
  termFreq_eq := h.termFreq_eq
  offsets := h.offsets.gives (Nat.le_trans h.offsetsStop_le h.next_le)
  positions := h.positions.gives h.next_le

/-- The occurrences of a posting that lies in the data are in order. -/
theorem check (h : header.Written data cur delta posting) : posting.check = .ok () :=
  check_eq_ok_iff.2 ⟨h.offsets.check _, h.positions.check _⟩

/-- The header of a posting in the data is read without checks. -/
theorem readHeader (h : header.Written data cur delta posting) {base : UInt32}
    (hsum : Word.sum base delta = .ok posting.docId) :
    PostingList.readHeader data base cur = .ok header := by
  obtain ⟨contentSize, content, first, second, offsetsSize, h1, h2, h3, h4, hstop, hnext⟩ :=
    h.numbers
  have := Varint.lt_of_decode h2
  have := Varint.lt_of_decode h3
  have := Varint.lt_of_decode h4
  have hle := h.next_le
  apply readHeader_eq_ok_iff.mpr
  refine ⟨contentSize, content, delta, first, second, offsetsSize, ?_, ?_, ?_, ?_, ?_, hstop,
    hnext⟩
  · exact Varint.read_of_decode h1 (Varint.lt_of_decode h1).2
  · exact Varint.read_of_decode h2 (by omega)
  · exact Varint.read_of_decode h3 (by omega)
  · exact Varint.read_of_decode h4 (by omega)
  · rw [hsum, h.docId_eq]

theorem append (h : header.Written data cur delta posting) (more : Bytes) :
    header.Written (data ++ more) cur delta posting := by
  have hle : data.size ≤ (data ++ more).size := by
    rw [Array.size_append]
    omega
  obtain ⟨contentSize, content, first, second, offsetsSize, h1, h2, h3, h4, hregions⟩ := h.numbers
  constructor
  case docId_eq => exact h.docId_eq
  case termFreq_eq => exact h.termFreq_eq
  case numbers =>
      refine ⟨contentSize, content, first, second, offsetsSize, ?_, ?_, ?_, ?_, hregions⟩
      · exact Varint.decode_append h1 hle
      · exact Varint.decode_append h2 (Nat.le_refl _)
      · exact Varint.decode_append h3 (Nat.le_refl _)
      · exact Varint.decode_append h4 (Nat.le_refl _)
  case offsetsStop_le => exact h.offsetsStop_le
  case next_le => exact Nat.le_trans h.next_le hle
  case offsets => exact h.offsets.append more
  case positions => exact h.positions.append more

end Header.Written

/-- The parts of a posting that is written at the end of the data, whatever its size. -/
theorem exists_parts (data : Bytes) {content : Bytes} {posting : Posting} {delta : UInt32}
    (hcontent : posting.content delta = .ok content) {whole : Bytes}
    (hwhole : whole = data ++ (Varint.encode content.size.toUInt32 ++ content)) :
    ∃ start first second offsetsStart offsets positions,
      encodeOffsets 0 posting.offsets = .ok offsets ∧
      encodePositions 0 posting.positions = .ok positions ∧
      Varint.decode whole whole.size data.size = .ok (content.size.toUInt32, start) ∧
      Varint.decode whole whole.size start = .ok (delta, first) ∧
      Varint.decode whole whole.size first = .ok (posting.termFreq, second) ∧
      Varint.decode whole whole.size second = .ok (offsets.size.toUInt32, offsetsStart) ∧
      whole.At offsetsStart offsets ∧ whole.At (offsetsStart + offsets.size) positions ∧
      start + content.size = whole.size ∧
      offsetsStart + offsets.size + positions.size = whole.size := by
  simp only [Posting.content, bind_eq_ok_iff, pure_eq_ok, Except.ok.injEq] at hcontent
  obtain ⟨offsets, hoffsets, positions, hpositions, hcontent⟩ := hcontent
  have hat := Bytes.at_size_append data (Varint.encode content.size.toUInt32 ++ content)
  have hsize : whole.size = data.size + (Varint.encode content.size.toUInt32).size
      + content.size := by
    rw [hwhole, Array.size_append, Array.size_append, Nat.add_assoc]
  rw [← hwhole] at hat
  obtain ⟨hatSize, hat⟩ := Bytes.at_append_iff.1 hat
  have hdecode := Varint.decode_encode hatSize whole.size (by omega)
  have hlen : content.size = (Varint.encode delta).size + (Varint.encode posting.termFreq).size
      + (Varint.encode offsets.size.toUInt32).size + offsets.size + positions.size := by
    simp only [← hcontent, Array.size_append]
  generalize content.size.toUInt32 = count at *
  rw [← hcontent] at hat
  obtain ⟨hat, hatPositions⟩ := Bytes.at_append_iff.1 hat
  obtain ⟨hat, hatOffsets⟩ := Bytes.at_append_iff.1 hat
  obtain ⟨hat, hatOffsetsSize⟩ := Bytes.at_append_iff.1 hat
  obtain ⟨hatDelta, hatTermFreq⟩ := Bytes.at_append_iff.1 hat
  simp only [Array.size_append, ← Nat.add_assoc] at hatPositions hatOffsets hatOffsetsSize
  exact ⟨_, _, _, _, offsets, positions, hoffsets, hpositions, hdecode,
    Varint.decode_encode hatDelta whole.size (by omega),
    Varint.decode_encode hatTermFreq whole.size (by omega),
    Varint.decode_encode hatOffsetsSize whole.size (by omega), hatOffsets, hatPositions,
    hsize.symm, by omega⟩

/-- A posting written at the end of the data lies there, up to the end. -/
theorem exists_written (data : Bytes) {written : Bytes} {posting : Posting} {delta : UInt32}
    (hw : posting.encode delta = .ok written) (hsized : posting.Sized delta) :
    ∃ header : Header, header.Written (data ++ written) data.size delta posting ∧
      header.next = (data ++ written).size := by
  obtain ⟨content, hcontent, rfl⟩ := encode_eq_ok_iff.1 hw
  have hsize := hsized content hcontent
  generalize hwhole : data ++ (Varint.encode content.size.toUInt32 ++ content) = whole
  obtain ⟨start, first, second, offsetsStart, offsets, positions, hoffsets, hpositions, h1, h2, h3,
    h4, hatOffsets, hatPositions, hstart, hstop⟩ := exists_parts data hcontent hwhole.symm
  have := Varint.lt_of_decode h2
  have := Varint.lt_of_decode h3
  have := Varint.lt_of_decode h4
  have hcontentSize : content.size.toUInt32.toNat = content.size :=
    UInt32.toNat_ofNat_of_lt' hsize
  have hoffsetsSize : offsets.size.toUInt32.toNat = offsets.size :=
    UInt32.toNat_ofNat_of_lt' (by omega)
  refine ⟨⟨posting.docId, posting.termFreq, offsetsStart, offsetsStart + offsets.size,
    whole.size⟩, ?_, rfl⟩
  constructor
  case docId_eq => rfl
  case termFreq_eq => rfl
  case numbers =>
      refine ⟨_, start, _, _, offsets.size.toUInt32, h1, h2, h3, h4, ?_, ?_⟩
      · simp only [hoffsetsSize]
      · simp only [hcontentSize, hstart]
  case offsetsStop_le => simp only; omega
  case next_le => exact Nat.le_refl _
  case offsets => exact OffsetRegion.of_at hoffsets hatOffsets rfl
  case positions => exact PositionRegion.of_at hpositions hatPositions hstop

/-- A posting written at the end of the data is named by its header there, whatever its size. -/
theorem exists_header (data : Bytes) {written : Bytes} {posting : Posting}
    {previousDocId delta : UInt32} (hsum : Word.sum previousDocId delta = .ok posting.docId)
    (hw : posting.encode delta = .ok written) :
    ∃ header : Header, readHeader (data ++ written) previousDocId data.size = .ok header ∧
      header.Names (data ++ written) posting := by
  obtain ⟨content, hcontent, rfl⟩ := encode_eq_ok_iff.1 hw
  generalize hwhole : data ++ (Varint.encode content.size.toUInt32 ++ content) = whole
  obtain ⟨start, first, second, offsetsStart, offsets, positions, hoffsets, hpositions, h1, h2, h3,
    h4, hatOffsets, hatPositions, hstart, hstop⟩ := exists_parts data hcontent hwhole.symm
  refine ⟨⟨posting.docId, posting.termFreq, offsetsStart,
    offsetsStart + offsets.size.toUInt32.toNat, start + content.size.toUInt32.toNat⟩, ?_, rfl, rfl,
    ?_⟩
  · apply readHeader_eq_ok_iff.mpr
    exact ⟨_, start, delta, first, second, _, Varint.read_of_decode h1 (Varint.lt_of_decode h1).2,
      Varint.read_of_decode h2 (Varint.lt_of_decode h2).2,
      Varint.read_of_decode h3 (Varint.lt_of_decode h3).2,
      Varint.read_of_decode h4 (Varint.lt_of_decode h4).2, hsum, rfl, rfl⟩
  · intro hsized
    have hoffsetsSize : offsets.size.toUInt32.toNat = offsets.size :=
      UInt32.toNat_ofNat_of_lt' (hsized offsets hoffsets)
    simp only [hoffsetsSize]
    exact (OffsetRegion.of_at hoffsets hatOffsets rfl).gives (by omega)

end Concordance.PostingList
