import Concordance.PostingList.Cursor
import Concordance.Proofs.PopStream
import Concordance.Proofs.Result
import Concordance.Proofs.Varint

/-!
# Reading occurrences back

A posting whose occurrences are in order can be written, and what is written gives
its offset pairs and its positions back. What lies between two offsets of the data is
an `OffsetRegion` or a `PositionRegion`: the relation is between bytes that can be
decoded and the values they stand for, whoever wrote them. A region stays what it is
where bytes are added behind.
-/

namespace Concordance

open Result

namespace Posting

theorem checkOffsets_cons_eq_ok_iff {docId previousStop : UInt32} {pair : Span}
    {pairs : List Span} :
    checkOffsets docId previousStop (pair :: pairs) = .ok () ↔
      previousStop ≤ pair.start ∧ pair.start ≤ pair.stop ∧
        checkOffsets docId pair.stop pairs = .ok () := by
  rw [checkOffsets]
  split
  · next h =>
      simp only [reduceCtorEq, false_iff]
      rintro ⟨hstart, hstop, -⟩
      rcases h with h | h
      · exact UInt32.not_lt.2 hstart h
      · exact UInt32.not_lt.2 hstop h
  · next h =>
      obtain ⟨hstart, hstop⟩ := not_or.1 h
      simp [UInt32.not_lt.1 hstart, UInt32.not_lt.1 hstop]

theorem checkPositions_cons_eq_ok_iff {docId previous position : UInt32}
    {positions : List UInt32} :
    checkPositions docId previous (position :: positions) = .ok () ↔
      previous ≤ position ∧ checkPositions docId position positions = .ok () := by
  rw [checkPositions]
  split
  · next h => simp [UInt32.not_le.2 h]
  · next h => simp [UInt32.not_lt.1 h]

theorem check_eq_ok_iff {posting : Posting} :
    posting.check = .ok () ↔
      checkOffsets posting.docId 0 posting.offsets = .ok () ∧
        checkPositions posting.docId 0 posting.positions = .ok () := by
  rw [check, bind_eq_ok_iff]
  constructor
  · rintro ⟨_, hoffsets, hpositions⟩
    exact ⟨hoffsets, hpositions⟩
  · rintro ⟨hoffsets, hpositions⟩
    exact ⟨(), hoffsets, hpositions⟩

/-- The pairs are in order, without overlap, and none is before `previousStop`. -/
theorem checkOffsets_eq_ok_iff {docId previousStop : UInt32} {pairs : List Span} :
    checkOffsets docId previousStop pairs = .ok () ↔
      (∀ pair ∈ pairs, previousStop ≤ pair.start ∧ pair.start ≤ pair.stop) ∧
        pairs.Pairwise fun a b => a.stop ≤ b.start := by
  induction pairs generalizing previousStop with
  | nil => simp [checkOffsets]
  | cons pair pairs ih =>
      rw [checkOffsets_cons_eq_ok_iff, ih, List.forall_mem_cons, List.pairwise_cons]
      constructor
      · rintro ⟨hstart, hstop, hrest, hordered⟩
        refine ⟨⟨⟨hstart, hstop⟩, ?_⟩, fun other hm => (hrest other hm).1, hordered⟩
        intro other hm
        refine ⟨?_, (hrest other hm).2⟩
        calc
          previousStop ≤ pair.start := hstart
          _ ≤ pair.stop := hstop
          _ ≤ other.start := (hrest other hm).1
      · rintro ⟨⟨⟨hstart, hstop⟩, hrest⟩, hbehind, hordered⟩
        exact ⟨hstart, hstop, fun other hm => ⟨hbehind other hm, (hrest other hm).2⟩, hordered⟩

/-- The positions do not go down, and none is below `previous`. -/
theorem checkPositions_eq_ok_iff {docId previous : UInt32} {positions : List UInt32} :
    checkPositions docId previous positions = .ok () ↔
      (∀ position ∈ positions, previous ≤ position) ∧ positions.Pairwise (· ≤ ·) := by
  induction positions generalizing previous with
  | nil => simp [checkPositions]
  | cons position positions ih =>
      rw [checkPositions_cons_eq_ok_iff, ih, List.forall_mem_cons, List.pairwise_cons]
      constructor
      · rintro ⟨hle, hrest, hordered⟩
        exact ⟨⟨hle, fun other hm => UInt32.le_trans hle (hrest other hm)⟩, hrest, hordered⟩
      · rintro ⟨⟨hle, -⟩, hrest, hordered⟩
        exact ⟨hle, hrest, hordered⟩

theorem eq_sub_of_difference {a b delta : UInt32} (h : Word.difference a b = .ok delta) :
    delta = a - b := by
  rw [Word.difference_eq_ok_iff] at h
  apply UInt32.toNat_inj.1
  rw [UInt32.toNat_sub_of_le _ _ (UInt32.le_iff_toNat_le.2 (by omega))]
  omega

theorem difference_of_le {a b : UInt32} (h : b ≤ a) : Word.difference a b = .ok (a - b) := by
  rw [Word.difference_eq_ok_iff, UInt32.toNat_sub_of_le _ _ h]
  have := UInt32.le_iff_toNat_le.1 h
  omega

/-- The distances of pairs in order can be written. -/
theorem exists_encodeOffsets {docId previousStop : UInt32} {pairs : List Span}
    (h : checkOffsets docId previousStop pairs = .ok ()) :
    ∃ written, encodeOffsets previousStop pairs = .ok written := by
  induction pairs generalizing previousStop with
  | nil => exact ⟨_, rfl⟩
  | cons pair pairs ih =>
      obtain ⟨hstart, hstop, hrest⟩ := checkOffsets_cons_eq_ok_iff.1 h
      obtain ⟨rest, hrest⟩ := ih hrest
      simp [encodeOffsets, difference_of_le hstart, difference_of_le hstop, hrest]

/-- The distances of positions in order can be written. -/
theorem exists_encodePositions {docId previous : UInt32} {positions : List UInt32}
    (h : checkPositions docId previous positions = .ok ()) :
    ∃ written, encodePositions previous positions = .ok written := by
  induction positions generalizing previous with
  | nil => exact ⟨_, rfl⟩
  | cons position positions ih =>
      obtain ⟨hle, hrest⟩ := checkPositions_cons_eq_ok_iff.1 h
      obtain ⟨rest, hrest⟩ := ih hrest
      simp [encodePositions, difference_of_le hle, hrest]

/-- What is written of a posting is its content behind the size of that, in 32 bits. -/
theorem encode_eq_ok_iff {posting : Posting} {delta : UInt32} {written : Bytes} :
    posting.encode delta = .ok written ↔ ∃ content, posting.content delta = .ok content ∧
      written = Varint.encode content.size.toUInt32 ++ content := by
  simp only [encode, bind_eq_ok_iff, pure_eq_ok, Except.ok.injEq, eq_comm (b := written)]

/-- A posting in order can be written: none of its differences is negative. -/
theorem exists_content {posting : Posting} (h : posting.check = .ok ()) (delta : UInt32) :
    ∃ content, posting.content delta = .ok content := by
  obtain ⟨hoffsets, hpositions⟩ := check_eq_ok_iff.1 h
  obtain ⟨offsets, hoffsets⟩ := exists_encodeOffsets hoffsets
  obtain ⟨positions, hpositions⟩ := exists_encodePositions hpositions
  simp [content, hoffsets, hpositions]

/-- The size of the posting, written with `delta` in place of its document id, is a number of
32 bits. -/
def Sized (posting : Posting) (delta : UInt32) : Prop :=
  ∀ content, posting.content delta = .ok content → content.size < UInt32.size

/-- The size of the posting's offset pairs is a number of 32 bits. -/
def OffsetsSized (posting : Posting) : Prop :=
  ∀ bytes, encodeOffsets 0 posting.offsets = .ok bytes → bytes.size < UInt32.size

theorem offsetsSized_of_encodeOffsets {posting : Posting} {bytes : Bytes}
    (hbytes : encodeOffsets 0 posting.offsets = .ok bytes) (hsize : bytes.size < UInt32.size) :
    posting.OffsetsSized := by
  intro other hother
  rw [hbytes, Except.ok.injEq] at hother
  exact hother ▸ hsize

end Posting

open PopStream Posting

theorem sum_of_difference {a b gap : UInt32} (h : Word.difference a b = .ok gap) :
    Word.sum b gap = .ok a := by
  rw [Word.difference_eq_ok_iff] at h
  rw [Word.sum_eq_ok_iff]
  omega

/-- A pair is given out where two numbers can be read and added up inside the region. -/
theorem OffsetReader.pop_eq_ok_iff {reader rest : OffsetReader} {pair : Span} :
    pop reader = (.ok pair, rest) ↔
      ∃ gap middle length next,
        Varint.readRegion reader.bytes reader.stop reader.cur = .ok (gap, middle) ∧
        Varint.readRegion reader.bytes reader.stop middle = .ok (length, next) ∧
        Word.sum reader.previousStop gap = .ok pair.start ∧
        Word.sum pair.start length = .ok pair.stop ∧
        rest = ⟨reader.bytes, next, reader.stop, pair.stop⟩ := by
  constructor
  · intro h
    simp only [pop] at h
    split at h
    · cases h
    · split at h
      · cases h
      · next gap middle hgap =>
          split at h
          · cases h
          · next length next hlength =>
              split at h
              · cases h
              · next start hstart =>
                  split at h
                  · cases h
                  · next stop hstop =>
                      cases h
                      exact ⟨gap, middle, length, next, hgap, hlength, hstart, hstop, rfl⟩
  · rintro ⟨gap, middle, length, next, hgap, hlength, hstart, hstop, rfl⟩
    have hlt := Varint.lt_of_readRegion hgap
    have hlt' := Varint.lt_of_readRegion hlength
    simp only [pop]
    rw [if_neg (by omega)]
    simp only [hgap, hlength, hstart, hstop]

/-- A position is given out where a number can be read and added up inside the region. -/
theorem PositionReader.pop_eq_ok_iff {reader rest : PositionReader} {position : UInt32} :
    pop reader = (.ok position, rest) ↔
      ∃ gap next,
        Varint.readRegion reader.bytes reader.stop reader.cur = .ok (gap, next) ∧
        Word.sum reader.previous gap = .ok position ∧
        rest = ⟨reader.bytes, next, reader.stop, position⟩ := by
  constructor
  · intro h
    simp only [pop] at h
    split at h
    · cases h
    · split at h
      · cases h
      · next gap next hgap =>
          split at h
          · cases h
          · next position hposition =>
              cases h
              exact ⟨gap, next, hgap, hposition, rfl⟩
  · rintro ⟨gap, next, hgap, hposition, rfl⟩
    have hlt := Varint.lt_of_readRegion hgap
    simp only [pop]
    rw [if_neg (by omega)]
    simp only [hgap, hposition]

/-- From `cur` up to `stop` lie offset pairs, the first at a distance from `previousStop`, all
in numbers that can be decoded. -/
inductive OffsetRegion (data : Bytes) (stop : Nat) : Nat → UInt32 → List Span → Prop
  | nil {cur : Nat} {previousStop : UInt32} (hend : stop ≤ cur) :
      OffsetRegion data stop cur previousStop []
  | cons {cur middle next : Nat} {previousStop gap length : UInt32} {pair : Span}
      {pairs : List Span} (hgap : Varint.decode data stop cur = .ok (gap, middle))
      (hlength : Varint.decode data stop middle = .ok (length, next))
      (hstart : Word.sum previousStop gap = .ok pair.start)
      (hstop : Word.sum pair.start length = .ok pair.stop)
      (hrest : OffsetRegion data stop next pair.stop pairs) :
      OffsetRegion data stop cur previousStop (pair :: pairs)

/-- From `cur` up to `stop` lie positions, the first at a distance from `previous`, all in
numbers that can be decoded. -/
inductive PositionRegion (data : Bytes) (stop : Nat) : Nat → UInt32 → List UInt32 → Prop
  | nil {cur : Nat} {previous : UInt32} (hend : stop ≤ cur) :
      PositionRegion data stop cur previous []
  | cons {cur next : Nat} {previous gap position : UInt32} {positions : List UInt32}
      (hgap : Varint.decode data stop cur = .ok (gap, next))
      (hposition : Word.sum previous gap = .ok position)
      (hrest : PositionRegion data stop next position positions) :
      PositionRegion data stop cur previous (position :: positions)

/-- A number decoded in a region of the data is also read there. -/
theorem readRegion_of_decode {data : Bytes} {cur next stop : Nat} {value : UInt32}
    (h : Varint.decode data stop cur = .ok (value, next)) (hdata : stop ≤ data.size) :
    Varint.readRegion data stop cur = .ok (value, next) := by
  rw [Varint.readRegion_eq_read hdata]
  exact Varint.read_of_decode h (Varint.lt_of_decode h).2

theorem le_of_sum {a b c : UInt32} (h : Word.sum a b = .ok c) : a ≤ c := by
  rw [Word.sum_eq_ok_iff] at h
  exact UInt32.le_iff_toNat_le.2 (by omega)

namespace OffsetRegion
variable {data : Bytes} {cur stop : Nat} {previousStop : UInt32} {pairs : List Span}

/-- The offset pairs of a region are given out. -/
theorem gives (h : OffsetRegion data stop cur previousStop pairs) (hdata : stop ≤ data.size) :
    Gives (⟨data, cur, stop, previousStop⟩ : OffsetReader) pairs := by
  induction h with
  | nil hend =>
      simp only [Gives, remaining]
      omega
  | cons hgap hlength hstart hstop _ ih =>
      refine ⟨_, OffsetReader.pop_eq_ok_iff.2 ?_, ih⟩
      exact ⟨_, _, _, _, readRegion_of_decode hgap hdata, readRegion_of_decode hlength hdata,
        hstart, hstop, rfl⟩

/-- The offset pairs of a region are in order. -/
theorem check (h : OffsetRegion data stop cur previousStop pairs) (docId : UInt32) :
    checkOffsets docId previousStop pairs = .ok () := by
  induction h with
  | nil => rfl
  | cons _ _ hstart hstop _ ih =>
      apply checkOffsets_cons_eq_ok_iff.mpr
      exact ⟨le_of_sum hstart, le_of_sum hstop, ih⟩

theorem append (h : OffsetRegion data stop cur previousStop pairs) (more : Bytes) :
    OffsetRegion (data ++ more) stop cur previousStop pairs := by
  induction h with
  | nil hend => exact .nil hend
  | cons hgap hlength hstart hstop _ ih =>
      exact .cons (Varint.decode_append hgap (Nat.le_refl _))
        (Varint.decode_append hlength (Nat.le_refl _)) hstart hstop ih

/-- What is written of offset pairs is a region of them. -/
theorem of_at {written : Bytes} (hw : encodeOffsets previousStop pairs = .ok written)
    (hat : data.At cur written) (hstop : cur + written.size = stop) :
    OffsetRegion data stop cur previousStop pairs := by
  induction pairs generalizing cur previousStop written with
  | nil =>
      cases hw
      exact .nil (by simp only [List.size_toArray, List.length_nil] at hstop; omega)
  | cons pair pairs ih =>
      simp only [encodeOffsets, bind_eq_ok_iff, pure_eq_ok, Except.ok.injEq] at hw
      obtain ⟨gap, hgap, length, hlength, rest, hrest, rfl⟩ := hw
      obtain ⟨hfirst, hlast⟩ := Bytes.at_append_iff.1 hat
      obtain ⟨hfirst, hsecond⟩ := Bytes.at_append_iff.1 hfirst
      simp only [Array.size_append] at hstop hlast
      apply OffsetRegion.cons (Varint.decode_encode hfirst stop (by omega))
        (Varint.decode_encode hsecond stop (by omega)) (sum_of_difference hgap)
        (sum_of_difference hlength)
      apply ih hrest
      · rwa [Nat.add_assoc]
      · omega

end OffsetRegion

namespace PositionRegion
variable {data : Bytes} {cur stop : Nat} {previous : UInt32} {positions : List UInt32}

/-- The positions of a region are given out. -/
theorem gives (h : PositionRegion data stop cur previous positions)
    (hdata : stop ≤ data.size) :
    Gives (⟨data, cur, stop, previous⟩ : PositionReader) positions := by
  induction h with
  | nil hend =>
      simp only [Gives, remaining]
      omega
  | cons hgap hposition _ ih =>
      refine ⟨_, PositionReader.pop_eq_ok_iff.2 ?_, ih⟩
      exact ⟨_, _, readRegion_of_decode hgap hdata, hposition, rfl⟩

/-- The positions of a region do not go down. -/
theorem check (h : PositionRegion data stop cur previous positions) (docId : UInt32) :
    checkPositions docId previous positions = .ok () := by
  induction h with
  | nil => rfl
  | cons _ hposition _ ih =>
      apply checkPositions_cons_eq_ok_iff.mpr
      exact ⟨le_of_sum hposition, ih⟩

theorem append (h : PositionRegion data stop cur previous positions) (more : Bytes) :
    PositionRegion (data ++ more) stop cur previous positions := by
  induction h with
  | nil hend => exact .nil hend
  | cons hgap hposition _ ih =>
      exact .cons (Varint.decode_append hgap (Nat.le_refl _)) hposition ih

/-- What is written of positions is a region of them. -/
theorem of_at {written : Bytes} (hw : encodePositions previous positions = .ok written)
    (hat : data.At cur written) (hstop : cur + written.size = stop) :
    PositionRegion data stop cur previous positions := by
  induction positions generalizing cur previous written with
  | nil =>
      cases hw
      exact .nil (by simp only [List.size_toArray, List.length_nil] at hstop; omega)
  | cons position positions ih =>
      simp only [encodePositions, bind_eq_ok_iff, pure_eq_ok, Except.ok.injEq] at hw
      obtain ⟨gap, hgap, rest, hrest, rfl⟩ := hw
      obtain ⟨hfirst, hlast⟩ := Bytes.at_append_iff.1 hat
      rw [Array.size_append] at hstop
      apply PositionRegion.cons (Varint.decode_encode hfirst stop (by omega))
        (sum_of_difference hgap)
      apply ih hrest hlast
      omega

end PositionRegion

theorem OffsetReader.Gives.append {data : Bytes} {cur stop : Nat} {previousStop : UInt32}
    {pairs : List Span} (more : Bytes)
    (h : Gives (⟨data, cur, stop, previousStop⟩ : OffsetReader) pairs) :
    Gives (⟨data ++ more, cur, stop, previousStop⟩ : OffsetReader) pairs := by
  induction pairs generalizing cur previousStop with
  | nil => exact h
  | cons pair pairs ih =>
      obtain ⟨rest, hpop, hrest⟩ := h
      obtain ⟨gap, middle, length, next, hgap, hlength, hstart, hstop, rfl⟩ :=
        pop_eq_ok_iff.1 hpop
      refine ⟨⟨data ++ more, next, stop, pair.stop⟩, ?_, ih hrest⟩
      apply pop_eq_ok_iff.mpr
      exact ⟨gap, middle, length, next, Varint.readRegion_append hgap,
        Varint.readRegion_append hlength, hstart, hstop, rfl⟩

theorem PositionReader.Gives.append {data : Bytes} {cur stop : Nat} {previous : UInt32}
    {positions : List UInt32} (more : Bytes)
    (h : Gives (⟨data, cur, stop, previous⟩ : PositionReader) positions) :
    Gives (⟨data ++ more, cur, stop, previous⟩ : PositionReader) positions := by
  induction positions generalizing cur previous with
  | nil => exact h
  | cons position positions ih =>
      obtain ⟨rest, hpop, hrest⟩ := h
      obtain ⟨gap, next, hgap, hposition, rfl⟩ := pop_eq_ok_iff.1 hpop
      refine ⟨⟨data ++ more, next, stop, position⟩, ?_, ih hrest⟩
      apply pop_eq_ok_iff.mpr
      exact ⟨gap, next, Varint.readRegion_append hgap, hposition, rfl⟩

end Concordance
