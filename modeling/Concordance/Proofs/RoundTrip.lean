import Concordance.Proofs.Buffer
import Concordance.Proofs.Safety

/-!
# Stored lists are decoded to themselves

However a list came about, by appending or by decoding, it was checked, and what was
checked can be stored: the differences of its skip index are not negative, and none of its
sizes leaves the 32-bit numbers. Whatever bytes stand around a stored list, decoding gives
the list back.
-/

namespace Concordance

open Result

namespace SkipIndex

/-- Neither part of an entry goes down from one to the next. -/
def NoLower (entry next : SkipEntry) : Prop :=
  entry.previousDocId ≤ next.previousDocId ∧ entry.start ≤ next.start

/-- Entries that do not go down can be written. Each takes at least two bytes. Since a number
takes one byte for each 128 it holds, and one more, and the differences add up to the last
entry, the entries take little more than two bytes each. -/
theorem exists_encodeEntries {previous : SkipEntry} {entries : List SkipEntry}
    (h : (previous :: entries).Pairwise NoLower) :
    ∃ written, encodeEntries previous entries = .ok written ∧
      2 * entries.length ≤ written.size ∧
      128 * written.size + previous.previousDocId.toNat + previous.start.toNat ≤
        256 * entries.length + 2 ^ 33 := by
  induction entries generalizing previous with
  | nil =>
      have := previous.previousDocId.toNat_lt
      have := previous.start.toNat_lt
      exact ⟨#[], rfl, Nat.zero_le _, by simp only [List.size_toArray, List.length_nil]; omega⟩
  | cons entry entries ih =>
      rw [List.pairwise_cons] at h
      obtain ⟨hdocId, hstart⟩ := h.1 entry (List.mem_cons_self ..)
      obtain ⟨rest, hrest, hleast, hmost⟩ := ih h.2
      obtain ⟨docIdGap, hdocId⟩ : ∃ gap, Word.difference _ _ = .ok gap :=
        ⟨_, Posting.difference_of_le hdocId⟩
      obtain ⟨startGap, hstart⟩ : ∃ gap, Word.difference _ _ = .ok gap :=
        ⟨_, Posting.difference_of_le hstart⟩
      have := Word.difference_eq_ok_iff.1 hdocId
      have := Word.difference_eq_ok_iff.1 hstart
      have := Varint.size_encode_pos docIdGap
      have := Varint.size_encode_pos startGap
      have := Varint.size_encode_le docIdGap
      have := Varint.size_encode_le startGap
      refine ⟨Varint.encode docIdGap ++ Varint.encode startGap ++ rest, ?_, ?_, ?_⟩
      · simp only [encodeEntries, hdocId, hstart, hrest, ok_bind, pure_eq_ok]
      · simp only [Array.size_append, List.length_cons]
        omega
      · simp only [Array.size_append, List.length_cons]
        omega

/-- Written entries are decoded. -/
theorem decodeEntries_of_at {bytes written : Bytes} {cur stop : Nat} {previous : SkipEntry}
    {entries : List SkipEntry} (hw : encodeEntries previous entries = .ok written)
    (hat : bytes.At cur written) (hstop : cur + written.size ≤ stop) :
    decodeEntries bytes stop entries.length previous cur =
      .ok (entries, cur + written.size) := by
  induction entries generalizing previous cur written with
  | nil =>
      cases hw
      rfl
  | cons entry entries ih =>
      simp only [encodeEntries, bind_eq_ok_iff, pure_eq_ok, Except.ok.injEq] at hw
      obtain ⟨docIdGap, hdocId, startGap, hstart, rest, hrest, rfl⟩ := hw
      obtain ⟨hat, hatRest⟩ := Bytes.at_append_iff.1 hat
      obtain ⟨hatDocId, hatStart⟩ := Bytes.at_append_iff.1 hat
      simp only [Array.size_append, ← Nat.add_assoc] at hstop hatRest ⊢
      have hdecodeDocId := Varint.decode_encode hatDocId stop (by omega)
      have hdecodeStart := Varint.decode_encode hatStart stop (by omega)
      have hsumDocId := sum_of_difference hdocId
      have hsumStart := sum_of_difference hstart
      rw [Word.sum_eq_ok_iff, ← Word.sum?_eq_some_iff] at hsumDocId hsumStart
      rw [List.length_cons, decodeEntries, liftM_malformed_eq_ok_iff.2 hdecodeDocId, ok_bind]
      simp only [liftM_malformed_eq_ok_iff.2 hdecodeStart, ok_bind, hsumDocId, hsumStart,
        ih hrest hatRest hstop, pure_eq_ok]

/-- An index of not too many entries can be stored, and is decoded to itself. -/
theorem exists_encode {index : SkipIndex}
    (h : (⟨0, 0⟩ :: index.entries.toList).Pairwise NoLower) (hsize : index.size ≤ 2 ^ 30) :
    ∃ written, index.encode = .ok written ∧ written.size < UInt32.size ∧
      ∀ {bytes : Bytes} {cur : Nat}, bytes.At cur written →
        SkipIndex.decode bytes (cur + written.size) cur = .ok (index, cur + written.size) := by
  obtain ⟨entries, hentries, hleast, hmost⟩ := exists_encodeEntries h
  have hcount : index.size.toUInt32.toNat = index.size :=
    UInt32.toNat_ofNat_of_lt' (Nat.lt_of_le_of_lt hsize (by decide))
  have hcountSize := Varint.size_encode_le index.size.toUInt32
  rw [Array.length_toList] at hleast hmost
  rw [SkipIndex.size] at *
  refine ⟨Varint.encode index.entries.size.toUInt32 ++ entries, ?_, ?_, ?_⟩
  · rw [SkipIndex.encode, hentries, ok_bind, pure_eq_ok, SkipIndex.size]
  · rw [Array.size_append, UInt32.size]
    simp only [UInt32.toNat_zero] at hmost
    omega
  · intro bytes cur hat
    obtain ⟨hatCount, hatEntries⟩ := Bytes.at_append_iff.1 hat
    rw [Array.size_append, ← Nat.add_assoc]
    have hdecode := Varint.decode_encode hatCount _ (Nat.le_add_right _ entries.size)
    have hrest := decodeEntries_of_at hentries hatEntries (Nat.le_refl _)
    rw [Array.length_toList] at hrest
    rw [SkipIndex.decode, liftM_malformed_eq_ok_iff.2 hdecode, ok_bind]
    simp only [hcount]
    rw [if_neg (by omega), hrest, ok_bind, pure_eq_ok, Array.toArray_toList]

end SkipIndex

namespace PostingList

namespace Checked
variable {list : PostingList} {postings : List Posting} {headers : List Header}

/-- A posting starts at least four bytes behind the one before it. -/
theorem startOf_add_le (h : list.Checked postings headers) (i count : Nat)
    (hi : i + count ≤ postings.length) :
    startOf headers i + 4 * count ≤ startOf headers (i + count) := by
  induction count with
  | zero => exact Nat.le_refl _
  | succ count ih =>
      have hp := List.getElem?_eq_getElem (l := postings) (i := i + count) (by omega)
      obtain ⟨header, hheader⟩ := h.exists_getElem?_headers (i := i + count) (by omega)
      obtain ⟨delta, hwritten, -⟩ := h.written hp hheader
      have hnext : startOf headers (i + (count + 1)) = header.next := by
        rw [← Nat.add_assoc, startOf, hheader]
        rfl
      calc
        startOf headers i + 4 * (count + 1) = startOf headers i + 4 * count + 4 := by omega
        _ ≤ startOf headers (i + count) + 4 := Nat.add_le_add_right (ih (by omega)) 4
        _ ≤ header.next := hwritten.add_four_le
        _ = startOf headers (i + (count + 1)) := hnext.symm

/-- Every posting takes at least four bytes. -/
theorem size_le (h : list.Checked postings headers) : 4 * list.size ≤ list.data.size := by
  have hle := h.startOf_add_le 0 postings.length (by omega)
  rwa [Nat.zero_add, h.stop_eq, startOf, Nat.zero_add, ← h.size_eq] at hle

theorem baseOf_le (h : list.Checked postings headers) {i j : Nat} (hij : i ≤ j)
    (hj : j < postings.length) : baseOf postings i ≤ baseOf postings j := by
  by_cases hzero : j = 0
  · rw [show i = j by omega]
    exact UInt32.le_refl _
  · have hp := List.getElem?_eq_getElem (l := postings) (i := i - 1) (by omega)
    have hle := docId_le_baseOf h.ordered hp (show i - 1 < j by omega) (by omega)
    rw [baseOf, hp]
    exact hle

/-- The entries of the skip index do not go down. -/
theorem skips_pairwise (h : list.Checked postings headers) :
    (⟨0, 0⟩ :: list.skips.entries.toList).Pairwise SkipIndex.NoLower := by
  rw [List.pairwise_cons, List.pairwise_iff_getElem]
  refine ⟨fun entry _ => ⟨UInt32.zero_le .., UInt32.zero_le ..⟩, ?_⟩
  intro i j hi hj hij
  rw [Array.length_toList] at hi hj
  rw [Array.getElem_toList, Array.getElem_toList]
  obtain ⟨hbase, hstart⟩ := h.skip (Array.getElem?_eq_getElem hi)
  obtain ⟨hbase', hstart'⟩ := h.skip (Array.getElem?_eq_getElem hj)
  have hlt := (h.lt_skips_iff j).1 hj
  have hle := Nat.mul_le_mul_right list.span.postings (Nat.le_of_lt hij)
  constructor
  · rw [hbase, hbase']
    exact h.baseOf_le hle hlt
  · rw [UInt32.le_iff_toNat_le, hstart, hstart']
    have hadd := h.startOf_add_le (i * list.span.postings)
      (j * list.span.postings - i * list.span.postings) (by omega)
    rw [Nat.add_sub_cancel' hle] at hadd
    omega

/-- There is an entry for each span, and none more. -/
theorem skips_size (h : list.Checked postings headers) :
    list.skips.size = (list.size + list.span.postings - 1) / list.span.postings := by
  have hiff (number : Nat) :
      number < list.skips.size ↔
        number < (list.size + list.span.postings - 1) / list.span.postings := by
    rw [h.lt_skips_iff, lt_spans_iff, h.size_eq]
  have hle := hiff list.skips.size
  have hge := hiff ((list.size + list.span.postings - 1) / list.span.postings)
  omega

theorem skips_size_le (h : list.Checked postings headers) : list.skips.size ≤ list.size := by
  by_contra hgt
  have hlt := (h.lt_skips_iff list.size).1 (by omega)
  have := Nat.le_mul_of_pos_right list.size list.span.positive
  rw [h.size_eq] at *
  omega

/-- A list that was checked can be stored. What is stored has as many bits for the span as a
number: it is decoded to the list with the span that is left, if this span has as many entries
and the list passes its check with it. -/
theorem decode_encode_iff (h : list.Checked postings headers)
    (hdata : list.data.size < UInt32.size) (pre suf : Bytes) :
    ∃ written, list.encode = .ok written ∧
      ∀ found stop, decode (pre ++ written ++ suf) pre.size = .ok (found, stop) ↔
        stop = pre.size + written.size ∧ found = { list with span := found.span } ∧
        found.span.postings = list.span.postings % UInt32.size ∧
        list.skips.size = (list.size + found.span.postings - 1) / found.span.postings ∧
        found.check = .ok () := by
  have hsize := h.size_le
  have hskipsSize := h.skips_size_le
  obtain ⟨skips, hskips, hskipsRoom, hdecodeSkips⟩ :=
    SkipIndex.exists_encode h.skips_pairwise (by rw [UInt32.size] at hdata; omega)
  have hcount : list.size.toUInt32.toNat = list.size := UInt32.toNat_ofNat_of_lt' (by omega)
  have hspan : list.span.postings.toUInt32.toNat = list.span.postings % UInt32.size :=
    UInt32.toNat_ofNat
  have hskipsCount : skips.size.toUInt32.toNat = skips.size := UInt32.toNat_ofNat_of_lt' hskipsRoom
  refine ⟨_, by rw [encode, hskips, ok_bind, pure_eq_ok], ?_⟩
  generalize hwritten : Varint.encode list.lastDocId ++ Varint.encode list.size.toUInt32
    ++ Varint.encode list.span.postings.toUInt32 ++ (Varint.Buffer.mk list.data).encode
    ++ Varint.encode skips.size.toUInt32 ++ skips = written
  have hat := Bytes.at_between pre written suf
  have hwhole : pre.size + written.size ≤ (pre ++ written ++ suf).size := by
    simp only [Array.size_append]
    omega
  generalize pre ++ written ++ suf = bytes at hat hwhole
  subst hwritten
  obtain ⟨hat, hatSkips⟩ := Bytes.at_append_iff.1 hat
  obtain ⟨hat, hatSkipsSize⟩ := Bytes.at_append_iff.1 hat
  obtain ⟨hat, hatData⟩ := Bytes.at_append_iff.1 hat
  obtain ⟨hat, hatSpan⟩ := Bytes.at_append_iff.1 hat
  obtain ⟨hatLast, hatSize⟩ := Bytes.at_append_iff.1 hat
  simp only [Array.size_append, ← Nat.add_assoc] at *
  have hdecodeLast := Varint.decode_encode hatLast bytes.size (by omega)
  have hdecodeSize := Varint.decode_encode hatSize bytes.size (by omega)
  have hdecodeSpan := Varint.decode_encode hatSpan bytes.size (by omega)
  have hroom : (Varint.Buffer.mk list.data).size < UInt32.size := hdata
  have hdecodeData := Varint.Buffer.decode_of_at hroom hatData (by omega)
  have hdecodeSkipsSize := Varint.decode_encode hatSkipsSize bytes.size (by omega)
  have hdecodeSkips := hdecodeSkips hatSkips
  intro found stop
  rw [decode_eq_ok_iff]
  constructor
  · rintro ⟨first, size, second, postings, third, dataStop, skipsSize, skipsStart, hfirst, hsecond,
      hthird, hfourth, hfifth, hsixth, hstop, -, hfoundSize, hfoundSpan, hneeded, hcheck⟩
    rw [hdecodeLast, Except.ok.injEq, Prod.mk.injEq] at hfirst
    obtain ⟨hlastDocId, rfl⟩ := hfirst
    rw [hdecodeSize, Except.ok.injEq, Prod.mk.injEq] at hsecond
    obtain ⟨rfl, rfl⟩ := hsecond
    rw [hdecodeSpan, Except.ok.injEq, Prod.mk.injEq] at hthird
    obtain ⟨rfl, rfl⟩ := hthird
    rw [hdecodeData, Except.ok.injEq, Prod.mk.injEq, Varint.Buffer.mk.injEq] at hfourth
    obtain ⟨hfoundData, rfl⟩ := hfourth
    rw [hdecodeSkipsSize, Except.ok.injEq, Prod.mk.injEq] at hfifth
    obtain ⟨rfl, rfl⟩ := hfifth
    rw [hskipsCount] at hstop
    rw [hstop, hdecodeSkips, Except.ok.injEq, Prod.mk.injEq] at hsixth
    rw [hcount] at hfoundSize
    obtain ⟨data, skips, span, lastDocId, count⟩ := found
    simp only at hlastDocId hfoundData hsixth hfoundSize hfoundSpan hneeded
    subst hlastDocId hfoundData hfoundSize
    obtain ⟨rfl, -⟩ := hsixth
    exact ⟨hstop, rfl, hfoundSpan.trans hspan, hneeded, hcheck⟩
  · rintro ⟨rfl, hfound, hfoundSpan, hneeded, hcheck⟩
    rw [hfound] at hcheck ⊢
    refine ⟨_, _, _, _, _, _, _, _, hdecodeLast, hdecodeSize, hdecodeSpan, hdecodeData,
      hdecodeSkipsSize, hdecodeSkips, ?_, hwhole, hcount.symm, hfoundSpan.trans hspan.symm,
      hneeded, hcheck⟩
    rw [hskipsCount]

/-- A list that was checked can be stored, and what is stored is decoded to it. -/
theorem decode_encode (h : list.Checked postings headers)
    (hspan : list.span.postings < UInt32.size) (hdata : list.data.size < UInt32.size)
    (pre suf : Bytes) :
    ∃ written, list.encode = .ok written ∧
      decode (pre ++ written ++ suf) pre.size = .ok (list, pre.size + written.size) := by
  obtain ⟨written, hwritten, hdecode⟩ := h.decode_encode_iff hdata pre suf
  refine ⟨written, hwritten, (hdecode _ _).2 ⟨rfl, rfl, ?_, h.skips_size, h.check⟩⟩
  rw [Nat.mod_eq_of_lt hspan]

/-- Where there is one span for all postings, another that has room for them changes nothing but
itself. -/
theorem with_span (h : list.Checked postings headers) (hsize : list.size ≤ list.span.postings)
    {span : SkipSpan} (hspan : list.size ≤ span.postings) :
    ({ list with span } : PostingList).Checked postings headers := by
  have honly {span : SkipSpan} (hspan : list.size ≤ span.postings) (number : Nat) :
      number * span.postings < postings.length ↔ number = 0 ∧ 0 < postings.length := by
    rw [h.size_eq] at hspan
    cases number with
    | zero => simp
    | succ number =>
        have := Nat.le_mul_of_pos_left span.postings (Nat.zero_lt_of_ne_zero number.add_one_ne_zero)
        omega
  have hcount (number : Nat) :
      number < list.skips.size ↔ number * span.postings < postings.length := by
    rw [h.lt_skips_iff, honly hsize, honly hspan]
  refine { h with lt_skips_iff := hcount, skip := ?_ }
  intro number entry hget
  have hlt := (hcount number).1 (Array.getElem?_eq_some_iff.1 hget).1
  obtain ⟨rfl, -⟩ := (honly hspan number).1 hlt
  have hskip := h.skip hget
  rwa [Nat.zero_mul] at hskip ⊢

/-- What is decoded from a stored list is the list, up to its span. -/
theorem decode_stored_iff (h : list.Checked postings headers)
    (hdata : list.data.size < UInt32.size) {written : Bytes} (hwritten : list.encode = .ok written)
    {found : PostingList} {stop : Nat} :
    decode written 0 = .ok (found, stop) ↔
      stop = written.size ∧ found = { list with span := found.span } ∧
      found.span.postings = list.span.postings % UInt32.size ∧
      list.skips.size = (list.size + found.span.postings - 1) / found.span.postings ∧
      found.check = .ok () := by
  obtain ⟨encoded, hencoded, hdecode⟩ := h.decode_encode_iff hdata #[] #[]
  rw [hwritten, Except.ok.injEq] at hencoded
  subst hencoded
  simpa only [Array.empty_append, Array.append_empty, List.size_toArray, List.length_nil,
    Nat.zero_add] using hdecode found stop

/-- What is stored of a list with postings can be decoded exactly if its span is stored as it is
or what is left of it still has room for all postings. -/
theorem exists_decode_iff (h : list.Checked postings headers)
    (hdata : list.data.size < UInt32.size) (hpos : 0 < list.size) {written : Bytes}
    (hwritten : list.encode = .ok written) :
    (∃ span, decode written 0 = .ok ({ list with span }, written.size)) ↔
      list.span.postings < UInt32.size ∨ list.size ≤ list.span.postings % UInt32.size := by
  have hsize := h.size_le
  simp only [h.decode_stored_iff hdata hwritten]
  by_cases hfits : list.span.postings < UInt32.size
  · refine ⟨fun _ => .inl hfits, fun _ => ⟨list.span, ?_⟩⟩
    exact ⟨trivial, trivial, (Nat.mod_eq_of_lt hfits).symm, h.skips_size, h.check⟩
  · constructor
    · rintro ⟨span, -, -, hspan, hneeded, -⟩
      -- The list has one span only, and so has the decoded one.
      have hone : ¬ 1 < list.skips.size := by
        rw [h.lt_skips_iff, ← h.size_eq]
        omega
      rw [hneeded, lt_spans_iff] at hone
      right
      omega
    · intro hroom
      let span : SkipSpan := ⟨list.span.postings % UInt32.size, by omega⟩
      have hroom : list.size ≤ span.postings := by
        rcases hroom with h | h
        · exact absurd h hfits
        · exact h
      have hspan := h.with_span (by omega) hroom
      exact ⟨span, trivial, trivial, rfl, hspan.skips_size, hspan.check⟩

end Checked

/-- Lists that come about by appending to an empty list and by decoding. -/
inductive Built : PostingList → Prop
  | empty (span : SkipSpan) : Built (empty span)
  | append {list next : PostingList} {posting : Posting} (hlist : Built list)
      (happend : list.append posting = .ok next) : Built next
  | decode {bytes : Bytes} {offset stop : Nat} {list : PostingList}
      (hdecode : PostingList.decode bytes offset = .ok (list, stop)) : Built list

theorem Built.offerAll {list : PostingList} (h : Built list) (offered : List Posting) :
    Built (list.offerAll offered) := by
  fun_induction PostingList.offerAll list offered with
  | case1 => exact h
  | case2 list posting rest next happend ih => exact ih (h.append happend)
  | case3 list posting rest error happend ih => exact ih h

/-- However a list came about, it passes its check. -/
theorem Built.exists_checked {list : PostingList} (h : Built list)
    (hdata : list.data.size < UInt32.size) :
    ∃ postings headers, list.Checked postings headers := by
  induction h with
  | empty span => exact ⟨[], [], checked_empty span⟩
  | append _ happend ih =>
      have hle := size_data_le_of_append happend
      obtain ⟨postings, headers, hchecked⟩ := ih (by omega)
      obtain ⟨header, hnext⟩ := hchecked.append happend hdata
      exact ⟨_, _, hnext⟩
  | decode hdecode => exact exists_checked_of_decode hdecode

/-- However a list came about, it can be stored, and whatever bytes stand before and behind
what is stored, decoding gives the list and the place behind it. -/
theorem round_trip {list : PostingList} (h : Built list)
    (hspan : list.span.postings < UInt32.size) (hdata : list.data.size < UInt32.size)
    (pre suf : Bytes) :
    ∃ written, list.encode = .ok written ∧
      decode (pre ++ written ++ suf) pre.size = .ok (list, pre.size + written.size) := by
  obtain ⟨postings, headers, hchecked⟩ := h.exists_checked hdata
  exact hchecked.decode_encode hspan hdata pre suf

/-- A list that was decoded, with a number longer than it has to be, and then appended to. -/
def extendedList : PostingList where
  data := overlongList.data ++ #[7, 0xa3, 2, 1, 2, 6, 0, 8]
  skips := overlongList.skips.push ⟨9, 13⟩
  span := overlongList.span
  lastDocId := 300
  size := 3

theorem append_overlongList :
    overlongList.append ⟨300, 1, [⟨6, 6⟩], [8]⟩ = .ok extendedList := by
  decide +kernel

/-- The longer number is stored and decoded as it is. -/
theorem round_trip_overlong :
    Built extendedList ∧ extendedList.span.postings < UInt32.size ∧
    extendedList.data.size < UInt32.size ∧
    ∃ written, extendedList.encode = .ok written ∧
      decode (#[0x80] ++ written ++ #[1, 2]) 1 = .ok (extendedList, 1 + written.size) := by
  have hbuilt : Built extendedList := .append (.decode decode_overlongBytes) append_overlongList
  have hspan : extendedList.span.postings < UInt32.size := by decide
  have hdata : extendedList.data.size < UInt32.size := by decide
  exact ⟨hbuilt, hspan, hdata, round_trip hbuilt hspan hdata #[0x80] #[1, 2]⟩

end PostingList

end Concordance
