import Concordance.PostingList.Codec
import Concordance.Proofs.Cursor
import Concordance.Proofs.Sequences

/-!
# What the check of a stored list finds

The check of a list walks all postings with checked reads. `Checked` is what it finds: the
list holds postings, and each lies in the data in numbers that can be decoded. It is
proved in both directions. A list that passes is `Checked`, so no reader without checks
can fail on it, and a list that is `Checked` passes; appending keeps it.
-/

namespace Concordance.PostingList

open Result Posting Sequences

/-- A region of offset pairs passes its check if it is one. -/
theorem checkOffsetRegion_eq_ok_iff {data : Bytes} {posting stop cur : Nat}
    {previousStop : UInt32} :
    checkOffsetRegion data posting stop previousStop cur = .ok () ↔
      ∃ pairs, OffsetRegion data stop cur previousStop pairs := by
  constructor
  · intro h
    fun_induction checkOffsetRegion data posting stop previousStop cur with
    | case1 previousStop cur hend => exact ⟨[], .nil hend⟩
    | case2 => cases h
    | case3 => cases h
    | case4 => cases h
    | case5 previousStop cur hcur gap middle hgap length next hlength pairStop hsum ih =>
        obtain ⟨pairs, hpairs⟩ := ih h
        obtain ⟨start, hstart, hstop⟩ := Option.bind_eq_some_iff.1 hsum
        rw [Word.sum?_eq_some_iff, ← Word.sum_eq_ok_iff] at hstart hstop
        exact ⟨⟨start, pairStop⟩ :: pairs, .cons hgap hlength hstart hstop hpairs⟩
  · rintro ⟨pairs, h⟩
    induction h with
    | nil hend => rw [checkOffsetRegion, if_pos hend]
    | cons hgap hlength hstart hstop _ ih =>
        have hlt := Varint.lt_of_decode hgap
        rw [Word.sum_eq_ok_iff, ← Word.sum?_eq_some_iff] at hstart hstop
        rw [checkOffsetRegion, if_neg (by omega)]
        split
        · next heq => rw [hgap] at heq; cases heq
        · next heq =>
            rw [hgap] at heq
            cases heq
            split
            · next heq => rw [hlength] at heq; cases heq
            · next heq =>
                rw [hlength] at heq
                cases heq
                simp only [hstart, Option.bind_some, hstop]
                exact ih

/-- A region of positions passes its check if it is one. -/
theorem checkPositionRegion_eq_ok_iff {data : Bytes} {posting stop cur : Nat}
    {previous : UInt32} :
    checkPositionRegion data posting stop previous cur = .ok () ↔
      ∃ positions, PositionRegion data stop cur previous positions := by
  constructor
  · intro h
    fun_induction checkPositionRegion data posting stop previous cur with
    | case1 previous cur hend => exact ⟨[], .nil hend⟩
    | case2 => cases h
    | case3 => cases h
    | case4 previous cur hcur gap next hgap position hsum ih =>
        obtain ⟨positions, hpositions⟩ := ih h
        rw [Word.sum?_eq_some_iff, ← Word.sum_eq_ok_iff] at hsum
        exact ⟨position :: positions, .cons hgap hsum hpositions⟩
  · rintro ⟨positions, h⟩
    induction h with
    | nil hend => rw [checkPositionRegion, if_pos hend]
    | cons hgap hposition _ ih =>
        have hlt := Varint.lt_of_decode hgap
        rw [Word.sum_eq_ok_iff, ← Word.sum?_eq_some_iff] at hposition
        rw [checkPositionRegion, if_neg (by omega)]
        split
        · next heq => rw [hgap] at heq; cases heq
        · next heq =>
            rw [hgap] at heq
            cases heq
            simp only [hposition]
            exact ih

/-- A posting that opens a span has to have an entry with its start. -/
theorem checkSpanStart_eq_ok_iff {skips : SkipIndex} {span : SkipSpan} {posting cur : Nat}
    {opening? : Option SkipEntry} :
    checkSpanStart skips span posting cur = .ok opening? ↔
      (span.postings ∣ posting → ∃ entry, opening? = some entry ∧
        skips.get? (posting / span.postings) = some entry ∧ entry.start.toNat = cur) ∧
      (¬ span.postings ∣ posting → opening? = none) := by
  simp only [checkSpanStart, Nat.dvd_iff_mod_eq_zero, throw_eq_error, error_bind, pure_eq_ok]
  split
  · next hmod =>
      rw [ne_eq] at hmod
      simp [hmod, eq_comm]
  · next hmod =>
      rw [ne_eq, not_not] at hmod
      cases hget : skips.get? (posting / span.postings) with
      | none => simp [hmod]
      | some entry =>
          simp only [ite_error_eq_ok_iff, ne_eq, not_not, Except.ok.injEq, hmod, Option.some.injEq,
            not_true_eq_false, false_implies, true_implies, and_true]
          constructor
          · rintro ⟨hstart, rfl⟩
            exact ⟨entry, rfl, rfl, hstart⟩
          · rintro ⟨_, rfl, rfl, hstart⟩
            exact ⟨hstart, rfl⟩

/-- The first posting has the id of the first entry; every other is above the one before. -/
theorem checkDocId_eq_ok_iff {span : SkipSpan} {posting : Nat} {opening? : Option SkipEntry}
    {previousDocId delta docId : UInt32} :
    checkDocId span posting opening? previousDocId delta = .ok docId ↔
      (posting = 0 ∧ delta = 0 ∧ docId = (opening?.map SkipEntry.previousDocId).getD 0) ∨
      (posting ≠ 0 ∧ delta ≠ 0 ∧ Word.sum previousDocId delta = .ok docId ∧
        ∀ entry, opening? = some entry → entry.previousDocId = previousDocId) := by
  rw [Word.sum_eq_ok_iff, ← Word.sum?_eq_some_iff]
  simp only [checkDocId, throw_eq_error, error_bind, pure_eq_ok]
  by_cases hposting : posting = 0
  · simp only [hposting, if_true, ite_error_eq_ok_iff, ne_eq, not_not, true_and,
      not_true_eq_false, false_and, or_false, Except.ok.injEq]
    cases opening? <;> simp [eq_comm]
  · simp only [hposting, if_false, ite_error_eq_ok_iff, ne_eq, not_false_eq_true, true_and,
      false_and, false_or]
    cases opening? with
    | none => cases Word.sum? previousDocId delta <;> simp
    | some entry =>
        simp only [ite_error_eq_ok_iff, not_not, Option.some.injEq, forall_eq']
        cases Word.sum? previousDocId delta <;> simp [and_comm]

/-- What the check of one posting finds: that it lies in the data where it should, with the
document id it should have. -/
theorem checkPosting_eq_ok_iff {data : Bytes} {skips : SkipIndex} {span : SkipSpan}
    {size number cur next : Nat} {previousDocId docId : UInt32} :
    checkPosting data skips span size number previousDocId cur = .ok (docId, next) ↔
      ∃ opening? delta header posting,
        checkSpanStart skips span number cur = .ok opening? ∧
        checkDocId span number opening? previousDocId delta = .ok docId ∧
        Header.Written header data cur delta posting ∧
        posting.docId = docId ∧ header.next = next := by
  simp only [checkPosting, throw_eq_error, error_bind, ite_error_eq_ok_iff, bind_eq_ok_iff,
    liftM_malformed_eq_ok_iff, liftM_corruption_eq_ok_iff, pure_eq_ok, Except.ok.injEq,
    Prod.exists, Prod.mk.injEq, Nat.not_le, Nat.not_lt]
  constructor
  · rintro ⟨hcur, opening?, hopening, contentSize, content, h1, hnext, delta, first, h2, termFreq,
      second, h3, offsetsSize, offsetsStart, h4, id, hdocId, hstop, ⟨⟩, hpairs, ⟨⟩, hpositions,
      rfl, rfl⟩
    obtain ⟨pairs, hpairs⟩ := checkOffsetRegion_eq_ok_iff.1 hpairs
    obtain ⟨positions, hpositions⟩ := checkPositionRegion_eq_ok_iff.1 hpositions
    refine ⟨opening?, delta, ⟨id, termFreq, offsetsStart, offsetsStart + offsetsSize.toNat,
      content + contentSize.toNat⟩, ⟨id, termFreq, pairs, positions⟩, hopening, hdocId, ?_,
      rfl, rfl⟩
    constructor
    case docId_eq => rfl
    case termFreq_eq => rfl
    case numbers =>
        exact ⟨contentSize, content, first, second, offsetsSize, h1, h2, h3, h4, rfl, rfl⟩
    case offsetsStop_le => exact hstop
    case next_le => exact hnext
    case offsets => exact hpairs
    case positions => exact hpositions
  · rintro ⟨opening?, delta, header, posting, hopening, hdocId, hwritten, rfl, rfl⟩
    have hlt := hwritten.add_four_le
    have hle := hwritten.next_le
    have hstopLe := hwritten.offsetsStop_le
    obtain ⟨contentSize, content, first, second, offsetsSize, h1, h2, h3, h4, hstop, hnext⟩ :=
      hwritten.numbers
    rw [hnext] at h2 h3 h4
    refine ⟨by omega, opening?, hopening, contentSize, content, h1, by omega, delta, first, h2,
      header.termFreq, second, h3, offsetsSize, header.offsetsStart, h4, posting.docId, hdocId,
      by omega, (), checkOffsetRegion_eq_ok_iff.2 ⟨posting.offsets, ?_⟩, (),
      checkPositionRegion_eq_ok_iff.2 ⟨posting.positions, ?_⟩, rfl, hnext.symm⟩
    · rw [← hstop]
      exact hwritten.offsets
    · rw [← hstop, ← hnext]
      exact hwritten.positions

/-- The list holds these postings, and each lies in the data in numbers that can be
decoded. -/
structure Checked (list : PostingList) (postings : List Posting) (headers : List Header) : Prop
    extends list.Layout postings headers where
  written : ∀ {i posting header}, postings[i]? = some posting → headers[i]? = some header →
    ∃ delta, header.Written list.data (startOf headers i) delta posting ∧
      Word.sum (baseOf postings i) delta = .ok posting.docId

theorem checked_empty (span : SkipSpan) : (empty span).Checked [] [] where
  toLayout := layout_empty span
  written := fun h => by simp at h

/-- The first postings of a list, as far as the check has come: each lies in the data, the ids
go up, and where a posting opens a span, the skip index has its start and its base. -/
structure Passed (list : PostingList) (postings : List Posting) (headers : List Header) :
    Prop where
  length_headers : headers.length = postings.length
  ordered : postings.Pairwise fun p q => p.docId < q.docId
  written : ∀ {i posting header}, postings[i]? = some posting → headers[i]? = some header →
    ∃ delta, header.Written list.data (startOf headers i) delta posting ∧
      Word.sum (baseOf postings i) delta = .ok posting.docId
  skip : ∀ {i}, i < postings.length → list.span.postings ∣ i →
    ∃ entry, list.skips.get? (i / list.span.postings) = some entry ∧
      entry.previousDocId = baseOf postings i ∧ entry.start.toNat = startOf headers i

theorem passed_nil (list : PostingList) : list.Passed [] [] where
  length_headers := rfl
  ordered := List.Pairwise.nil
  written := fun h => by simp at h
  skip := fun h => by simp at h

theorem lt_spans_iff (span : SkipSpan) (size number : Nat) :
    number < (size + span.postings - 1) / span.postings ↔ number * span.postings < size := by
  have := span.positive
  rw [Nat.lt_div_iff_mul_lt span.positive]
  omega

namespace Passed
variable {list : PostingList} {postings : List Posting} {headers : List Header}
  {posting : Posting} {header : Header}

/-- One more posting that lies behind those before is passed as well. -/
theorem concat (h : list.Passed postings headers) {delta : UInt32}
    (hwritten : header.Written list.data (startOf headers postings.length) delta posting)
    (hsum : Word.sum (baseOf (postings ++ [posting]) postings.length) delta = .ok posting.docId)
    (habove : ∀ p ∈ postings, p.docId < posting.docId)
    (hskip : list.span.postings ∣ postings.length →
      ∃ entry, list.skips.get? (postings.length / list.span.postings) = some entry ∧
        entry.previousDocId = baseOf (postings ++ [posting]) postings.length ∧
        entry.start.toNat = startOf headers postings.length) :
    list.Passed (postings ++ [posting]) (headers ++ [header]) := by
  have hlen := h.length_headers
  have hstart {i : Nat} (hi : i ≤ postings.length) :
      startOf (headers ++ [header]) i = startOf headers i :=
    startOf_append header (by omega)
  have hbase {i : Nat} (hi : i < postings.length) :
      baseOf (postings ++ [posting]) i = baseOf postings i :=
    baseOf_append posting (List.ne_nil_of_length_pos (by omega)) (by omega)
  constructor
  case length_headers => simp [hlen]
  case ordered =>
      rw [List.pairwise_append]
      refine ⟨h.ordered, List.pairwise_singleton .., ?_⟩
      intro p hp q hq
      rw [List.mem_singleton.1 hq]
      exact habove p hp
  case written =>
      exact of_concat (p := fun base start posting header =>
        ∃ delta, header.Written list.data start delta posting ∧
          Word.sum base delta = .ok posting.docId) hlen h.written ⟨delta, hwritten, hsum⟩
  case skip =>
      intro i hi hdvd
      rw [List.length_append, List.length_singleton] at hi
      by_cases hlt : i < postings.length
      · rw [hstart (by omega), hbase hlt]
        exact h.skip hlt hdvd
      · rw [show i = postings.length by omega] at hdvd ⊢
        rw [hstart (Nat.le_refl _)]
        exact hskip hdvd

/-- What the check accepts behind the postings it has passed is one more of them. -/
theorem of_checkPosting (h : list.Passed postings headers) {previousDocId docId : UInt32}
    {next : Nat} (hprevious : postings ≠ [] → previousDocId = baseOf postings postings.length)
    (hcheck : checkPosting list.data list.skips list.span list.size postings.length previousDocId
      (startOf headers postings.length) = .ok (docId, next)) :
    ∃ posting header, list.Passed (postings ++ [posting]) (headers ++ [header]) ∧
      posting.docId = docId ∧ header.next = next := by
  obtain ⟨opening?, delta, header, posting, hopening, hdocId, hwritten, rfl, rfl⟩ :=
    checkPosting_eq_ok_iff.1 hcheck
  obtain ⟨hopens, -⟩ := checkSpanStart_eq_ok_iff.1 hopening
  refine ⟨posting, header, ?_, rfl, rfl⟩
  rcases checkDocId_eq_ok_iff.1 hdocId with ⟨hzero, rfl, hfirst⟩ | ⟨hpos, -, hsum, hbase⟩
  · obtain rfl := List.length_eq_zero_iff.1 hzero
    apply h.concat hwritten
    · simp [baseOf, Word.sum_eq_ok_iff]
    · simp
    · intro hdvd
      obtain ⟨entry, rfl, hget, hstart⟩ := hopens hdvd
      exact ⟨entry, hget, by simpa [baseOf] using hfirst.symm, hstart⟩
  · have hne : postings ≠ [] := fun hnil => hpos (by simp [hnil])
    rw [hprevious hne] at hsum hbase
    have hlast := baseOf_append posting hne (Nat.le_refl _)
    have habove : baseOf postings postings.length < posting.docId := by
      rcases checkDocId_eq_ok_iff.1 hdocId with ⟨hzero, -⟩ | ⟨-, hdelta, -⟩
      · exact absurd hzero hpos
      · rw [Word.sum_eq_ok_iff] at hsum
        have hdelta : delta.toNat ≠ 0 := fun heq => hdelta (UInt32.toNat_inj.1 heq)
        exact UInt32.lt_iff_toNat_lt.2 (by omega)
    apply h.concat hwritten (by rwa [hlast])
    · intro p hp
      exact UInt32.lt_of_le_of_lt (docId_le_baseOf_length h.ordered hp) habove
    · intro hdvd
      obtain ⟨entry, rfl, hget, hstart⟩ := hopens hdvd
      exact ⟨entry, hget, by rw [hlast, hbase entry rfl], hstart⟩

/-- What the check accepts to the end of the list are its postings. -/
theorem of_checkPostings {left : Nat} (h : list.Passed postings headers)
    (hleft : postings.length + left = list.size) {previousDocId docId : UInt32} {stop : Nat}
    (hprevious : postings ≠ [] → previousDocId = baseOf postings postings.length)
    (hcheck : checkPostings list.data list.skips list.span list.size left previousDocId
      (startOf headers postings.length) = .ok (docId, stop)) :
    ∃ postings headers, list.Passed postings headers ∧ postings.length = list.size ∧
      startOf headers postings.length = stop ∧
      (postings ≠ [] → docId = baseOf postings postings.length) := by
  induction left generalizing postings headers previousDocId with
  | zero =>
      simp only [checkPostings, Except.ok.injEq, Prod.mk.injEq] at hcheck
      obtain ⟨rfl, rfl⟩ := hcheck
      exact ⟨postings, headers, h, by omega, rfl, hprevious⟩
  | succ left ih =>
      rw [checkPostings, bind_eq_ok_iff] at hcheck
      obtain ⟨⟨nextDocId, next⟩, hposting, hrest⟩ := hcheck
      rw [show list.size - (left + 1) = postings.length by omega] at hposting
      obtain ⟨posting, header, hpassed, rfl, rfl⟩ := h.of_checkPosting hprevious hposting
      apply ih hpassed
      · rw [List.length_append, List.length_singleton]
        omega
      · intro _
        rw [List.length_append, List.length_singleton, baseOf_append_length]
      · rw [List.length_append, List.length_singleton, startOf, ← h.length_headers,
          List.getElem?_concat_length]
        exact hrest

/-- The postings of a whole list, with the entries of all its spans. -/
theorem checked (h : list.Passed postings headers) (hsize : postings.length = list.size)
    (hstop : startOf headers postings.length = list.data.size)
    (hlast : postings ≠ [] → list.lastDocId = baseOf postings postings.length)
    (hskips : list.skips.size = (list.size + list.span.postings - 1) / list.span.postings) :
    list.Checked postings headers := by
  have hspans (number : Nat) :
      number < list.skips.size ↔ number * list.span.postings < postings.length := by
    rw [hskips, lt_spans_iff, hsize]
  have hdescribes {i : Nat} {posting : Posting} {header : Header}
      (hp : postings[i]? = some posting) (hheader : headers[i]? = some header) :
      header.Describes list.data posting := by
    obtain ⟨delta, hwritten, -⟩ := h.written hp hheader
    exact hwritten.describes
  refine ⟨⟨?_, hstop, hdescribes⟩, h.written⟩
  constructor
  case size_eq => exact hsize.symm
  case length_headers => exact h.length_headers
  case ordered => exact h.ordered
  case lastDocId_eq => exact hlast
  case header =>
      intro i posting header hp hheader
      obtain ⟨delta, hwritten, hsum⟩ := h.written hp hheader
      exact ⟨hwritten.readHeader hsum, (hdescribes hp hheader).names⟩
  case lt_skips_iff => exact hspans
  case skip =>
      intro number entry hget
      have hlt := (hspans number).1 (Array.getElem?_eq_some_iff.1 hget).1
      obtain ⟨found, hfound, hentry⟩ := h.skip hlt (Nat.dvd_mul_left ..)
      rw [Nat.mul_div_cancel number list.span.positive, hget, Option.some.injEq] at hfound
      rw [hfound]
      exact hentry

end Passed

theorem check_eq_ok_iff {list : PostingList} :
    list.check = .ok () ↔ ∃ docId,
      checkPostings list.data list.skips list.span list.size list.size 0 0 =
        .ok (docId, list.data.size) ∧ (0 < list.size → docId = list.lastDocId) := by
  simp only [check, bind_eq_ok_iff, throw_eq_error, error_bind, ite_error_eq_ok_iff, pure_eq_ok,
    Prod.exists, ne_eq, not_not, not_and]
  constructor
  · rintro ⟨docId, stop, hrun, rfl, hlast⟩
    exact ⟨docId, hrun, hlast.1⟩
  · rintro ⟨docId, hrun, hlast⟩
    exact ⟨docId, list.data.size, hrun, rfl, hlast, trivial⟩

/-- A list that passes its check, with an entry for each span, is what the check found. -/
theorem exists_checked {list : PostingList} (hcheck : list.check = .ok ())
    (hskips : list.skips.size = (list.size + list.span.postings - 1) / list.span.postings) :
    ∃ postings headers, list.Checked postings headers := by
  obtain ⟨docId, hrun, hlast⟩ := check_eq_ok_iff.1 hcheck
  obtain ⟨postings, headers, hpassed, hsize, hstop, hdocId⟩ :=
    (passed_nil list).of_checkPostings (Nat.zero_add _) (absurd rfl) hrun
  refine ⟨postings, headers, hpassed.checked hsize hstop ?_ hskips⟩
  intro hne
  rw [← hlast (hsize ▸ List.length_pos_iff.2 hne), hdocId hne]

namespace Checked
variable {list : PostingList} {postings : List Posting} {headers : List Header}

/-- The occurrences of every posting of a list that was checked are in order. -/
theorem check_posting (h : list.Checked postings headers) {posting : Posting}
    (hp : posting ∈ postings) : posting.check = .ok () := by
  obtain ⟨i, hi⟩ := List.mem_iff_getElem?.1 hp
  obtain ⟨header, hheader⟩ := h.exists_getElem?_headers (List.getElem?_eq_some_iff.1 hi).1
  obtain ⟨delta, hwritten, -⟩ := h.written hi hheader
  exact hwritten.check

/-- A posting that opens a span has the entry of the span. -/
theorem exists_entry (h : list.Checked postings headers) {i : Nat} (hi : i < postings.length)
    (hdvd : list.span.postings ∣ i) :
    ∃ entry, list.skips.get? (i / list.span.postings) = some entry ∧
      entry.previousDocId = baseOf postings i ∧ entry.start.toNat = startOf headers i := by
  have hmul := Nat.div_mul_cancel hdvd
  have hspan : i / list.span.postings < list.skips.size := by
    rw [h.lt_skips_iff, hmul]
    exact hi
  have hget : list.skips.get? (i / list.span.postings) =
      some list.skips.entries[i / list.span.postings] := Array.getElem?_eq_getElem hspan
  obtain ⟨hbase, hstart⟩ := h.skip hget
  rw [hmul] at hbase hstart
  exact ⟨_, hget, hbase, hstart⟩

theorem lt_docId_of_ne_zero (h : list.Checked postings headers) {i : Nat} {posting : Posting}
    (hp : postings[i]? = some posting) (hi : i ≠ 0) : baseOf postings i < posting.docId := by
  obtain ⟨hlt, rfl⟩ := List.getElem?_eq_some_iff.1 hp
  rw [baseOf, List.getElem?_eq_getElem (by omega)]
  exact List.pairwise_iff_getElem.1 h.ordered (i - 1) i (by omega) hlt (by omega)

/-- The document id of each posting is accepted, at its number. -/
theorem checkDocId (h : list.Checked postings headers) {i : Nat} {posting : Posting}
    (hp : postings[i]? = some posting) {delta : UInt32}
    (hsum : Word.sum (baseOf postings i) delta = .ok posting.docId) {previousDocId : UInt32}
    (hprevious : i ≠ 0 → previousDocId = baseOf postings i) {opening? : Option SkipEntry}
    (hopens : list.span.postings ∣ i → opening?.isSome)
    (hbase : ∀ entry, opening? = some entry → entry.previousDocId = baseOf postings i) :
    PostingList.checkDocId list.span i opening? previousDocId delta = .ok posting.docId := by
  rw [checkDocId_eq_ok_iff]
  rw [Word.sum_eq_ok_iff] at hsum
  by_cases hi : i = 0
  · subst hi
    obtain ⟨entry, rfl⟩ := Option.isSome_iff_exists.1 (hopens (Nat.dvd_zero _))
    have hfirst : baseOf postings 0 = posting.docId := by
      rw [baseOf, Nat.zero_sub, hp]
      rfl
    left
    refine ⟨rfl, ?_, ?_⟩
    · rw [hfirst] at hsum
      exact UInt32.toNat_inj.1 (by simpa using hsum)
    · rw [Option.map_some, Option.getD_some, hbase entry rfl, hfirst]
  · right
    have habove := UInt32.lt_iff_toNat_lt.1 (h.lt_docId_of_ne_zero hp hi)
    refine ⟨hi, ?_, ?_, ?_⟩
    · rintro rfl
      rw [UInt32.toNat_zero] at hsum
      omega
    · rwa [hprevious hi, Word.sum_eq_ok_iff]
    · rw [hprevious hi]
      exact hbase

/-- The check accepts each posting, at its number. -/
theorem checkPosting (h : list.Checked postings headers) {i : Nat} {posting : Posting}
    {header : Header} (hp : postings[i]? = some posting) (hheader : headers[i]? = some header)
    (previousDocId : UInt32) (hprevious : i ≠ 0 → previousDocId = baseOf postings i) :
    PostingList.checkPosting list.data list.skips list.span list.size i previousDocId
      (startOf headers i) = .ok (posting.docId, header.next) := by
  obtain ⟨delta, hwritten, hsum⟩ := h.written hp hheader
  rw [checkPosting_eq_ok_iff]
  by_cases hdvd : list.span.postings ∣ i
  · obtain ⟨entry, hget, hbase, hstart⟩ :=
      h.exists_entry (List.getElem?_eq_some_iff.1 hp).1 hdvd
    refine ⟨some entry, delta, header, posting, ?_, ?_, hwritten, rfl, rfl⟩
    · exact checkSpanStart_eq_ok_iff.2 ⟨fun _ => ⟨entry, rfl, hget, hstart⟩, absurd hdvd⟩
    · apply h.checkDocId hp hsum hprevious (fun _ => rfl)
      rintro _ ⟨⟩
      exact hbase
  · refine ⟨none, delta, header, posting, ?_, ?_, hwritten, rfl, rfl⟩
    · exact checkSpanStart_eq_ok_iff.2 ⟨fun h => absurd h hdvd, fun _ => rfl⟩
    · exact h.checkDocId hp hsum hprevious (fun h => absurd h hdvd) nofun

/-- The check accepts the postings that are left, from each on. -/
theorem checkPostings (h : list.Checked postings headers) {left : Nat}
    (hleft : left ≤ postings.length) (previousDocId : UInt32)
    (hprevious : left < postings.length →
      previousDocId = baseOf postings (postings.length - left)) :
    ∃ docId, PostingList.checkPostings list.data list.skips list.span list.size left
        previousDocId (startOf headers (postings.length - left)) = .ok (docId, list.data.size) ∧
      (postings ≠ [] → docId = list.lastDocId) := by
  induction left generalizing previousDocId with
  | zero =>
      refine ⟨previousDocId, ?_, ?_⟩
      · rw [PostingList.checkPostings, Nat.sub_zero, h.stop_eq]
      · intro hne
        rw [hprevious (List.length_pos_iff.2 hne), Nat.sub_zero, h.lastDocId_eq hne]
  | succ left ih =>
      obtain ⟨i, hi⟩ : ∃ i, i = postings.length - (left + 1) := ⟨_, rfl⟩
      have hnext : postings.length - left = i + 1 := by omega
      have hp := List.getElem?_eq_getElem (l := postings) (i := i) (by omega)
      obtain ⟨header, hheader⟩ := h.exists_getElem?_headers (i := i) (by omega)
      have hposting := h.checkPosting hp hheader previousDocId (by
        intro hne
        rw [hprevious (by omega), hi])
      obtain ⟨docId, hrest, hlast⟩ := ih (by omega) postings[i].docId (by
        intro _
        rw [hnext, baseOf, Nat.add_sub_cancel, hp]
        rfl)
      refine ⟨docId, ?_, hlast⟩
      rw [hnext, startOf, hheader] at hrest
      rw [PostingList.checkPostings, h.size_eq, ← hi, ← h.size_eq, hposting, ok_bind]
      exact hrest

/-- What was checked passes the check. -/
theorem check (h : list.Checked postings headers) : list.check = .ok () := by
  obtain ⟨docId, hrun, hlast⟩ := h.checkPostings (Nat.le_refl postings.length)
    0 (absurd · (Nat.lt_irrefl _))
  rw [Nat.sub_self, startOf, ← h.size_eq] at hrun
  rw [check_eq_ok_iff]
  refine ⟨docId, hrun, ?_⟩
  intro hpos
  rw [h.size_eq] at hpos
  exact hlast (List.length_pos_iff.1 hpos)

/-- A posting that is appended lies in the data as well. -/
theorem append {next : PostingList} {posting : Posting} (h : list.Checked postings headers)
    (happend : list.append posting = .ok next) (hsize : next.data.size < UInt32.size) :
    ∃ header, next.Checked (postings ++ [posting]) (headers ++ [header]) := by
  have hsized := sized_of_append happend (Nat.lt_add_left _ hsize)
  obtain ⟨header, hlayout⟩ := h.toLayout.append happend hsized
  obtain ⟨delta, written, hdelta, hw, heq⟩ := append_of_accepts (accepts_of_append happend)
  rw [heq] at happend
  cases happend
  have hdata : (list.extend posting written).data = list.data ++ written := rfl
  rw [← eq_sub_of_difference hdelta] at hsized
  rw [h.baseDocId_eq] at hdelta
  have hsum := sum_of_difference hdelta
  obtain ⟨found, hwritten, -⟩ := exists_written list.data hw hsized
  have hlen := h.length_headers
  have hlast : (headers ++ [header])[postings.length]? = some header := by
    rw [← hlen, List.getElem?_concat_length]
  have hstart : startOf (headers ++ [header]) postings.length = list.data.size := by
    rw [startOf_append header (by omega), h.stop_eq]
  -- The header of the new posting is the one that reading finds.
  have hsame : found = header := by
    have hread := (hlayout.header (List.getElem?_concat_length ..) hlast).1
    rw [hstart, hdata, hwritten.readHeader hsum, Except.ok.injEq] at hread
    exact hread
  subst hsame
  refine ⟨found, hlayout, ?_⟩
  apply of_concat (p := fun base start posting header =>
    ∃ delta, header.Written (list.data ++ written) start delta posting ∧
      Word.sum base delta = .ok posting.docId) hlen
  · intro i p header' hp hheader
    obtain ⟨delta, hold, hsum⟩ := h.written hp hheader
    exact ⟨delta, hold.append written, hsum⟩
  · rw [h.stop_eq]
    exact ⟨delta, hwritten, hsum⟩

end Checked

end Concordance.PostingList
