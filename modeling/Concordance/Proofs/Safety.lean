import Concordance.Proofs.Validation

/-!
# Lists from outside are safe to read

`decode` gives a list only if it passes its check, so that the list holds postings in
order and no cursor, however it moves, and no reader of occurrences can fail on it. What
`decode` refuses, it refuses with an error about the data, never with a fault.
-/

namespace Concordance

open Result

namespace SearchError

/-- An error about data from outside: it is malformed or contradicts itself. -/
def AboutData (error : SearchError) : Prop :=
  (∃ cause, error = .invalidData cause) ∨ ∃ cause, error = .corruption cause

theorem aboutData_invalidData (cause : Malformed) : (invalidData cause).AboutData :=
  Or.inl ⟨cause, rfl⟩

theorem aboutData_corruption (cause : Corruption) : (corruption cause).AboutData :=
  Or.inr ⟨cause, rfl⟩

end SearchError

open SearchError

theorem fails_liftM_malformed {α : Type} (x : Except Malformed α) :
    Fails AboutData (liftM x : Except SearchError α) := by
  cases x with
  | error cause => exact .error (aboutData_invalidData cause)
  | ok a => exact .ok a

theorem fails_liftM_corruption {α : Type} (x : Except Corruption α) :
    Fails AboutData (liftM x : Except SearchError α) := by
  cases x with
  | error cause => exact .error (aboutData_corruption cause)
  | ok a => exact .ok a

theorem fails_corruption {α : Type} (cause : Corruption) :
    Fails AboutData (.error (.corruption cause) : Except SearchError α) :=
  .error (aboutData_corruption cause)

theorem Varint.Buffer.fails_decode (bytes : Bytes) (offset : Nat) :
    Fails AboutData (Varint.Buffer.decode bytes offset) := by
  unfold Varint.Buffer.decode
  apply Fails.bind (fails_liftM_malformed _)
  rintro ⟨length, start⟩
  exact .ite (fails_corruption _) (.ok _)

namespace SkipIndex

theorem fails_decodeEntries (bytes : Bytes) (stop count : Nat) (previous : SkipEntry)
    (cur : Nat) : Fails AboutData (decodeEntries bytes stop count previous cur) := by
  induction count generalizing previous cur with
  | zero => exact .ok _
  | succ count ih =>
      unfold decodeEntries
      apply Fails.bind (fails_liftM_malformed _)
      rintro ⟨docIdGap, middle⟩
      apply Fails.bind (fails_liftM_malformed _)
      rintro ⟨startGap, next⟩
      dsimp only
      split
      · split
        · apply Fails.bind (ih _ _)
          rintro ⟨entries, stop⟩
          exact .ok _
        · exact fails_corruption _
      · exact fails_corruption _

theorem fails_decode (bytes : Bytes) (stop offset : Nat) :
    Fails AboutData (SkipIndex.decode bytes stop offset) := by
  unfold SkipIndex.decode
  apply Fails.bind (fails_liftM_malformed _)
  rintro ⟨count, cur⟩
  apply Fails.ite (fails_corruption _)
  apply Fails.bind (fails_decodeEntries _ _ _ _ _)
  rintro ⟨entries, next⟩
  exact .ok _

end SkipIndex

namespace PostingList

theorem fails_checkOffsetRegion (data : Bytes) (posting stop : Nat) (previousStop : UInt32)
    (cur : Nat) : Fails AboutData (checkOffsetRegion data posting stop previousStop cur) := by
  fun_induction checkOffsetRegion data posting stop previousStop cur with
  | case1 => exact .ok ()
  | case2 _ _ _ cause => exact .error (aboutData_invalidData cause)
  | case3 => exact fails_corruption _
  | case4 => exact fails_corruption _
  | case5 _ _ _ _ _ _ _ _ _ _ _ ih => exact ih

theorem fails_checkPositionRegion (data : Bytes) (posting stop : Nat) (previous : UInt32)
    (cur : Nat) : Fails AboutData (checkPositionRegion data posting stop previous cur) := by
  fun_induction checkPositionRegion data posting stop previous cur with
  | case1 => exact .ok ()
  | case2 _ _ _ cause => exact .error (aboutData_invalidData cause)
  | case3 => exact fails_corruption _
  | case4 _ _ _ _ _ _ _ _ ih => exact ih

theorem fails_checkPosting (data : Bytes) (skips : SkipIndex) (span : SkipSpan)
    (size number : Nat) (previousDocId : UInt32) (cur : Nat) :
    Fails AboutData (checkPosting data skips span size number previousDocId cur) := by
  unfold checkPosting
  apply Fails.ite (fails_corruption _)
  apply Fails.bind (fails_liftM_corruption _)
  intro opening?
  apply Fails.bind (fails_liftM_malformed _)
  rintro ⟨contentSize, content⟩
  apply Fails.ite (fails_corruption _)
  apply Fails.bind (fails_liftM_malformed _)
  rintro ⟨delta, first⟩
  apply Fails.bind (fails_liftM_malformed _)
  rintro ⟨termFreq, second⟩
  apply Fails.bind (fails_liftM_malformed _)
  rintro ⟨offsetsSize, offsetsStart⟩
  apply Fails.bind (fails_liftM_corruption _)
  intro docId
  apply Fails.ite (fails_corruption _)
  apply Fails.bind (fails_checkOffsetRegion _ _ _ _ _)
  intro _
  apply Fails.bind (fails_checkPositionRegion _ _ _ _ _)
  intro _
  exact .ok _

theorem fails_checkPostings (data : Bytes) (skips : SkipIndex) (span : SkipSpan)
    (size left : Nat) (previousDocId : UInt32) (cur : Nat) :
    Fails AboutData (checkPostings data skips span size left previousDocId cur) := by
  induction left generalizing previousDocId cur with
  | zero => exact .ok _
  | succ left ih =>
      unfold checkPostings
      apply Fails.bind (fails_checkPosting _ _ _ _ _ _ _)
      rintro ⟨docId, next⟩
      exact ih docId next

theorem fails_check (list : PostingList) : Fails AboutData list.check := by
  unfold check
  apply Fails.bind (fails_checkPostings _ _ _ _ _ _ _)
  rintro ⟨docId, stop⟩
  apply Fails.ite (fails_corruption _)
  exact .ite (fails_corruption _) (.ok _)

/-- Decoding fails only with errors about the data. -/
theorem fails_decode (bytes : Bytes) (offset : Nat) :
    Fails AboutData (decode bytes offset) := by
  unfold decode
  apply Fails.bind (fails_liftM_malformed _)
  rintro ⟨lastDocId, first⟩
  apply Fails.bind (fails_liftM_malformed _)
  rintro ⟨size, second⟩
  apply Fails.bind (fails_liftM_malformed _)
  rintro ⟨postings, third⟩
  dsimp only
  split
  · apply Fails.bind (Varint.Buffer.fails_decode _ _)
    rintro ⟨data, dataStop⟩
    apply Fails.bind (fails_liftM_malformed _)
    rintro ⟨skipsSize, skipsStart⟩
    apply Fails.ite (fails_corruption _)
    apply Fails.bind (SkipIndex.fails_decode _ _ _)
    rintro ⟨skips, skipsStop⟩
    apply Fails.ite (fails_corruption _)
    apply Fails.ite (fails_corruption _)
    apply Fails.bind (fails_check _)
    intro _
    exact .ok _
  · exact fails_corruption _

/-- What is decoded: three numbers, the data, the skip index up to its end, and the check. -/
theorem decode_eq_ok_iff {bytes : Bytes} {offset stop : Nat} {list : PostingList} :
    decode bytes offset = .ok (list, stop) ↔
      ∃ first size second postings third dataStop skipsSize skipsStart,
        Varint.decode bytes bytes.size offset = .ok (list.lastDocId, first) ∧
        Varint.decode bytes bytes.size first = .ok (size, second) ∧
        Varint.decode bytes bytes.size second = .ok (postings, third) ∧
        Varint.Buffer.decode bytes third = .ok (⟨list.data⟩, dataStop) ∧
        Varint.decode bytes bytes.size dataStop = .ok (skipsSize, skipsStart) ∧
        SkipIndex.decode bytes stop skipsStart = .ok (list.skips, stop) ∧
        stop = skipsStart + skipsSize.toNat ∧ stop ≤ bytes.size ∧
        list.size = size.toNat ∧ list.span.postings = postings.toNat ∧
        list.skips.size = (list.size + list.span.postings - 1) / list.span.postings ∧
        list.check = .ok () := by
  simp only [decode, throw_eq_error, error_bind, bind_eq_ok_iff, liftM_malformed_eq_ok_iff,
    Prod.exists]
  constructor
  · rintro ⟨lastDocId, first, h1, size, second, h2, postings, third, h3, h⟩
    split at h
    · next positive =>
        simp only [bind_eq_ok_iff, ite_error_eq_ok_iff, liftM_malformed_eq_ok_iff, pure_eq_ok,
          Except.ok.injEq, Prod.exists, Prod.mk.injEq, ne_eq, not_not, Nat.not_lt] at h
        obtain ⟨data, dataStop, h4, skipsSize, skipsStart, h5, hstop, skips, _, h6, rfl, hsize, ⟨⟩,
          hcheck, rfl, rfl⟩ := h
        exact ⟨first, size, second, postings, third, dataStop, skipsSize, skipsStart, h1, h2, h3,
          h4, h5, h6, rfl, hstop, rfl, rfl, hsize, hcheck⟩
    · cases h
  · rintro ⟨first, size, second, postings, third, dataStop, skipsSize, skipsStart, h1, h2, h3, h4,
      h5, h6, rfl, hstop, hsize, hspan, hskips, hcheck⟩
    refine ⟨list.lastDocId, first, h1, size, second, h2, postings, third, h3, ?_⟩
    obtain ⟨data, skips, ⟨span, positive⟩, lastDocId, count⟩ := list
    simp only at hsize hspan hskips h4 h6
    subst hsize hspan
    rw [dif_pos positive]
    simp only [bind_eq_ok_iff, ite_error_eq_ok_iff, liftM_malformed_eq_ok_iff, pure_eq_ok,
      Except.ok.injEq, Prod.exists, Prod.mk.injEq, ne_eq, not_not, Nat.not_lt]
    exact ⟨⟨data⟩, dataStop, h4, skipsSize, skipsStart, h5, hstop, skips, _, h6, rfl, hskips, (),
      hcheck, rfl, rfl⟩

/-- A list that was decoded holds postings that lie in its data. -/
theorem exists_checked_of_decode {bytes : Bytes} {offset stop : Nat} {list : PostingList}
    (h : decode bytes offset = .ok (list, stop)) :
    ∃ postings headers, list.Checked postings headers := by
  obtain ⟨first, size, second, postings, third, dataStop, skipsSize, skipsStart, -, -, -, -, -, -,
    -, -, -, -, hskips, hcheck⟩ := decode_eq_ok_iff.1 h
  exact exists_checked hcheck hskips

/-- A walk over a list shows all its postings, with their headers. -/
theorem Layout.exists_walk {list : PostingList} {postings : List Posting} {headers : List Header}
    (h : list.Layout postings headers) (hne : postings ≠ []) :
    ∃ first cursors, list.cursor = .ok first ∧ first.Stands True postings headers ∧
      first.walk = .ok cursors ∧ cursors.map Cursor.header = headers ∧
      cursors.mapM Cursor.posting = .ok postings := by
  obtain ⟨first, hfirst, hstands, hindex⟩ := h.cursor hne
  obtain ⟨cursors, hwalk, hlength, hplaces⟩ := hstands.walk
  rw [hindex, Nat.sub_zero] at hlength
  have hplace {i : Nat} (hi : i < cursors.length) :
      cursors[i].Stands True postings headers ∧ cursors[i].index = i := by
    have := hplaces i cursors[i] (List.getElem?_eq_getElem hi)
    rwa [hindex, Nat.zero_add] at this
  refine ⟨first, cursors, hfirst, hstands, hwalk, ?_, ?_⟩
  · apply List.ext_getElem
    · rw [List.length_map, hlength, h.length_headers]
    · intro i hi hi'
      rw [List.length_map] at hi
      obtain ⟨hstands, hindex⟩ := hplace hi
      have hheader := hstands.header_eq
      rw [hindex, show min i (postings.length - 1) = i by omega,
        List.getElem?_eq_getElem hi', Option.some.injEq] at hheader
      rw [List.getElem_map, hheader]
  · rw [mapM_eq_ok_iff, List.forall₂_iff_get]
    refine ⟨hlength, ?_⟩
    intro i hi hi'
    obtain ⟨hstands, hindex⟩ := hplace hi
    apply hstands.posting trivial
    rw [hindex]
    exact List.getElem?_eq_getElem hi'

theorem Layout.postings_eq {list : PostingList} {postings : List Posting} {headers : List Header}
    (h : list.Layout postings headers) : list.postings = .ok postings := by
  rw [PostingList.postings, isEmpty, h.size_eq]
  by_cases hne : postings = []
  · subst hne
    rfl
  · obtain ⟨first, cursors, hfirst, -, hwalk, -, hpostings⟩ := h.exists_walk hne
    have hlength : (postings.length == 0) = false := by simpa using hne
    simp only [hlength, Bool.false_eq_true, if_false, hfirst, ok_bind, hwalk, hpostings]

/-- Whatever the bytes, decoding gives a list or an error about the data. A list with postings
can be read to its end: its postings are in order, up to the last document id of the list,
the skip index has the start and the base of every span, and after any moves a cursor shows
the posting of its number. -/
theorem decode_safe (bytes : Bytes) (offset : Nat) :
    Fails AboutData (decode bytes offset) ∧
    ∀ list stop, decode bytes offset = .ok (list, stop) → list.isEmpty = false →
      ∃ first cursors postings, list.cursor = .ok first ∧ first.walk = .ok cursors ∧
        cursors.mapM Cursor.posting = .ok postings ∧ postings.length = list.size ∧
        (∀ posting ∈ postings, posting.check = .ok ()) ∧
        (postings.Pairwise fun p q => p.docId < q.docId) ∧
        postings.getLast?.map Posting.docId = some list.lastDocId ∧
        (∀ span entry, list.skips.get? span = some entry →
          span * list.span.postings < list.size ∧
          entry.start.toNat =
            startOf (cursors.map Cursor.header) (span * list.span.postings) ∧
          entry.previousDocId = baseOf postings (span * list.span.postings)) ∧
        ∀ run, ∃ cursor, first.moves run = .ok cursor ∧ cursor.index ≤ list.size ∧
          ∀ posting, postings[cursor.index]? = some posting →
            cursor.posting = .ok posting := by
  refine ⟨fails_decode bytes offset, ?_⟩
  intro list stop hdecode hempty
  obtain ⟨postings, headers, h⟩ := exists_checked_of_decode hdecode
  have hne : postings ≠ [] := by
    rintro rfl
    rw [isEmpty, h.size_eq] at hempty
    cases hempty
  obtain ⟨first, cursors, hfirst, hstands, hwalk, hheaders, hpostings⟩ := h.exists_walk hne
  refine ⟨first, cursors, postings, hfirst, hwalk, hpostings, h.size_eq.symm, ?_, h.ordered, ?_,
    ?_, ?_⟩
  · intro posting hp
    exact h.check_posting hp
  · have hpos := List.length_pos_iff.2 hne
    rw [h.lastDocId_eq hne, baseOf, List.getLast?_eq_getElem?,
      List.getElem?_eq_getElem (by omega)]
    rfl
  · intro span entry hget
    obtain ⟨hbase, hstart⟩ := h.skip hget
    rw [hheaders, h.size_eq]
    exact ⟨(h.lt_skips_iff span).1 (Array.getElem?_eq_some_iff.1 hget).1, hstart, hbase⟩
  · intro run
    obtain ⟨cursor, hcursor, hcursorStands⟩ := hstands.moves run
    refine ⟨cursor, hcursor, ?_, ?_⟩
    · rw [h.size_eq]
      exact hcursorStands.index_le
    · intro posting hp
      exact hcursorStands.posting trivial hp

/-- A stored list of two postings, the first with a size that takes one byte more than it
has to. -/
def overlongBytes : Bytes :=
  #[9, 2, 1, 13, 0x83, 0, 0, 1, 0, 7, 4, 2, 2, 1, 3, 2, 5, 5, 2, 5, 0, 0, 5]

def overlongList : PostingList where
  data := #[0x83, 0, 0, 1, 0, 7, 4, 2, 2, 1, 3, 2, 5]
  skips := ⟨#[⟨5, 0⟩, ⟨5, 5⟩]⟩
  span := ⟨1, by decide⟩
  lastDocId := 9
  size := 2

theorem decode_overlongBytes : decode overlongBytes 0 = .ok (overlongList, 23) := by
  decide +kernel

/-- Numbers that are longer than they have to be are read like others. -/
theorem decode_safe_overlong :
    decode overlongBytes 0 = .ok (overlongList, 23) ∧ overlongList.isEmpty = false ∧
    ∃ first cursor, overlongList.cursor = .ok first ∧
      first.moves [.skipSpan, .seek 9] = .ok cursor ∧ cursor.index ≤ 2 := by
  obtain ⟨first, cursors, postings, hfirst, -, -, -, -, -, -, -, hruns⟩ :=
    (decode_safe overlongBytes 0).2 overlongList 23 decode_overlongBytes rfl
  obtain ⟨cursor, hcursor, hindex, -⟩ := hruns [.skipSpan, .seek 9]
  exact ⟨decode_overlongBytes, rfl, first, cursor, hfirst, hcursor, hindex⟩

end PostingList

end Concordance
