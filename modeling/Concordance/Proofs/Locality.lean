import Concordance.Proofs.RoundTrip

/-!
# A stored list is told by its own bytes

Decoding takes a list from the bytes between its start and its end and from no others: the
size of all bytes only bounds the end. The same bytes therefore give the same list whatever
stands around them, and no bytes that end before the list does give any.

## Implementation notes

The end of the skip index is known before it is decoded, and its count of entries is compared
with the bytes up to there. This is why the index is decoded below the same bound in both.
-/

namespace Concordance

open Result

namespace SkipIndex
variable {bytes other : Bytes} {stop count cur next : Nat} {previous : SkipEntry}
  {entries : List SkipEntry} {index : SkipIndex}

/-- What is decoded of one entry, and of the entries behind it. -/
theorem decodeEntries_succ_eq_ok_iff :
    decodeEntries bytes stop (count + 1) previous cur = .ok (entries, next) ↔
      ∃ docIdGap middle startGap behind entry rest,
        Varint.decode bytes stop cur = .ok (docIdGap, middle) ∧
        Varint.decode bytes stop middle = .ok (startGap, behind) ∧
        Word.sum? previous.previousDocId docIdGap = some entry.previousDocId ∧
        Word.sum? previous.start startGap = some entry.start ∧
        decodeEntries bytes stop count entry behind = .ok (rest, next) ∧
        entries = entry :: rest := by
  simp only [decodeEntries, throw_eq_error, bind_eq_ok_iff, liftM_malformed_eq_ok_iff,
    Prod.exists]
  constructor
  · rintro ⟨docIdGap, middle, hdocIdGap, startGap, behind, hstartGap, h⟩
    cases hdocId : Word.sum? previous.previousDocId docIdGap with
    | none => simp [hdocId] at h
    | some docId =>
        cases hstart : Word.sum? previous.start startGap with
        | none => simp [hdocId, hstart] at h
        | some start =>
            simp only [hdocId, hstart, bind_eq_ok_iff, pure_eq_ok, Except.ok.injEq, Prod.exists,
              Prod.mk.injEq] at h
            obtain ⟨rest, _, hrest, rfl, rfl⟩ := h
            exact ⟨docIdGap, middle, startGap, behind, ⟨docId, start⟩, rest, hdocIdGap, hstartGap,
              hdocId, hstart, hrest, rfl⟩
  · rintro ⟨docIdGap, middle, startGap, behind, entry, rest, hdocIdGap, hstartGap, hdocId, hstart,
      hrest, rfl⟩
    refine ⟨docIdGap, middle, hdocIdGap, startGap, behind, hstartGap, ?_⟩
    simp only [hdocId, hstart, hrest, ok_bind, pure_eq_ok]

theorem le_of_decodeEntries
    (h : decodeEntries bytes stop count previous cur = .ok (entries, next)) : cur ≤ next := by
  induction count generalizing previous cur entries with
  | zero =>
      cases h
      exact Nat.le_refl _
  | succ count ih =>
      obtain ⟨docIdGap, middle, startGap, behind, entry, rest, hdocIdGap, hstartGap, -, -, hrest,
        -⟩ := decodeEntries_succ_eq_ok_iff.1 h
      have := Varint.lt_of_decode hdocIdGap
      have := Varint.lt_of_decode hstartGap
      have := ih hrest
      omega

theorem decodeEntries_of_keptIn
    (h : decodeEntries bytes stop count previous cur = .ok (entries, next))
    (hkept : bytes.KeptIn other cur next) :
    decodeEntries other stop count previous cur = .ok (entries, next) := by
  induction count generalizing previous cur entries with
  | zero => exact h
  | succ count ih =>
      rw [decodeEntries_succ_eq_ok_iff] at h ⊢
      obtain ⟨docIdGap, middle, startGap, behind, entry, rest, hdocIdGap, hstartGap, hdocId,
        hstart, hrest, hentries⟩ := h
      have hmiddle := Varint.lt_of_decode hdocIdGap
      have hbehind := Varint.lt_of_decode hstartGap
      have hnext := le_of_decodeEntries hrest
      refine ⟨docIdGap, middle, startGap, behind, entry, rest, ?_, ?_, hdocId, hstart, ?_,
        hentries⟩
      · exact Varint.decode_of_keptIn hdocIdGap (hkept.mono (by omega) (by omega)) hmiddle.2
      · exact Varint.decode_of_keptIn hstartGap (hkept.mono (by omega) (by omega)) hbehind.2
      · exact ih hrest (hkept.mono (by omega) (Nat.le_refl _))

theorem decode_eq_ok_iff {offset : Nat} :
    SkipIndex.decode bytes stop offset = .ok (index, next) ↔
      ∃ count cur, Varint.decode bytes stop offset = .ok (count, cur) ∧
        count.toNat ≤ (stop - cur) / 2 ∧
        decodeEntries bytes stop count.toNat ⟨0, 0⟩ cur = .ok (index.entries.toList, next) := by
  simp only [SkipIndex.decode, throw_eq_error, error_bind, bind_eq_ok_iff,
    liftM_malformed_eq_ok_iff, ite_error_eq_ok_iff, pure_eq_ok, Except.ok.injEq, Prod.exists,
    Prod.mk.injEq, Nat.not_lt]
  constructor
  · rintro ⟨count, cur, hcount, hroom, entries, next, hentries, rfl, rfl⟩
    exact ⟨count, cur, hcount, hroom, hentries⟩
  · rintro ⟨count, cur, hcount, hroom, hentries⟩
    exact ⟨count, cur, hcount, hroom, _, next, hentries, rfl, rfl⟩

theorem lt_of_decode {offset : Nat} (h : SkipIndex.decode bytes stop offset = .ok (index, next)) :
    offset < next := by
  obtain ⟨count, cur, hcount, -, hentries⟩ := decode_eq_ok_iff.1 h
  have := Varint.lt_of_decode hcount
  have := le_of_decodeEntries hentries
  omega

theorem decode_of_keptIn {offset : Nat}
    (h : SkipIndex.decode bytes stop offset = .ok (index, next))
    (hkept : bytes.KeptIn other offset next) :
    SkipIndex.decode other stop offset = .ok (index, next) := by
  rw [decode_eq_ok_iff] at h ⊢
  obtain ⟨count, cur, hcount, hroom, hentries⟩ := h
  have hcur := Varint.lt_of_decode hcount
  have hnext := le_of_decodeEntries hentries
  refine ⟨count, cur, ?_, hroom, ?_⟩
  · exact Varint.decode_of_keptIn hcount (hkept.mono (Nat.le_refl _) hnext) hcur.2
  · exact decodeEntries_of_keptIn hentries (hkept.mono (by omega) (Nat.le_refl _))

end SkipIndex

namespace PostingList
variable {bytes other : Bytes} {offset stop : Nat} {list : PostingList}

/-- A stored list has bytes, and they end within those that it is decoded from. -/
theorem bounds_of_decode (h : decode bytes offset = .ok (list, stop)) :
    offset < stop ∧ stop ≤ bytes.size := by
  obtain ⟨first, size, second, postings, third, dataStop, skipsSize, skipsStart, hfirst, hsecond,
    hthird, hdata, hskipsSize, -, hstop, hle, -⟩ := decode_eq_ok_iff.1 h
  have := Varint.lt_of_decode hfirst
  have := Varint.lt_of_decode hsecond
  have := Varint.lt_of_decode hthird
  have := Varint.Buffer.lt_of_decode hdata
  have := Varint.lt_of_decode hskipsSize
  omega

theorem decode_of_keptIn (h : decode bytes offset = .ok (list, stop))
    (hkept : bytes.KeptIn other offset stop) (hother : stop ≤ other.size) :
    decode other offset = .ok (list, stop) := by
  rw [decode_eq_ok_iff] at h ⊢
  obtain ⟨first, size, second, postings, third, dataStop, skipsSize, skipsStart, hfirst, hsecond,
    hthird, hdata, hskipsSize, hskips, hstop, hle, hrest⟩ := h
  have := Varint.lt_of_decode hfirst
  have := Varint.lt_of_decode hsecond
  have := Varint.lt_of_decode hthird
  have := Varint.Buffer.lt_of_decode hdata
  have := Varint.lt_of_decode hskipsSize
  have := SkipIndex.lt_of_decode hskips
  have hwithin {first last : Nat} (hfirst : offset ≤ first) (hlast : last ≤ stop) :
      bytes.KeptIn other first last := hkept.mono hfirst hlast
  refine ⟨first, size, second, postings, third, dataStop, skipsSize, skipsStart, ?_, ?_, ?_, ?_,
    ?_, ?_, hstop, hother, hrest⟩
  · exact Varint.decode_of_keptIn hfirst (hwithin (by omega) (by omega)) (by omega)
  · exact Varint.decode_of_keptIn hsecond (hwithin (by omega) (by omega)) (by omega)
  · exact Varint.decode_of_keptIn hthird (hwithin (by omega) (by omega)) (by omega)
  · exact Varint.Buffer.decode_of_keptIn hdata (hwithin (by omega) (by omega)) (by omega)
  · exact Varint.decode_of_keptIn hskipsSize (hwithin (by omega) (by omega)) (by omega)
  · exact SkipIndex.decode_of_keptIn hskips (hwithin (by omega) (by omega))

/-- A list that was decoded is decoded from all bytes that are the same from its start up to its
end, and ends at the same place; what is cut off before its end is refused, with an error about
the data. -/
theorem decode_local (h : decode bytes offset = .ok (list, stop)) :
    (offset < stop ∧ stop ≤ bytes.size) ∧
    (∀ other : Bytes, stop ≤ other.size →
      (∀ i, offset ≤ i → i < stop → other[i]? = bytes[i]?) →
        decode other offset = .ok (list, stop)) ∧
    ∀ cut, offset ≤ cut → cut < stop →
      ∃ error, decode (bytes.extract 0 cut) offset = .error error ∧ error.AboutData := by
  have hbounds := bounds_of_decode h
  refine ⟨hbounds, ?_, ?_⟩
  · intro other hsize hsame
    apply decode_of_keptIn h _ hsize
    intro i byte hi hi' hbyte
    rw [hsame i hi hi', hbyte]
  · intro cut _ hcut
    cases hfound : decode (bytes.extract 0 cut) offset with
    | error error => exact ⟨error, rfl, fails_decode _ _ error hfound⟩
    | ok found =>
        exfalso
        -- What is found in the first bytes is found in all of them, but the list ends later there.
        obtain ⟨other, otherStop⟩ := found
        have hstop := (bounds_of_decode hfound).2
        rw [Array.size_extract] at hstop
        have hwhole : decode bytes offset = .ok (other, otherStop) := by
          apply decode_of_keptIn hfound _ (by omega)
          intro i byte _ hi hbyte
          rwa [Array.getElem?_extract, if_pos (by omega), Nat.zero_add] at hbyte
        rw [h, Except.ok.injEq, Prod.mk.injEq] at hwhole
        omega

/-- Numbers that are longer than they have to be belong to the list like others. -/
theorem decode_local_overlong :
    decode (#[0x80] ++ overlongBytes ++ #[1, 2]) 1 = .ok (overlongList, 24) ∧
    decode (#[7] ++ overlongBytes) 1 = .ok (overlongList, 24) ∧
    ∃ error, decode ((#[0x80] ++ overlongBytes ++ #[1, 2]).extract 0 23) 1 = .error error ∧
      error.AboutData := by
  have hdecode : decode (#[0x80] ++ overlongBytes ++ #[1, 2]) 1 = .ok (overlongList, 24) := by
    decide +kernel
  obtain ⟨-, hother, hcut⟩ := decode_local hdecode
  refine ⟨hdecode, hother _ (by decide) ?_, hcut 23 (by decide) (by decide)⟩
  intro i hi hi'
  have hshift (first : UInt8) (rest : Bytes) : (#[first] ++ rest)[i]? = rest[i - 1]? :=
    Array.getElem?_append_right hi
  have hlt : i - 1 < overlongBytes.size := by
    change i - 1 < 23
    omega
  rw [Array.append_assoc, hshift, hshift, Array.getElem?_append_left hlt]

end PostingList

end Concordance
