import Concordance.Proofs.Checksum
import Concordance.Proofs.Snapshot

/-!
# Damaged snapshots are refused

A header accepts no bytes but those that it is put before: the stored form of some payload.
Two stored forms of different payloads say so in the size that they give or, where the sizes
are the same, in the checksum, and neither can be made good by a change of four bytes.
-/

namespace Concordance.Snapshot

open Layout Result

variable {bytes payload other : Bytes} {start : Nat}

/-- What became of stored bytes: the end was cut off, more was put behind them, or a burst
changed some of the four bytes from one place on. -/
inductive Damaged (stored : Bytes) : Bytes → Prop
  | cut (size : Nat) (hsize : size < stored.size) : Damaged stored (stored.extract 0 size)
  | extended (more : Bytes) (hmore : more ≠ #[]) : Damaged stored (stored ++ more)
  | burst {bytes : Bytes} (start : Nat) (hsize : stored.size = bytes.size)
      (houtside : ∀ i, i < start ∨ start + 4 ≤ i → stored[i]? = bytes[i]?)
      (hne : stored ≠ bytes) : Damaged stored bytes

/-- Payloads whose headers agree have the same size. -/
theorem size_eq_of_addHeader (hsize : payload.size < UInt64.size) (hother : other.size < UInt64.size)
    (hagree : ∀ i, i < headerSize → (addHeader payload)[i]? = (addHeader other)[i]?) :
    payload.size = other.size := by
  obtain ⟨-, -, -, hat, -⟩ := at_addHeader payload
  obtain ⟨-, -, -, hatOther, -⟩ := at_addHeader other
  have hlong := size_addHeader payload
  have hlongOther := size_addHeader other
  rw [headerSize] at hlong hlongOther hagree
  have hatCopy : (addHeader other).At 16 (writeCount payload.size) := by
    intro i hi
    have hplace : 16 + i < 24 := by
      rw [size_writeCount] at hi
      omega
    exact (hagree _ hplace).symm.trans (hat i hi)
  calc
    payload.size = headerField (addHeader other) 16 8 :=
      (headerField_of_at hatCopy (by omega) hsize).symm
    _ = other.size := headerField_of_at hatOther (by omega) hother

/-- No burst in the stored form of a payload makes it that of another. The checksum lies more
than four bytes before the payload, so that a burst in the one leaves the other as it was. -/
theorem eq_of_burst_addHeader (hwhole : (addHeader payload).size = (addHeader other).size)
    (houtside : ∀ i, i < start ∨ start + 4 ≤ i → (addHeader payload)[i]? = (addHeader other)[i]?) :
    payload = other := by
  obtain ⟨-, -, hatChecksum, -, hat⟩ := at_addHeader payload
  obtain ⟨-, -, hatOtherChecksum, -, hatOther⟩ := at_addHeader other
  have hlong := size_addHeader payload
  have hlongOther := size_addHeader other
  have hsize : payload.size = other.size := by omega
  rw [headerSize] at hlong hlongOther hat hatOther
  have hsame (i : Nat) (hi : 24 + i < start ∨ start + 4 ≤ 24 + i) : payload[i]? = other[i]? := by
    by_cases hlt : i < payload.size
    · calc
        payload[i]? = (addHeader payload)[24 + i]? := (hat i hlt).symm
        _ = (addHeader other)[24 + i]? := houtside _ hi
        _ = other[i]? := hatOther i (hsize ▸ hlt)
    · rw [Array.getElem?_eq_none (by omega), Array.getElem?_eq_none (by omega)]
  by_contra hne
  have hbehind : 20 < start := by
    by_contra hbefore
    exact hne (Array.ext_getElem? fun i => hsame i (.inr (by omega)))
  have hatCopy : (addHeader other).At 12 (writeWord (Checksum.compute payload)) := by
    intro i hi
    have hplace : 12 + i < start := by
      rw [writeWord, size_writeNat] at hi
      omega
    exact (houtside _ (.inl hplace)).symm.trans (hatChecksum i hi)
  have hchecksum : Checksum.compute payload = Checksum.compute other := by
    apply UInt32.toNat_inj.1
    calc
      (Checksum.compute payload).toNat = headerField (addHeader other) 12 4 :=
        (headerField_of_at hatCopy (by omega) (UInt32.toNat_lt _)).symm
      _ = (Checksum.compute other).toNat :=
        headerField_of_at hatOtherChecksum (by omega) (UInt32.toNat_lt _)
  refine Checksum.compute_ne_of_burst (start - 24) hsize (fun i hi => hsame i ?_) hne hchecksum
  omega

/-- The header refuses damaged bytes, before anything of the payload is read. -/
theorem decode_damaged {snapshot : Snapshot} {entries : List (UInt32 × UInt32)}
    (hsize : (snapshot.encodeIn entries).size < UInt64.size)
    (hdamaged : Damaged (snapshot.encodeIn entries) bytes) :
    ∃ error, stripHeader bytes = .error error ∧ decode bytes = .error error := by
  cases hstrip : stripHeader bytes with
  | error error => exact ⟨error, rfl, by rw [decode, hstrip, error_bind]⟩
  | ok other =>
      exfalso
      obtain ⟨hother, hbytes⟩ := stripHeader_eq_ok_iff.1 hstrip
      rw [encodeIn] at hsize hdamaged
      obtain ⟨payload, hpayload⟩ : ∃ payload, payload = snapshot.writePayload entries := ⟨_, rfl⟩
      rw [← hpayload] at hsize hdamaged
      have hlong := size_addHeader payload
      have hlongOther := size_addHeader other
      have hpayloadSize : payload.size < UInt64.size := by omega
      cases hdamaged with
      | cut size hcut =>
          have hcutSize := congrArg Array.size hbytes
          rw [Array.size_extract] at hcutSize
          have hsizes := size_eq_of_addHeader hpayloadSize hother fun i hi => by
            rw [← hbytes, Array.getElem?_extract, if_pos (by omega), Nat.zero_add]
          omega
      | extended more hmore =>
          have hmoreSize := congrArg Array.size hbytes
          have hpos : 0 < more.size := Array.size_pos_iff.2 hmore
          rw [Array.size_append] at hmoreSize
          have hsizes := size_eq_of_addHeader hpayloadSize hother fun i hi => by
            rw [← hbytes, Array.getElem?_append_left (by omega)]
          omega
      | burst start hwhole houtside hne =>
          rw [hbytes] at hwhole houtside hne
          exact hne (congrArg addHeader (eq_of_burst_addHeader hwhole houtside))

/-- The snapshot of an engine without documents. -/
def emptySnapshot : Snapshot := ⟨.default, 0, .empty, []⟩

/-- A burst over the end of the header and the start of the payload is refused. -/
theorem decode_damaged_border :
    (emptySnapshot.encodeIn []).size < UInt64.size ∧
      Damaged (emptySnapshot.encodeIn [])
        (((emptySnapshot.encodeIn []).set! 23 1).set! 25 255) ∧
      ∃ error, decode (((emptySnapshot.encodeIn []).set! 23 1).set! 25 255) = .error error := by
  have hsize : (emptySnapshot.encodeIn []).size < UInt64.size := by decide +kernel
  have hdamaged : Damaged (emptySnapshot.encodeIn [])
      (((emptySnapshot.encodeIn []).set! 23 1).set! 25 255) := by
    refine .burst 23 (by simp) (fun i hi => ?_) (by decide +kernel)
    rw [Array.set!_eq_setIfInBounds, Array.set!_eq_setIfInBounds,
      Array.getElem?_setIfInBounds_ne (by omega), Array.getElem?_setIfInBounds_ne (by omega)]
  obtain ⟨error, -, herror⟩ := decode_damaged hsize hdamaged
  exact ⟨hsize, hdamaged, error, herror⟩

end Concordance.Snapshot
