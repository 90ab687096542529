import Concordance.Proofs.PhraseWalk
import Concordance.Proofs.Ranking
import Concordance.Proofs.Start
import Concordance.Retrieval

/-!
# Postings whose size is cut

The size of a posting is written in 32 bits, and so is the size of its offset pairs, but a list
takes postings of any size. Here are the two ends of that: a posting of as many positions as
there are words, in which no position can be read, and one of half as many offset pairs, which
reads as if it had none. Both are alone in their lists, so that all of the bytes that a cursor
reads stand at the start of the data.
-/

namespace Concordance

open Result PopStream PostingList

namespace Posting

/-- A posting of the first document with so many occurrences, all at position 128. -/
def repeated (count : Nat) : Posting := ⟨0, 1, [], List.replicate count 128⟩

/-- A posting of the first document with so many offset pairs, all of them empty. -/
def hollow (count : Nat) : Posting := ⟨0, 1, List.replicate count ⟨0, 0⟩, []⟩

theorem check_repeated (count : Nat) : (repeated count).check = .ok () := by
  rw [Posting.check_eq_ok_iff, repeated, checkPositions_eq_ok_iff]
  refine ⟨rfl, fun position _ => UInt32.zero_le .., ?_⟩
  exact List.pairwise_replicate.2 (.inr (UInt32.le_refl _))

theorem check_hollow (count : Nat) : (hollow count).check = .ok () := by
  rw [Posting.check_eq_ok_iff, hollow, checkOffsets_eq_ok_iff]
  refine ⟨⟨?_, List.pairwise_replicate.2 (.inr (UInt32.le_refl _))⟩, rfl⟩
  intro pair hm
  rw [List.eq_of_mem_replicate hm]
  exact ⟨UInt32.le_refl _, UInt32.le_refl _⟩

theorem offsets_hollow_ne_nil {count : Nat} (h : 0 < count) : (hollow count).offsets ≠ [] :=
  mt (List.replicate_eq_nil_iff _).1 (Nat.ne_of_gt h)

theorem difference_self (value : UInt32) : Word.difference value value = .ok 0 := by
  rw [difference_of_le (UInt32.le_refl _), UInt32.sub_self]

theorem encode_zero : Varint.encode 0 = #[0] := by decide +kernel

theorem encodePositions_replicate (position : UInt32) (count : Nat) :
    encodePositions position (List.replicate count position) = .ok (Array.replicate count 0) := by
  induction count with
  | zero => rfl
  | succ count ih =>
      rw [List.replicate_succ, encodePositions, difference_self, ok_bind, ih, ok_bind, encode_zero,
        pure_eq_ok, Array.replicate_succ']

theorem encodeOffsets_replicate (count : Nat) :
    encodeOffsets 0 (List.replicate count ⟨0, 0⟩) = .ok (Array.replicate (2 * count) 0) := by
  induction count with
  | zero => rfl
  | succ count ih =>
      rw [List.replicate_succ, encodeOffsets, difference_self, ok_bind, ok_bind, ih, ok_bind,
        encode_zero, pure_eq_ok, Array.append_assoc, Nat.mul_succ, Array.replicate_succ',
        Array.replicate_succ']

/-- The first of the positions takes two bytes, and the distance of any other is zero. -/
theorem content_repeated (count : Nat) :
    (repeated (count + 1)).content 0 = .ok (#[0, 1, 0, 0x80, 1] ++ Array.replicate count 0) := by
  have hpositions : encodePositions 0 (List.replicate (count + 1) 128) =
      .ok (#[0x80, 1] ++ Array.replicate count 0) := by
    have hgap : Word.difference 128 0 = .ok 128 := by decide
    have hfirst : Varint.encode 128 = #[0x80, 1] := by decide +kernel
    rw [List.replicate_succ, encodePositions, hgap, ok_bind, encodePositions_replicate, ok_bind,
      hfirst, pure_eq_ok]
  have hstart : Varint.encode 0 ++ Varint.encode 1
      ++ Varint.encode (Array.size (#[] : Bytes)).toUInt32 ++ #[] = (#[0, 1, 0] : Bytes) := by
    decide +kernel
  simp only [content, repeated, encodeOffsets, ok_bind, hpositions, pure_eq_ok, hstart]
  rw [← Array.append_assoc]
  rfl

/-- As many bytes as there are words are written with a size of zero. -/
theorem content_hollow {count : Nat} (hcount : 2 * count = UInt32.size) :
    (hollow count).content 0 = .ok (#[0, 1, 0] ++ Array.replicate UInt32.size 0) := by
  have hsize : (Array.replicate UInt32.size (0 : UInt8)).size.toUInt32 = 0 := by
    rw [Array.size_replicate]
    decide
  have hstart : Varint.encode 0 ++ Varint.encode 1 ++ Varint.encode 0 = (#[0, 1, 0] : Bytes) := by
    decide +kernel
  simp only [content, hollow, encodeOffsets_replicate, hcount, encodePositions, ok_bind, pure_eq_ok,
    hsize, hstart, Array.append_empty]

end Posting

/-- Of a size that is too large for a word, only what the word holds is written. -/
theorem Varint.encode_size_append {start rest : Bytes} {kept : Nat}
    (h : start.size + rest.size = kept + UInt32.size) :
    encode (start ++ rest).size.toUInt32 = encode kept.toUInt32 := by
  have hword : (kept + UInt32.size).toUInt32 = kept.toUInt32 := by
    rw [← UInt32.toNat_inj]
    simp [Nat.toUInt32, UInt32.size]
  rw [Array.size_append, h, hword]

/-- A number whose first byte announces another goes on behind a region of one byte. -/
theorem Varint.readRegion_of_marked {bytes : Bytes} {cur : Nat} {byte : UInt8}
    (hget : bytes[cur]? = some byte) (hmarked : ¬ byte < 128) :
    readRegion bytes (cur + 1) cur = .error .outOfBounds := by
  have hlt := (Array.getElem?_eq_some_iff.1 hget).1
  have hfirst : bytes.below? (cur + 1) cur = some byte :=
    Bytes.below?_eq_some_iff.2 ⟨Nat.lt_succ_self cur, hget⟩
  have hsecond : bytes.below? (cur + 1) (cur + 1) = none := if_neg (Nat.lt_irrefl _)
  rw [readRegion, if_pos (Nat.succ_le_of_lt hlt), read, maxSize, readWithin, hfirst]
  simp only [if_neg hmarked]
  rw [readWithin, hsecond]

namespace Start
variable {posting : Posting} {content : Bytes} {header : Header}

/-- An empty list took this posting and no other, and the cursor did not pass it. -/
structure Alone (start : Start) (posting : Posting) : Prop where
  held : start.held = []
  offered : start.offered = [posting]
  left : start.left = [posting]

/-- A list takes its first posting whatever its size, and the cursor on it has the header that
is read there. -/
theorem exists_alone (span : SkipSpan) (hcheck : posting.check = .ok ())
    (hcontent : posting.content 0 = .ok content)
    (hread : readHeader (Varint.encode content.size.toUInt32 ++ content) posting.docId 0 =
      .ok header) :
    ∃ start : Start, start.Alone posting ∧ (content.size < UInt32.size → start.Sized) ∧
      start.cursor.list.data = Varint.encode content.size.toUInt32 ++ content ∧
      start.cursor.list.size = 1 ∧ start.cursor.index = 0 ∧ start.cursor.header = header := by
  have haccepts : (PostingList.empty span).Accepts posting :=
    ⟨fun hpos => absurd hpos (Nat.lt_irrefl 0), hcheck, Nat.zero_lt_succ _⟩
  obtain ⟨delta, written, hdelta, hwritten, happend⟩ := append_of_accepts haccepts
  have hbase : (PostingList.empty span).baseDocId posting.docId = posting.docId := rfl
  rw [hbase, Posting.difference_self, Except.ok.injEq] at hdelta
  subst hdelta
  obtain ⟨found, hfound, rfl⟩ := Posting.encode_eq_ok_iff.1 hwritten
  rw [hcontent, Except.ok.injEq] at hfound
  subst hfound
  generalize hlist : (PostingList.empty span).extend posting
    (Varint.encode content.size.toUInt32 ++ content) = list at happend
  have hdata : list.data = Varint.encode content.size.toUInt32 ++ content := by
    rw [← hlist]
    exact Array.empty_append
  have hcursor : list.cursor = .ok ⟨list, 0, header⟩ := by
    rw [← hdata] at hread
    have hskips : list.skips.get? 0 = some ⟨posting.docId, 0⟩ := by
      rw [← hlist]
      simp [extend, PostingList.empty, SkipIndex.empty, SkipIndex.push, SkipIndex.get?, baseDocId,
        isEmpty]
    have hempty : list.isEmpty = false := by
      rw [← hlist]
      rfl
    rw [PostingList.cursor, hempty, hskips]
    simp only [Bool.false_eq_true, if_false]
    exact Cursor.goto_of_readHeader hread
  have hoffered : (PostingList.empty span).offerAll [posting] = list := by
    simp only [offerAll, happend]
  have haccepted : (PostingList.empty span).accepted [posting] = [posting] := by
    simp only [accepted, happend]
  refine ⟨⟨.empty span, [], .empty span, [posting], [], ⟨list, 0, header⟩, ?_⟩,
    ⟨rfl, rfl, haccepted⟩, ?_, hdata, ?_, rfl, rfl⟩
  · rw [hoffered, hcursor]
    rfl
  · intro hsize
    simp only [Start.Sized, PostingList.Sized, happend, hbase, UInt32.sub_self, and_true]
    intro other hother
    rw [hcontent, Except.ok.injEq] at hother
    exact hother ▸ hsize
  · simp only [← hlist]
    rfl

end Start

section Alone
variable {cursor first second : Cursor}

theorem Cursor.advance_alone (hindex : cursor.index = 0) (hsize : cursor.list.size = 1) :
    cursor.advance = .ok { cursor with index := 1 } := by
  rw [advance, if_neg (by omega), if_pos (by omega), hindex]

/-- A cursor on the only posting of its list is the only place of a walk. -/
theorem Conjunction.alignments_one (hindex : cursor.index = 0) (hsize : cursor.list.size = 1) :
    alignments [cursor] = .ok [[cursor]] := by
  have hadvance := cursor.advance_alone hindex hsize
  have hend : ({ cursor with index := 1 } : Cursor).walk = .ok [] := by
    rw [Cursor.walk, if_neg]
    simp only [hsize]
    omega
  have hwalk : cursor.walk = .ok [cursor] := by
    rw [Cursor.walk, if_pos (by omega)]
    split
    · next hfault => rw [hadvance] at hfault; cases hfault
    · next hnext =>
        rw [hadvance] at hnext
        cases hnext
        rw [hend]
  rw [alignments, hwalk]
  rfl

/-- Two cursors on the only postings of their lists are aligned once, on the same document. -/
theorem Conjunction.alignments_two (hindex : first.index = 0) (hsize : first.list.size = 1)
    (hindex' : second.index = 0) (hsize' : second.list.size = 1)
    (hdocId : first.header.docId = second.header.docId) :
    alignments [first, second] = .ok [[first, second]] := by
  have hadvance := first.advance_alone hindex hsize
  have hadvance' := second.advance_alone hindex' hsize'
  have hsame : ¬ first.header.docId < second.header.docId := hdocId ▸ UInt32.lt_irrefl _
  have hsame' : ¬ second.header.docId < first.header.docId := hdocId ▸ UInt32.lt_irrefl _
  have hend : alignTwo { first with index := 1 } { second with index := 1 } = .ok [] := by
    rw [alignTwo, dif_neg]
    simp only [hsize]
    omega
  have htwo : alignTwo first second = .ok [(first, second)] := by
    rw [alignTwo, dif_pos ⟨by omega, by omega⟩, dif_neg hsame', dif_neg hsame]
    split
    · next hfault => rw [hadvance] at hfault; cases hfault
    · next hnext =>
        rw [hadvance] at hnext
        cases hnext
        split
        · next hfault => rw [hadvance'] at hfault; cases hfault
        · next hnext =>
            rw [hadvance'] at hnext
            cases hnext
            rw [hend]
  rw [alignments, htwo]
  rfl

end Alone

namespace Retrieval

/-- The content of a posting of as many positions as there are words is written with a size of
four. Its header then ends the region of the positions inside the first of them. -/
theorem exists_repeated (span : SkipSpan) :
    ∃ start : Start, start.Alone (.repeated UInt32.size) ∧ start.cursor.list.size = 1 ∧
      start.cursor.index = 0 ∧ start.cursor.header.docId = 0 ∧
      ∃ reader rest, start.cursor.positions = .ok reader ∧ PopStream.atEnd reader = false ∧
        PopStream.pop reader = (.error .outOfBounds, rest) := by
  obtain ⟨count, hcount⟩ : ∃ count, UInt32.size = count + 1 := ⟨_, rfl⟩
  have hcontent := Posting.content_repeated count
  rw [← hcount] at hcontent
  -- The bytes get a name, as they are too many for any step to write them out.
  generalize hbytes : (#[0, 1, 0, 0x80, 1] ++ Array.replicate count 0 : Bytes) = content at hcontent
  have hsize : Varint.encode content.size.toUInt32 = #[4] := by
    have hwrap : (#[0, 1, 0, 0x80, 1] : Bytes).size + (Array.replicate count (0 : UInt8)).size =
        4 + UInt32.size := by
      rw [Array.size_replicate, hcount]
      simp only [List.size_toArray, List.length_cons, List.length_nil]
      omega
    rw [← hbytes, Varint.encode_size_append hwrap]
    decide +kernel
  have hdata : Varint.encode content.size.toUInt32 ++ content =
      #[4, 0, 1, 0, 0x80, 1] ++ Array.replicate count 0 := by
    rw [hsize, ← hbytes, ← Array.append_assoc]
    rfl
  have hread : readHeader (Varint.encode content.size.toUInt32 ++ content)
      (Posting.repeated UInt32.size).docId 0 = .ok ⟨0, 1, 4, 4, 5⟩ := by
    rw [hdata]
    exact readHeader_append (by decide +kernel) _
  obtain ⟨start, halone, -, hstartData, hstartSize, hindex, hheader⟩ :=
    Start.exists_alone span (Posting.check_repeated _) hcontent hread
  refine ⟨start, halone, hstartSize, hindex, by rw [hheader],
    .ofRegion start.cursor.list.data 4 5, .ofRegion start.cursor.list.data 4 5, ?_, rfl, ?_⟩
  · rw [Cursor.positions, Cursor.atEnd, hstartSize, hindex, hheader]
    rfl
  · have hmarked : Varint.readRegion start.cursor.list.data 5 4 = .error .outOfBounds := by
      have hget : start.cursor.list.data[4]? = some 0x80 := by
        rw [hstartData, hdata, Array.getElem?_append_left (by decide)]
        rfl
      exact Varint.readRegion_of_marked hget (by decide)
    simp only [PopStream.pop, PositionReader.ofRegion, hmarked]
    rfl

/-- A posting with an occurrence right behind those of a repeated one. -/
def following : Posting := ⟨0, 1, [], [129]⟩

theorem exists_following (span : SkipSpan) :
    ∃ start : Start, start.Alone following ∧ start.cursor.list.size = 1 ∧
      start.cursor.index = 0 ∧ start.cursor.header.docId = 0 ∧
      ∃ reader, start.cursor.positions = .ok reader ∧ Gives reader [129] := by
  have hcontent : following.content 0 = .ok #[0, 1, 0, 0x81, 1] := by decide +kernel
  obtain ⟨start, halone, hsized, -, hsize, hindex, hheader⟩ := Start.exists_alone span
    rfl hcontent (by decide +kernel : readHeader _ _ 0 = .ok ⟨0, 1, 4, 4, 6⟩)
  have hshows := start.shows fun _ : True => hsized (by decide)
  rw [halone.left] at hshows
  have hstands : start.cursor.StandsOn True following := ⟨[], hshows⟩
  exact ⟨start, halone, hsize, hindex, by rw [hheader], hstands.positions trivial⟩

/-- A phrase cannot be sought in a posting of as many positions as there are words: the run ends
with a fault, though the posting was accepted and its document holds the phrase. -/
theorem exists_run_repeated :
    ∃ first second : Start, first.Alone (.repeated UInt32.size) ∧ second.Alone following ∧
      ∀ retrieval : Retrieval, retrieval.isPhrase = true → 0 < retrieval.count →
        retrieval.run [first.cursor, second.cursor] = .error (.fault .outOfBounds) := by
  obtain ⟨first, halone, hsize, hindex, hdocId, reader, rest, hpositions, hend, hpop⟩ :=
    exists_repeated .default
  obtain ⟨second, halone', hsize', hindex', hdocId', reader', hpositions', hgives⟩ :=
    exists_following .default
  refine ⟨first, second, halone, halone', ?_⟩
  intro retrieval hphrase hcount
  have halign := Conjunction.alignments_two hindex hsize hindex' hsize' (by rw [hdocId, hdocId'])
  have htable : phraseTable [first.cursor, second.cursor] = .error .outOfBounds := by
    have hreaders : [first.cursor, second.cursor].mapM Cursor.positions =
        .ok [reader, reader'] := by
      rw [mapM_eq_ok_iff]
      exact .cons hpositions (.cons hpositions' .nil)
    rw [phraseTable, hreaders, ok_bind]
    exact Phrase.walkTable_fault hgives hend hpop
  have hactive : retrieval.phraseActive 2 = true := by
    rw [phraseActive, hphrase]
    rfl
  have hdoc : first.cursor.docId = .ok 0 := by
    rw [Cursor.docId, Cursor.atEnd, hsize, hindex, hdocId]
    rfl
  rw [run, if_neg (Nat.ne_of_gt hcount), halign]
  simp [hits, hit?, hdoc, hactive, htable, liftM_fault_error]

/-- A posting of half as many offset pairs as there are words is written with a size of zero for
them. The hit of its document has a reader of no pair. -/
theorem exists_run_hollow {count : Nat} (hsize : 2 * count = UInt32.size) :
    ∃ start : Start, start.Alone (.hollow count) ∧
      ∀ (retrieval : Retrieval) (length : UInt32), 0 < retrieval.count →
        retrieval.lengths.length 0 = .ok length →
        ∃ hit reader, retrieval.run [start.cursor] = .ok [hit] ∧ hit.docId = 0 ∧
          hit.offsets = [reader] ∧ PopStream.toList reader = .ok [] := by
  have hcontent := Posting.content_hollow hsize
  generalize hbytes : (#[0, 1, 0] ++ Array.replicate UInt32.size 0 : Bytes) = content at hcontent
  have hword : Varint.encode content.size.toUInt32 = #[3] := by
    have hwrap : (#[0, 1, 0] : Bytes).size + (Array.replicate UInt32.size (0 : UInt8)).size =
        3 + UInt32.size := by rw [Array.size_replicate]; rfl
    rw [← hbytes, Varint.encode_size_append hwrap]
    decide +kernel
  have hread : readHeader (Varint.encode content.size.toUInt32 ++ content)
      (Posting.hollow count).docId 0 = .ok ⟨0, 1, 4, 4, 4⟩ := by
    have hshort : readHeader #[3, 0, 1, 0] 0 0 = .ok ⟨0, 1, 4, 4, 4⟩ := by decide +kernel
    rw [hword, ← hbytes, ← Array.append_assoc]
    exact readHeader_append hshort _
  obtain ⟨start, halone, -, -, hstartSize, hindex, hheader⟩ :=
    Start.exists_alone .default (Posting.check_hollow _) hcontent hread
  refine ⟨start, halone, ?_⟩
  intro retrieval length hcount hlength
  have hatEnd : start.cursor.atEnd = false := by
    rw [Cursor.atEnd, hstartSize, hindex]
    rfl
  have hdoc : start.cursor.docId = .ok 0 := by
    rw [Cursor.docId, hatEnd, hheader]
    rfl
  have hfreq : start.cursor.termFreq = .ok 1 := by
    rw [Cursor.termFreq, hatEnd, hheader]
    rfl
  have hoffsets : start.cursor.offsets = .ok (.ofRegion start.cursor.list.data 4 4) := by
    rw [Cursor.offsets, hatEnd, hheader]
    rfl
  have hactive : retrieval.phraseActive 1 = false := by simp [phraseActive]
  obtain ⟨hit, hhit, hdocId, hreader⟩ : ∃ hit,
      retrieval.hits (retrieval.rarities [start.cursor]) [[start.cursor]] = .ok [hit] ∧
        hit.docId = 0 ∧ hit.offsets = [.ofRegion start.cursor.list.data 4 4] := by
    simp [hits, hit?, score, hdoc, hfreq, hoffsets, hactive, hlength]
  have hbest : Hit.best retrieval.count [hit] = [hit] :=
    List.perm_singleton.1 (Ranking.best_perm _ _ hcount)
  refine ⟨hit, .ofRegion start.cursor.list.data 4 4, ?_, hdocId, hreader, rfl⟩
  rw [run, if_neg (Nat.ne_of_gt hcount), Conjunction.alignments_one hindex hstartSize]
  simp [hhit, hbest]

end Retrieval

end Concordance
