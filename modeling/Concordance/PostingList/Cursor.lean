import Concordance.Posting.Reader
import Concordance.PostingList

/-!
# Cursors

A cursor stands on a posting of a list, or past the last. It holds the header of
its posting: the document id, the term frequency and where the regions end. Offset
pairs and positions stay written until they are asked for.

`seek` moves to the first posting at or above a document id. Where a span begins
and the next span starts below that id, the whole span is passed at once.

## Implementation notes

A cursor trusts its list. Reads that leave the data, or sums that leave the 32-bit
numbers, are faults; lists that were built by appending or accepted by decoding
have none.
-/

namespace Concordance

namespace PostingList

/-- What a cursor knows of the posting it stands on. -/
structure Header where
  docId : UInt32
  termFreq : UInt32
  offsetsStart : Nat
  offsetsStop : Nat
  next : Nat
  deriving DecidableEq, Repr

/-- The header of the posting at `offset`, whose id counts from `previousDocId`. -/
def readHeader (data : Bytes) (previousDocId : UInt32) (offset : Nat) : Except Fault Header := do
  let (contentSize, cur) ← Varint.read data data.size offset
  let next := cur + contentSize.toNat
  let (delta, cur) ← Varint.read data data.size cur
  let (termFreq, cur) ← Varint.read data data.size cur
  let (offsetsSize, cur) ← Varint.read data data.size cur
  let docId ← Word.sum previousDocId delta
  return ⟨docId, termFreq, cur, cur + offsetsSize.toNat, next⟩

end PostingList

/-- A place in a posting list; past the last posting the header is that of the last one. -/
structure Cursor where
  list : PostingList
  index : Nat
  header : PostingList.Header
  deriving DecidableEq, Repr

namespace Cursor

/-- Past the last posting. -/
def atEnd (cursor : Cursor) : Bool := cursor.list.size ≤ cursor.index

/-- Postings from the cursor on. -/
def remaining (cursor : Cursor) : Nat := cursor.list.size - cursor.index

/-- The cursor on the posting of a number that starts at `offset`, whose id counts from
`previousDocId`. -/
def goto (list : PostingList) (index : Nat) (previousDocId : UInt32) (offset : Nat) :
    Except Fault Cursor := do
  let header ← PostingList.readHeader list.data previousDocId offset
  return ⟨list, index, header⟩

/-- Moves to the next posting, or past the last; from there it does not move. -/
def advance (cursor : Cursor) : Except Fault Cursor :=
  if cursor.list.size ≤ cursor.index then .ok cursor
  else if cursor.list.size ≤ cursor.index + 1 then .ok { cursor with index := cursor.index + 1 }
  else goto cursor.list (cursor.index + 1) cursor.header.docId cursor.header.next

/-- The span that follows the cursor's. -/
def nextSpan (cursor : Cursor) : Nat := cursor.index / cursor.list.span.postings + 1

/-- On the first posting of a span, with another span after it. -/
def hasSkip (cursor : Cursor) : Bool :=
  cursor.index % cursor.list.span.postings == 0 && cursor.nextSpan < cursor.list.skips.size

/-- Moves to the first posting of the next span, if there is one. -/
def skipSpan (cursor : Cursor) : Except Fault Cursor :=
  match cursor.list.skips.get? cursor.nextSpan with
  | none => .ok cursor
  | some entry =>
    goto cursor.list (cursor.nextSpan * cursor.list.span.postings) entry.previousDocId
      entry.start.toNat

/-- The cursor may pass the rest of its span on the way to a document id. -/
def skips (cursor : Cursor) (target : UInt32) : Bool :=
  cursor.hasSkip &&
    (cursor.list.skips.get? cursor.nextSpan).any fun entry => entry.previousDocId < target

/-- One move on the way to a document id. -/
def approach (cursor : Cursor) (target : UInt32) : Except Fault Cursor :=
  if cursor.skips target then cursor.skipSpan else cursor.advance

theorem goto_eq_ok {list : PostingList} {index offset : Nat} {previousDocId : UInt32}
    {cursor : Cursor} (h : goto list index previousDocId offset = .ok cursor) :
    cursor.list = list ∧ cursor.index = index := by
  unfold goto at h
  cases hr : PostingList.readHeader list.data previousDocId offset with
  | error fault => rw [hr] at h; cases h
  | ok header => rw [hr] at h; cases h; exact ⟨rfl, rfl⟩

/-- Advancing stays in the list and goes to the next number, unless at the end. -/
theorem advance_eq_ok {cursor next : Cursor} (h : cursor.advance = .ok next) :
    next.list = cursor.list ∧
      next.index = if cursor.index < cursor.list.size then cursor.index + 1 else cursor.index := by
  unfold advance at h
  split at h
  · next hend => cases h; exact ⟨rfl, (if_neg (by omega)).symm⟩
  · split at h
    · cases h; exact ⟨rfl, (if_pos (by omega)).symm⟩
    · obtain ⟨hl, hi⟩ := goto_eq_ok h
      exact ⟨hl, by rw [hi, if_pos (by omega)]⟩

/-- Approaching a document id stays in the list and goes on, unless at the end. -/
theorem approach_eq_ok {cursor next : Cursor} {target : UInt32}
    (h : cursor.approach target = .ok next) :
    next.list = cursor.list ∧ (cursor.index < cursor.list.size → cursor.index < next.index) := by
  unfold approach at h
  split at h
  · next hs =>
      unfold skipSpan at h
      split at h
      · next hn => simp [skips, hn] at hs
      · obtain ⟨hl, hi⟩ := goto_eq_ok h
        refine ⟨hl, fun _ => ?_⟩
        rw [hi, nextSpan]
        have := Nat.lt_div_mul_add (a := cursor.index) cursor.list.span.positive
        rw [Nat.add_mul, Nat.one_mul]
        exact this
  · obtain ⟨hl, hi⟩ := advance_eq_ok h
    refine ⟨hl, fun hlt => ?_⟩
    rw [hi, if_pos hlt]
    omega

/-- Moves forward to the first posting with a document id of at least `target`, or past
the last. -/
def seek (cursor : Cursor) (target : UInt32) : Except Fault Cursor :=
  if cursor.index < cursor.list.size ∧ cursor.header.docId < target then
    match _ : cursor.approach target with
    | .ok next => next.seek target
    | .error fault => .error fault
  else .ok cursor
termination_by cursor.remaining
decreasing_by
  have := approach_eq_ok ‹cursor.approach target = _›
  unfold remaining
  rw [this.1]
  have := this.2 (by omega)
  omega

/-- The document id of the posting. -/
def docId (cursor : Cursor) : Except Fault UInt32 :=
  if cursor.atEnd then .error (.cursorEnded .docId) else .ok cursor.header.docId

/-- The term frequency of the posting. -/
def termFreq (cursor : Cursor) : Except Fault UInt32 :=
  if cursor.atEnd then .error (.cursorEnded .termFreq) else .ok cursor.header.termFreq

/-- The reader of the posting's offset pairs. -/
def offsets (cursor : Cursor) : Except Fault OffsetReader :=
  if cursor.atEnd then .error (.cursorEnded .offsets)
  else .ok (.ofRegion cursor.list.data cursor.header.offsetsStart cursor.header.offsetsStop)

/-- The reader of the posting's positions. -/
def positions (cursor : Cursor) : Except Fault PositionReader :=
  if cursor.atEnd then .error (.cursorEnded .positions)
  else .ok (.ofRegion cursor.list.data cursor.header.offsetsStop cursor.header.next)

/-- The whole posting. -/
def posting (cursor : Cursor) : Except Fault Posting := do
  let docId ← cursor.docId
  let termFreq ← cursor.termFreq
  let offsets ← PopStream.toList (← cursor.offsets)
  let positions ← PopStream.toList (← cursor.positions)
  return ⟨docId, termFreq, offsets, positions⟩

/-- The cursor and those after it, up to the last posting. -/
def walk (cursor : Cursor) : Except Fault (List Cursor) :=
  if cursor.index < cursor.list.size then
    match _ : cursor.advance with
    | .error fault => .error fault
    | .ok next =>
      match next.walk with
      | .error fault => .error fault
      | .ok rest => .ok (cursor :: rest)
  else .ok []
termination_by cursor.remaining
decreasing_by
  have := advance_eq_ok ‹cursor.advance = _›
  unfold remaining
  rw [this.1, this.2]
  split <;> omega

end Cursor

namespace PostingList

/-- The cursor on the first posting. -/
def cursor (list : PostingList) : Except Fault Cursor :=
  if list.isEmpty then .error .emptyList
  else
    match list.skips.get? 0 with
    | some entry => Cursor.goto list 0 entry.previousDocId entry.start.toNat
    | none => .ok ⟨list, 0, ⟨0, 0, 0, 0, 0⟩⟩

/-- All postings of a list. -/
def postings (list : PostingList) : Except Fault (List Posting) :=
  if list.isEmpty then .ok []
  else do
    let cursors ← (← list.cursor).walk
    cursors.mapM Cursor.posting

end PostingList

end Concordance
