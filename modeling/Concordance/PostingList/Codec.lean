import Concordance.PostingList

/-!
# Stored posting lists

A stored list is the last document id, the posting count, the skip span, the
written postings behind their byte count, and the skip index behind its byte
count. `decode` accepts a list only if every posting can be read: it walks all of
them with checked reads and compares the skip index and the last document id with
what it finds.
-/

namespace Concordance.PostingList

def encode (list : PostingList) : Except Fault Bytes := do
  let skips ← list.skips.encode
  return Varint.encode list.lastDocId ++ Varint.encode list.size.toUInt32
    ++ Varint.encode list.span.postings.toUInt32
    ++ (Varint.Buffer.mk list.data).encode
    ++ Varint.encode skips.size.toUInt32 ++ skips

/-- Checks the offset pairs of a posting from `cur` up to `stop`. -/
def checkOffsetRegion (data : Bytes) (posting stop : Nat) (previousStop : UInt32) (cur : Nat) :
    Except SearchError Unit :=
  if stop ≤ cur then .ok ()
  else
    match _ : Varint.decode data stop cur with
    | .error cause => .error (.invalidData cause)
    | .ok (gap, middle) =>
      match _ : Varint.decode data stop middle with
      | .error _ => .error (.corruption (.badOffsetPair posting))
      | .ok (length, next) =>
        match (Word.sum? previousStop gap).bind (Word.sum? · length) with
        | none => .error (.corruption (.badOffsetPair posting))
        | some pairStop => checkOffsetRegion data posting stop pairStop next
termination_by stop - cur
decreasing_by
  have first := Varint.lt_of_decode ‹Varint.decode data stop cur = _›
  have second := Varint.lt_of_decode ‹Varint.decode data stop middle = _›
  omega

/-- Checks the positions of a posting from `cur` up to `stop`. -/
def checkPositionRegion (data : Bytes) (posting stop : Nat) (previous : UInt32) (cur : Nat) :
    Except SearchError Unit :=
  if stop ≤ cur then .ok ()
  else
    match _ : Varint.decode data stop cur with
    | .error cause => .error (.invalidData cause)
    | .ok (gap, next) =>
      match Word.sum? previous gap with
      | none => .error (.corruption (.positionOverflow posting))
      | some position => checkPositionRegion data posting stop position next
termination_by stop - cur
decreasing_by
  have := Varint.lt_of_decode ‹Varint.decode data stop cur = _›
  omega

/-- The entry of the span that a posting opens, which has to record where the posting
starts; none inside a span. -/
def checkSpanStart (skips : SkipIndex) (span : SkipSpan) (posting cur : Nat) :
    Except Corruption (Option SkipEntry) := do
  if posting % span.postings ≠ 0 then
    return none
  let number := posting / span.postings
  let some entry := skips.get? number | throw (.missingSpan posting)
  if entry.start.toNat ≠ cur then
    throw (.misplacedSpan number entry.start posting cur)
  return some entry

/-- The document id of a posting, from its difference to the id of the posting before and
the entry of the span it opens, if it opens one. -/
def checkDocId (span : SkipSpan) (posting : Nat) (opening? : Option SkipEntry)
    (previousDocId delta : UInt32) : Except Corruption UInt32 := do
  if posting = 0 then
    if delta ≠ 0 then
      throw (.firstDelta delta)
    return match opening? with
      | some entry => entry.previousDocId
      | none => 0
  if delta = 0 then
    throw (.repeatedDocId posting previousDocId)
  if let some entry := opening? then
    if entry.previousDocId ≠ previousDocId then
      throw (.spanDocId (posting / span.postings) entry.previousDocId previousDocId)
  let some docId := Word.sum? previousDocId delta | throw (.docIdOverflow posting)
  return docId

/-- Checks the posting at `cur`; gives its document id and where it ends. -/
def checkPosting (data : Bytes) (skips : SkipIndex) (span : SkipSpan) (size posting : Nat)
    (previousDocId : UInt32) (cur : Nat) : Except SearchError (UInt32 × Nat) := do
  if data.size ≤ cur then
    throw (.corruption (.missingPostings posting size))
  let opening? ← checkSpanStart skips span posting cur
  let (contentSize, cur) ← Varint.decode data data.size cur
  let next := cur + contentSize.toNat
  if data.size < next then
    throw (.corruption (.postingOverrun posting))
  let (delta, cur) ← Varint.decode data next cur
  let (_, cur) ← Varint.decode data next cur
  let (offsetsSize, cur) ← Varint.decode data next cur
  let docId ← checkDocId span posting opening? previousDocId delta
  let offsetsStop := cur + offsetsSize.toNat
  if next < offsetsStop then
    throw (.corruption (.offsetRegionOverrun posting))
  checkOffsetRegion data posting offsetsStop 0 cur
  checkPositionRegion data posting next 0 offsetsStop
  return (docId, next)

/-- Checks the last `left` of all postings; gives the last document id and where the
postings end. -/
def checkPostings (data : Bytes) (skips : SkipIndex) (span : SkipSpan) (size : Nat) :
    (left : Nat) → (previousDocId : UInt32) → (cur : Nat) → Except SearchError (UInt32 × Nat)
  | 0, previousDocId, cur => .ok (previousDocId, cur)
  | left + 1, previousDocId, cur => do
    let (docId, next) ← checkPosting data skips span size (size - (left + 1)) previousDocId cur
    checkPostings data skips span size left docId next

/-- Checks that the written postings and the skip index are those of a list. -/
def check (list : PostingList) : Except SearchError Unit := do
  let (docId, stop) ← checkPostings list.data list.skips list.span list.size list.size 0 0
  if stop ≠ list.data.size then
    throw (.corruption (.surplusData (list.data.size - stop) list.size))
  if 0 < list.size ∧ docId ≠ list.lastDocId then
    throw (.corruption (.lastDocId docId list.lastDocId))

/-- The list stored at `offset`, and where it ends. -/
def decode (bytes : Bytes) (offset : Nat) : Except SearchError (PostingList × Nat) := do
  let (lastDocId, cur) ← Varint.decode bytes bytes.size offset
  let (size, cur) ← Varint.decode bytes bytes.size cur
  let (postings, cur) ← Varint.decode bytes bytes.size cur
  if positive : 0 < postings.toNat then
    let span : SkipSpan := ⟨postings.toNat, positive⟩
    let (data, cur) ← Varint.Buffer.decode bytes cur
    let (skipsSize, cur) ← Varint.decode bytes bytes.size cur
    let stop := cur + skipsSize.toNat
    if bytes.size < stop then
      throw (.corruption .skipIndexOverrun)
    let (skips, skipsStop) ← SkipIndex.decode bytes stop cur
    if skipsStop ≠ stop then
      throw (.corruption (.skipIndexLength (skipsStop - cur) skipsSize.toNat))
    let needed := (size.toNat + span.postings - 1) / span.postings
    if skips.size ≠ needed then
      throw (.corruption (.spanCount size.toNat span.postings needed skips.size))
    let list : PostingList := ⟨data.bytes, skips, span, lastDocId, size.toNat⟩
    list.check
    return (list, stop)
  else
    throw (.corruption .zeroSkipSpan)

end Concordance.PostingList
