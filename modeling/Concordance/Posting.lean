import Concordance.Varint.Buffer

/-!
# Postings

A posting records where one term occurs in one document. Its written form is a run
of numbers:

* the size of everything after this number,
* the difference of the document id to the one before,
* the term frequency,
* the size of the offset region,
* the offset pairs, each start as its distance from the end of the pair before
  and each end as its distance from the start,
* the positions, each as its distance from the one before.

The differences exist because an accepted posting is in order: `Posting.check`.
-/

namespace Concordance

/-- The first and the last byte of one occurrence in the document body. -/
structure Span where
  start : UInt32
  stop : UInt32
  deriving DecidableEq, Repr, Hashable

/-- The occurrences of one term in one document. -/
structure Posting where
  docId : UInt32
  termFreq : UInt32
  offsets : List Span
  positions : List UInt32
  deriving DecidableEq, Repr

namespace Posting

/-- Finds the first pair that starts before the end of the one before it or ends before
its own start. -/
def checkOffsets (docId : UInt32) : (previousStop : UInt32) → List Span → Except Refusal Unit
  | _, [] => .ok ()
  | previousStop, pair :: pairs =>
    if pair.start < previousStop ∨ pair.stop < pair.start then
      .error (.offsetPair docId pair.start pair.stop previousStop)
    else checkOffsets docId pair.stop pairs

/-- Finds the first position below the one before it. -/
def checkPositions (docId : UInt32) : (previous : UInt32) → List UInt32 → Except Refusal Unit
  | _, [] => .ok ()
  | previous, position :: positions =>
    if position < previous then .error (.position docId position previous)
    else checkPositions docId position positions

/-- Refuses a posting whose offset pairs or positions are out of order. -/
def check (posting : Posting) : Except Refusal Unit := do
  checkOffsets posting.docId 0 posting.offsets
  checkPositions posting.docId 0 posting.positions

/-- Offset pairs as distances, the first from `previousStop`. -/
def encodeOffsets : (previousStop : UInt32) → List Span → Except Fault Bytes
  | _, [] => .ok #[]
  | previousStop, pair :: pairs => do
    let gap ← Word.difference pair.start previousStop
    let length ← Word.difference pair.stop pair.start
    let rest ← encodeOffsets pair.stop pairs
    return Varint.encode gap ++ Varint.encode length ++ rest

/-- Positions as distances, the first from `previous`. -/
def encodePositions : (previous : UInt32) → List UInt32 → Except Fault Bytes
  | _, [] => .ok #[]
  | previous, position :: positions => do
    let gap ← Word.difference position previous
    let rest ← encodePositions position positions
    return Varint.encode gap ++ rest

/-- What the size of a posting counts, with `delta` in place of the document id. -/
def content (posting : Posting) (delta : UInt32) : Except Fault Bytes := do
  let offsets ← encodeOffsets 0 posting.offsets
  let positions ← encodePositions 0 posting.positions
  return Varint.encode delta ++ Varint.encode posting.termFreq
    ++ Varint.encode offsets.size.toUInt32 ++ offsets ++ positions

/-- The written form of a posting, with `delta` in place of its document id. -/
def encode (posting : Posting) (delta : UInt32) : Except Fault Bytes := do
  let content ← posting.content delta
  return Varint.encode content.size.toUInt32 ++ content

end Posting

end Concordance
