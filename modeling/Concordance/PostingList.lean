import Concordance.Posting
import Concordance.SkipIndex

/-!
# Posting lists

The posting list of a term holds the written postings of all documents with the
term, back to back in order of document ids, beside the skip index over them.
Every posting is written with the difference of its document id to the one before;
the first is written with zero, since the skip index holds its id.

`PostingList.append` refuses a posting that is out of order and leaves nothing
behind.
-/

namespace Concordance

/-- Number of postings between two entries of a skip index. -/
structure SkipSpan where
  postings : Nat
  positive : 0 < postings
  deriving DecidableEq, Repr

namespace SkipSpan

/-- The span of so many postings; none at all is a fault. -/
def ofNat (postings : Nat) : Except Fault SkipSpan :=
  if positive : 0 < postings then .ok ⟨postings, positive⟩ else .error .zeroSkipSpan

/-- The span of a list or index that is given none. -/
def default : SkipSpan := ⟨100, by decide⟩

end SkipSpan

structure PostingList where
  data : Bytes
  skips : SkipIndex
  span : SkipSpan
  lastDocId : UInt32
  size : Nat
  deriving DecidableEq, Repr

namespace PostingList

def empty (span : SkipSpan) : PostingList := ⟨#[], .empty, span, 0, 0⟩

def isEmpty (list : PostingList) : Bool := list.size == 0

/-- Bytes of the written postings. -/
def byteCount (list : PostingList) : Nat := list.data.size

/-- The id from which the difference of the next posting counts: the last one, or the
posting's own in a list without postings. -/
def baseDocId (list : PostingList) (docId : UInt32) : UInt32 :=
  if list.isEmpty then docId else list.lastDocId

/-- The list with a posting at its end. Its document id has to be above all others and its
occurrences in order. -/
def append (list : PostingList) (posting : Posting) : Except SearchError PostingList := do
  if 0 < list.size ∧ posting.docId ≤ list.lastDocId then
    throw (.construction (.postingOrder posting.docId list.lastDocId))
  posting.check
  if UInt32.size ≤ list.data.size then
    throw (.construction .bufferFull)
  let base := list.baseDocId posting.docId
  let delta ← Word.difference posting.docId base
  let written ← posting.encode delta
  let skips :=
    if list.size % list.span.postings = 0 then
      list.skips.push ⟨base, list.data.size.toUInt32⟩
    else list.skips
  return {
    data := list.data ++ written
    skips
    span := list.span
    lastDocId := posting.docId
    size := list.size + 1
  }

end PostingList

end Concordance
