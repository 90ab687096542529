import Std.Data.ExtTreeMap
import Concordance.Binary64
import Concordance.Error

/-!
# Document lengths

The table gives the length of each document, in tokens, and the average length of
all of them. The average is moved by each new length; it is not recomputed.
-/

namespace Concordance

structure DocLengths where
  lengths : Std.ExtTreeMap UInt32 UInt32
  average : Binary64
  lastDocId? : Option UInt32

namespace DocLengths

def empty : DocLengths := ⟨∅, .zero, none⟩

def size (table : DocLengths) : Nat := table.lengths.size

def isEmpty (table : DocLengths) : Bool := table.lengths.isEmpty

/-- The average of `count` values, moved by one more. An average that is no number stays
what it is. -/
def nextAverage (average : Binary64) (count : Nat) (value : UInt32) : Binary64 :=
  if average.isNaN then average.quiet
  else
    let mean := average.toFloat
    .ofFloat (mean + (Float.ofNat value.toNat - mean) / (Float.ofNat count + 1.0))

/-- The table with the length of a document above all others. -/
def add (table : DocLengths) (docId length : UInt32) : Except SearchError DocLengths := do
  if let some last := table.lastDocId? then
    if docId ≤ last then
      throw (.construction (.lengthOrder docId last))
  return {
    lengths := table.lengths.insert docId length
    average := nextAverage table.average table.size length
    lastDocId? := some docId
  }

def length (table : DocLengths) (docId : UInt32) : Except SearchError UInt32 :=
  match table.lengths[docId]? with
  | some length => .ok length
  | none => .error (.unknownDocument docId)

end DocLengths

end Concordance
