import Concordance.Word

/-!
# Faults

A fault is a use of an operation outside its contract, such as reading a value
from an exhausted stream. It is no answer to bad data: data from outside is
checked, and the checks answer with errors.
-/

namespace Concordance

/-- Streams of decoded values, as named in a fault. -/
inductive StreamKind where
  | offset
  | position
  | varint
  | vector
  deriving DecidableEq, Repr

/-- Questions about the posting under a cursor, as named in a fault. -/
inductive CursorQuery where
  | docId
  | termFreq
  | offsets
  | positions
  deriving DecidableEq, Repr

/-- A use of an operation outside its contract. -/
inductive Fault where
  /-- A posting list was built with a skip span of zero. -/
  | zeroSkipSpan
  /-- A cursor was asked for at the start of a list without postings. -/
  | emptyList
  /-- A cursor past the last posting was asked about its posting. -/
  | cursorEnded (query : CursorQuery)
  /-- A stream had no value left to give. -/
  | exhausted (stream : StreamKind)
  /-- A reader stood at or beyond its end bound. -/
  | pastBound
  /-- A read left the bytes it was given. -/
  | outOfBounds
  /-- A sum or difference left the 32-bit numbers, or a digit was moved beyond them. -/
  | overflow
  /-- Room for more values was asked for than there are addresses. -/
  | capacityOverflow
  /-- Room for more values was asked for than the memory has. -/
  | outOfMemory
  deriving DecidableEq, Repr

namespace StreamKind

def name : StreamKind → String
  | offset => "offset"
  | position => "position"
  | varint => "varint"
  | vector => "vector"

end StreamKind

namespace CursorQuery

def name : CursorQuery → String
  | docId => "doc_id"
  | termFreq => "term_freq"
  | offsets => "offset_pairs_begin"
  | positions => "position_begin"

end CursorQuery

namespace Fault

/-- The text of a fault; reads, sums and capacities that leave their range have none, nor has
the lack of memory. -/
def message? : Fault → Option String
  | zeroSkipSpan => some "skip_span must be positive"
  | emptyList => some "begin() called on an empty posting list"
  | cursorEnded query => some (query.name ++ "() on an ended posting list iterator")
  | exhausted stream => some ("pop() on an exhausted " ++ stream.name ++ " iterator")
  | pastBound => some "pop() past the end bound"
  | outOfBounds => none
  | overflow => none
  | capacityOverflow => none
  | outOfMemory => none

end Fault

namespace Word

/-- The sum; a fault where it does not fit 32 bits. -/
def sum (a b : UInt32) : Except Fault UInt32 :=
  match sum? a b with
  | some c => .ok c
  | none => .error .overflow

/-- The difference; a fault where it would be negative. -/
def difference (a b : UInt32) : Except Fault UInt32 :=
  match difference? a b with
  | some c => .ok c
  | none => .error .overflow

theorem sum_eq_ok_iff {a b c : UInt32} : sum a b = .ok c ↔ a.toNat + b.toNat = c.toNat := by
  rw [← sum?_eq_some_iff, sum]
  cases sum? a b <;> simp

theorem difference_eq_ok_iff {a b c : UInt32} :
    difference a b = .ok c ↔ c.toNat + b.toNat = a.toNat := by
  rw [← difference?_eq_some_iff, difference]
  cases difference? a b <;> simp

end Word

end Concordance
