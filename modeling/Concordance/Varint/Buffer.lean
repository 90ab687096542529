import Concordance.Varint

/-!
# Buffers of numbers

A buffer holds written numbers back to back. It is stored behind its byte count,
so that a reader of a larger record finds its end.
-/

namespace Concordance.Varint

/-- Written numbers, back to back. -/
structure Buffer where
  bytes : Bytes
  deriving DecidableEq, Repr

namespace Buffer

def empty : Buffer := ⟨#[]⟩

/-- The most bytes that have addresses. -/
def maxCapacity : Nat := 9223372036854775807

/-- The buffer without contents, with room for so many bytes; a fault if there cannot be. -/
def ofCapacity (capacity : Nat) : Except Fault Buffer :=
  if maxCapacity < capacity then .error .capacityOverflow else .ok empty

def size (buffer : Buffer) : Nat := buffer.bytes.size

def isEmpty (buffer : Buffer) : Bool := buffer.bytes.isEmpty

/-- The buffer with a number after its contents, and the bytes this took. -/
def append (buffer : Buffer) (value : UInt32) : Buffer × Nat :=
  let written := Varint.encode value
  (⟨buffer.bytes ++ written⟩, written.size)

/-- The buffer with a number before its contents, and the bytes this took. -/
def prepend (buffer : Buffer) (value : UInt32) : Buffer × Nat :=
  let written := Varint.encode value
  (⟨written ++ buffer.bytes⟩, written.size)

def appendBytes (buffer : Buffer) (bytes : Bytes) : Buffer :=
  ⟨buffer.bytes ++ bytes⟩

/-- The byte count, then the contents. -/
def encode (buffer : Buffer) : Bytes :=
  Varint.encode buffer.size.toUInt32 ++ buffer.bytes

/-- The buffer stored at `offset`, and where it ends. -/
def decode (bytes : Bytes) (offset : Nat) : Except SearchError (Buffer × Nat) := do
  let (length, start) ← Varint.decode bytes bytes.size offset
  let stop := start + length.toNat
  if bytes.size < stop then
    throw (.corruption (.bufferOverrun length.toNat start bytes.size))
  return (⟨bytes.extract start stop⟩, stop)

end Buffer

end Concordance.Varint
