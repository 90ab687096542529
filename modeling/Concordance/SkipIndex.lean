import Concordance.Varint

/-!
# Skip indexes

A posting list is divided into spans of equally many postings. Its skip index has
an entry for each span: where its first posting starts, and the document id of the
posting before it, from which the differences of the span count. The first span
counts from its own first document id.

Stored, an index is its entry count and then the entries, each as the differences
to the one before.
-/

namespace Concordance

structure SkipEntry where
  previousDocId : UInt32
  start : UInt32
  deriving DecidableEq, Repr

structure SkipIndex where
  entries : Array SkipEntry
  deriving DecidableEq, Repr

namespace SkipIndex

def empty : SkipIndex := ⟨#[]⟩

def size (index : SkipIndex) : Nat := index.entries.size

def isEmpty (index : SkipIndex) : Bool := index.entries.isEmpty

def push (index : SkipIndex) (entry : SkipEntry) : SkipIndex := ⟨index.entries.push entry⟩

def get? (index : SkipIndex) (span : Nat) : Option SkipEntry := index.entries[span]?

/-- Entries as differences, the first to `previous`. -/
def encodeEntries : (previous : SkipEntry) → List SkipEntry → Except Fault Bytes
  | _, [] => .ok #[]
  | previous, entry :: entries => do
    let docIdGap ← Word.difference entry.previousDocId previous.previousDocId
    let startGap ← Word.difference entry.start previous.start
    let rest ← encodeEntries entry entries
    return Varint.encode docIdGap ++ Varint.encode startGap ++ rest

/-- The entry count, then the entries. -/
def encode (index : SkipIndex) : Except Fault Bytes := do
  let entries ← encodeEntries ⟨0, 0⟩ index.entries.toList
  return Varint.encode index.size.toUInt32 ++ entries

/-- The next `count` entries from `cur` on, and where they end. -/
def decodeEntries (bytes : Bytes) (stop : Nat) :
    (count : Nat) → (previous : SkipEntry) → (cur : Nat) →
      Except SearchError (List SkipEntry × Nat)
  | 0, _, cur => .ok ([], cur)
  | count + 1, previous, cur => do
    let (docIdGap, cur) ← Varint.decode bytes stop cur
    let (startGap, cur) ← Varint.decode bytes stop cur
    let some docId := Word.sum? previous.previousDocId docIdGap
      | throw (.corruption .spanDocIdOverflow)
    let some start := Word.sum? previous.start startGap
      | throw (.corruption .spanOffsetOverflow)
    let entry := ⟨docId, start⟩
    let (entries, cur) ← decodeEntries bytes stop count entry cur
    return (entry :: entries, cur)

/-- The index stored at `offset` below the bound `stop`, and where it ends. An entry
takes at least two bytes, so a larger count is refused before it is followed. -/
def decode (bytes : Bytes) (stop offset : Nat) : Except SearchError (SkipIndex × Nat) := do
  let (count, cur) ← Varint.decode bytes stop offset
  if (stop - cur) / 2 < count.toNat then
    throw (.corruption (.tooManySpans count.toNat (stop - cur)))
  let (entries, cur) ← decodeEntries bytes stop count.toNat ⟨0, 0⟩ cur
  return (⟨entries.toArray⟩, cur)

end SkipIndex

end Concordance
