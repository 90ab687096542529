import Concordance.Checksum
import Concordance.Config
import Concordance.DocLengths
import Concordance.Snapshot.Layout

/-!
# Snapshots

A snapshot is all that an engine has to keep: its settings, the next document id,
the table of document lengths and the stored posting list of each term.

It is stored as a header and a payload. The header has the mark of the format, its
version, the checksum of the payload and the payload's size, and `Snapshot.decode`
looks at them in the order mark, version, size, checksum before it reads the
payload. Bytes of the payload after its last field are passed over.

The entries of the length table may be stored in any order. `Snapshot.encode` takes
that of the document ids.
-/

namespace Concordance

structure Snapshot where
  config : Config
  nextDocId : UInt32
  lengths : DocLengths
  /-- The terms with their stored posting lists. -/
  postings : List (String × Bytes)

namespace Snapshot
open Layout

/-- The mark at the start of a snapshot: the letters DSEEKSNP. -/
def mark : Bytes := #[0x44, 0x53, 0x45, 0x45, 0x4b, 0x53, 0x4e, 0x50]

def version : UInt32 := 1

/-- Bytes of the header: mark, version, checksum and size of the payload. -/
def headerSize : Nat := 24

def writeConfig (config : Config) : Bytes :=
  writeLong config.skipSpan ++ writeLong config.defaultResults ++ writeLong config.cacheSize
    ++ writeLong config.minTokenLen ++ writeLong config.maxTokenLen
    ++ writeFlag config.caseSensitive

/-- The table, with its entries in this order. -/
def writeLengths (table : DocLengths) (entries : List (UInt32 × UInt32)) : Bytes :=
  writeList (fun (docId, length) => writeWord docId ++ writeWord length) entries
    ++ writeLong table.average.bits ++ writeOption writeWord table.lastDocId?

/-- The payload, with the entries of the length table in this order. -/
def writePayload (snapshot : Snapshot) (entries : List (UInt32 × UInt32)) : Bytes :=
  writeConfig snapshot.config ++ writeWord snapshot.nextDocId
    ++ writeLengths snapshot.lengths entries
    ++ writeList (fun (term, list) => writeText term ++ writeBytes list) snapshot.postings

/-- The header of a payload, then the payload. -/
def addHeader (payload : Bytes) : Bytes :=
  mark ++ writeWord version ++ writeWord (Checksum.compute payload)
    ++ writeCount payload.size ++ payload

/-- The stored form with the entries of the length table in this order. -/
def encodeIn (snapshot : Snapshot) (entries : List (UInt32 × UInt32)) : Bytes :=
  addHeader (snapshot.writePayload entries)

def encode (snapshot : Snapshot) : Bytes := snapshot.encodeIn snapshot.lengths.lengths.toList

def readConfig (bytes : Bytes) : Reader Config := do
  let skipSpan ← readLong bytes
  let defaultResults ← readLong bytes
  let cacheSize ← readLong bytes
  let minTokenLen ← readLong bytes
  let maxTokenLen ← readLong bytes
  let caseSensitive ← readFlag bytes
  return { skipSpan, defaultResults, cacheSize, minTokenLen, maxTokenLen, caseSensitive }

/-- The table of document lengths. Of entries for one document the last counts. -/
def readLengths (bytes : Bytes) : Reader DocLengths := do
  let entries ← readList bytes do return (← readWord bytes, ← readWord bytes)
  let average ← readLong bytes
  let lastDocId? ← readOption bytes (readWord bytes)
  return {
    lengths := entries.foldl (fun table (docId, length) => table.insert docId length) ∅
    average := ⟨average⟩
    lastDocId? }

def readPayload (bytes : Bytes) : Reader Snapshot := do
  let config ← readConfig bytes
  let nextDocId ← readWord bytes
  let lengths ← readLengths bytes
  let postings ← readList bytes do return (← readText bytes, ← readBytes bytes)
  return { config, nextDocId, lengths, postings }

/-- The number in `width` bytes of a header from `start` on. -/
def headerField (bytes : Bytes) (start width : Nat) : Nat :=
  ofLittleEndian (bytes.extract start (start + width)).toList

/-- The payload behind a valid header. -/
def stripHeader (bytes : Bytes) : Except SearchError Bytes := do
  if bytes.size < headerSize then
    throw (.corruption (.shortSnapshot bytes.size headerSize))
  if bytes.extract 0 8 ≠ mark then
    throw (.invalidData .notASnapshot)
  let found := (headerField bytes 8 4).toUInt32
  if found ≠ version then
    throw (.invalidData (.unsupportedVersion found version))
  let checksum := (headerField bytes 12 4).toUInt32
  let size := headerField bytes 16 8
  let payload := bytes.extract headerSize bytes.size
  if payload.size ≠ size then
    throw (.corruption (.payloadLength payload.size size.toUInt64))
  Checksum.verify payload checksum
  return payload

def decode (bytes : Bytes) : Except SearchError Snapshot := do
  let payload ← stripHeader bytes
  match (readPayload payload).run 0 with
  | some (snapshot, _) => return snapshot
  | none => throw .serialization

end Snapshot

end Concordance
