import Concordance.Fault
import Concordance.Text.Quoted

/-!
# Errors

An error says why data or a request was refused. Each kind of error has its own
type of causes, and `SearchError.message` gives the text of a cause.

## Implementation notes

A fault is kept apart from the errors inside `SearchError`, so that a statement
about the errors of an operation also says that no fault occurs.
-/

namespace Concordance

/-- Data that does not have the form it should have. -/
inductive Malformed where
  | incompleteVarint
  | varintTooLong
  | varintTooLarge (value : Nat)
  | offsetPastEnd (offset size : Nat)
  | notASnapshot
  | unsupportedVersion (found supported : UInt32)
  | rowWithoutReader (row : Nat)
  deriving DecidableEq, Repr

/-- Data of the right form whose parts contradict each other. -/
inductive Corruption where
  | bufferOverrun (length offset size : Nat)
  | tooManySpans (count remaining : Nat)
  | spanDocIdOverflow
  | spanOffsetOverflow
  | zeroSkipSpan
  | skipIndexOverrun
  | skipIndexLength (read stored : Nat)
  | spanCount (postings span needed found : Nat)
  | missingPostings (found expected : Nat)
  | missingSpan (posting : Nat)
  | misplacedSpan (span : Nat) (recorded : UInt32) (posting start : Nat)
  | postingOverrun (posting : Nat)
  | firstDelta (delta : UInt32)
  | repeatedDocId (posting : Nat) (docId : UInt32)
  | spanDocId (span : Nat) (recorded actual : UInt32)
  | docIdOverflow (posting : Nat)
  | offsetRegionOverrun (posting : Nat)
  | badOffsetPair (posting : Nat)
  | positionOverflow (posting : Nat)
  | surplusData (bytes postings : Nat)
  | lastDocId (actual recorded : UInt32)
  | fewerOffsets (docId : UInt32) (term : Nat)
  | shortSnapshot (size header : Nat)
  | payloadLength (size : Nat) (recorded : UInt64)
  | lengthCount (lengths : Nat) (docIds : UInt32)
  | trailingBytes (term : String) (bytes : Nat)
  | unknownDocId (term : String) (docId limit : UInt32)
  deriving DecidableEq, Repr

/-- A document or posting that breaks the order or uniqueness an index relies on. -/
inductive Refusal where
  | offsetPair (docId start stop previousStop : UInt32)
  | position (docId position previous : UInt32)
  | postingOrder (docId lastDocId : UInt32)
  | bufferFull
  | rowCounts (docId : UInt32) (tokens offsetRows positionRows : Nat)
  | repeatedTerm (docId : UInt32) (term : String)
  | termOrder (docId lastDocId : UInt32) (term : String)
  | lengthOrder (docId lastDocId : UInt32)
  | docIdsExhausted
  deriving DecidableEq, Repr

/-- Settings that no engine can run with. -/
inductive ConfigError where
  | zeroSkipSpan
  | zeroMinTokenLen
  | tokenLenRange (min max : UInt64)
  deriving DecidableEq, Repr

inductive SearchError where
  | invalidData (cause : Malformed)
  | corruption (cause : Corruption)
  | checksumMismatch (expected actual : UInt32)
  | config (cause : ConfigError)
  | construction (cause : Refusal)
  | unknownDocument (docId : UInt32)
  /-- Bytes that no stored value is written as. -/
  | serialization
  /-- A file that cannot be read or written, or is no text. -/
  | io
  | fault (cause : Fault)
  deriving DecidableEq, Repr

namespace Malformed

def message : Malformed → String
  | incompleteVarint => "Incomplete varint"
  | varintTooLong => "Varint overflow"
  | varintTooLarge value => s!"Varint {value} exceeds u32"
  | offsetPastEnd offset size => s!"Offset {offset} past end of {size} bytes"
  | notASnapshot => "not a deltaseek snapshot"
  | unsupportedVersion found supported =>
      s!"unsupported snapshot version {found} (expected {supported})"
  | rowWithoutReader row => s!"position row {row} has no offset iterator"

end Malformed

namespace Corruption

def message : Corruption → String
  | bufferOverrun length offset size =>
      s!"Varint buffer of {length} bytes at offset {offset} overruns {size} bytes"
  | tooManySpans count remaining => s!"Skip index claims {count} spans in {remaining} bytes"
  | spanDocIdOverflow => "Skip index doc id overflows u32"
  | spanOffsetOverflow => "Skip index offset overflows u32"
  | zeroSkipSpan => "posting list has zero skip span"
  | skipIndexOverrun => "skip index overruns buffer"
  | skipIndexLength read stored =>
      s!"skip index length {read} does not match its {stored} byte region"
  | spanCount postings span needed found =>
      s!"{postings} postings with span {span} need {needed} skip entries, found {found}"
  | missingPostings found expected =>
      s!"posting data ends after {found} of {expected} postings"
  | missingSpan posting => s!"no skip entry for posting {posting}"
  | misplacedSpan span recorded posting start =>
      s!"skip entry {span} points at byte {recorded}, posting {posting} starts at {start}"
  | postingOverrun posting => s!"posting {posting} overruns posting data"
  | firstDelta delta => s!"first posting has doc id delta {delta}"
  | repeatedDocId posting docId => s!"posting {posting} repeats doc id {docId}"
  | spanDocId span recorded actual =>
      s!"skip entry {span} records prev doc id {recorded}, actual {actual}"
  | docIdOverflow posting => s!"posting {posting} doc id overflows u32"
  | offsetRegionOverrun posting => s!"posting {posting} offset region overruns it"
  | badOffsetPair posting => s!"posting {posting} has a bad offset pair"
  | positionOverflow posting => s!"posting {posting} position overflows u32"
  | surplusData bytes postings =>
      s!"{bytes} bytes of posting data follow the last of {postings} postings"
  | lastDocId actual recorded =>
      s!"last posting has doc id {actual}, header says {recorded}"
  | fewerOffsets docId term =>
      s!"doc {docId} has fewer offsets than positions for term {term}"
  | shortSnapshot size header => s!"snapshot is {size} bytes, header alone is {header}"
  | payloadLength size recorded =>
      s!"snapshot payload is {size} bytes, header says {recorded}"
  | lengthCount lengths docIds =>
      s!"snapshot has {lengths} doc lengths for {docIds} doc ids"
  | trailingBytes term bytes =>
      "posting list for " ++ Text.quoted term ++ s!" has {bytes} trailing bytes"
  | unknownDocId term docId limit =>
      "posting list for " ++ Text.quoted term ++ s!" references doc {docId} beyond {limit}"

end Corruption

namespace Refusal

def message : Refusal → String
  | offsetPair docId start stop previousStop =>
      s!"doc {docId} has offset pair ({start}, {stop}) after end {previousStop}"
  | position docId found previous =>
      s!"doc {docId} has position {found} after {previous}"
  | postingOrder docId lastDocId =>
      s!"posting doc id {docId} is not greater than last doc id {lastDocId}"
  | bufferFull => "posting buffer exceeds 4 GiB"
  | rowCounts docId tokens offsetRows positionRows =>
      s!"doc {docId} has {tokens} tokens, {offsetRows} offset rows and {positionRows} position rows"
  | repeatedTerm docId term => s!"doc {docId} lists term " ++ Text.quoted term ++ " twice"
  | termOrder docId lastDocId term =>
      s!"doc id {docId} is not greater than last doc id {lastDocId} of term " ++ Text.quoted term
  | lengthOrder docId lastDocId =>
      s!"doc id {docId} is not greater than last doc id {lastDocId}"
  | docIdsExhausted => "doc id space exhausted"

end Refusal

namespace ConfigError

def message : ConfigError → String
  | zeroSkipSpan => "skip_span must be positive"
  | zeroMinTokenLen => "min_token_len must be positive"
  | tokenLenRange min max => s!"min_token_len {min} exceeds max_token_len {max}"

end ConfigError

/-- A 32-bit number as `0x` and eight hexadecimal digits. -/
def hexWord (word : UInt32) : String :=
  let digits := Nat.toDigits 16 word.toNat
  "0x" ++ String.ofList (List.replicate (8 - digits.length) '0' ++ digits)

namespace SearchError

/-- The text of an error. Errors of files and stored values, and some faults, have
no text of their own. -/
def message? : SearchError → Option String
  | invalidData cause => some ("Invalid data: " ++ cause.message)
  | corruption cause => some ("Data corruption: " ++ cause.message)
  | checksumMismatch expected actual =>
      some ("Checksum mismatch: expected " ++ hexWord expected ++ ", got " ++ hexWord actual)
  | config cause => some ("Invalid configuration: " ++ cause.message)
  | construction cause => some ("Construction invariant violated: " ++ cause.message)
  | unknownDocument docId => some s!"Unknown document: {docId}"
  | serialization => none
  | io => none
  | fault cause => cause.message?

end SearchError

/-! A computation that fails for one kind of cause is part of any computation that fails
with errors. -/

instance : MonadLift (Except Malformed) (Except SearchError) where
  monadLift result := result.mapError .invalidData

instance : MonadLift (Except Corruption) (Except SearchError) where
  monadLift result := result.mapError .corruption

instance : MonadLift (Except Refusal) (Except SearchError) where
  monadLift result := result.mapError .construction

instance : MonadLift (Except ConfigError) (Except SearchError) where
  monadLift result := result.mapError .config

instance : MonadLift (Except Fault) (Except SearchError) where
  monadLift result := result.mapError .fault

end Concordance
