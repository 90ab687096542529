import Concordance.Binary64
import Concordance.Phrase
import Concordance.Posting.Reader
import Concordance.Ranking

/-!
# Hits

A hit is a document that answers a query, with its score. The offset pairs of the
query's terms in the document stay written until `highlights` asks for them: all
of them, or for a phrase those of the occurrences that belong to a match.
-/

namespace Concordance

structure Hit where
  docId : UInt32
  score : Binary64
  isPhrase : Bool
  /-- The matches of a phrase; empty for any other query. -/
  table : PositionTable
  /-- For each term of the query, a reader of its offset pairs in the document. -/
  offsets : List OffsetReader

namespace Hit

/-- Hits are ordered by their scores alone. -/
def compareScores (first second : Hit) : Ordering := first.score.totalOrder second.score

/-- Scored no lower, in the total order of scores. -/
def ahead (first second : Hit) : Bool := second.score.atMost first.score

/-- Scored higher, as numbers. -/
def beats (first second : Hit) : Bool := first.score.exceeds second.score

/-- The last of the next `count` offset pairs, or `last` for none, and the reader after
it. -/
def readPairs (shortage : SearchError) :
    (count : Nat) → (last : Span) → OffsetReader → Except SearchError (Span × OffsetReader)
  | 0, last, reader => .ok (last, reader)
  | count + 1, _, reader =>
    if PopStream.atEnd reader then .error shortage
    else
      match PopStream.pop reader with
      | (.ok pair, rest) => readPairs shortage count pair rest
      | (.error fault, _) => .error (.fault fault)

/-- The offset pairs of the occurrences in a row, of which `done` pairs are read and the
last of these is `last`. A pair is used again if its number comes again. -/
def selectPairs (shortage : SearchError) (done : Nat) (last : Span) (reader : OffsetReader) :
    List Occurrence → Except SearchError (List Span)
  | [] => .ok []
  | occurrence :: row => do
    let (pair, rest) ← readPairs shortage (occurrence.index.toNat + 1 - done) last reader
    let pairs ← selectPairs shortage (max done (occurrence.index.toNat + 1)) pair rest row
    return pair :: pairs

/-- The offset pairs of each row of a table, where the first of these rows is number
`term`. -/
def selectRows (docId : UInt32) :
    (term : Nat) → (rows : List (List Occurrence)) → List OffsetReader →
      Except SearchError (List (List Span))
  | _, [], _ => .ok []
  | term, _ :: _, [] => .error (.invalidData (.rowWithoutReader term))
  | term, row :: rows, reader :: readers => do
    let pairs ← selectPairs (.corruption (.fewerOffsets docId term)) 0 ⟨0, 0⟩ reader row
    let rest ← selectRows docId (term + 1) rows readers
    return pairs :: rest

/-- For each term of the query, the bytes of the document to highlight. -/
def highlights (hit : Hit) : Except SearchError (List (List Span)) :=
  if hit.isPhrase then selectRows hit.docId 0 hit.table.rows hit.offsets
  else hit.offsets.mapM fun reader => liftM (PopStream.toList reader)

/-- The `count` hits of the highest scores, highest first. -/
def best (count : Nat) (hits : List Hit) : List Hit :=
  Ranking.best ahead beats count hits

end Hit

end Concordance
