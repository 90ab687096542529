import Concordance.Conjunction
import Concordance.DocLengths
import Concordance.Hit
import Concordance.Similarity

/-!
# Retrieval

A retrieval finds the documents that all of its terms occur in, for a phrase only
those where they occur as the phrase, scores them and gives the best. A document is
scored by the shares of its terms, summed in the order of the query.
-/

namespace Concordance

/-- What the documents found are scored by, and how many of them are wanted. -/
structure Retrieval where
  lengths : DocLengths
  docCount : Nat
  count : Nat
  isPhrase : Bool

namespace Retrieval

/-- Only documents with a phrase of these many terms are hits; a single term is no phrase. -/
def phraseActive (retrieval : Retrieval) (terms : Nat) : Bool :=
  retrieval.isPhrase && 1 < terms

/-- The matches of the phrase in an alignment's document. -/
def phraseTable (alignment : List Cursor) : Except Fault PositionTable := do
  Phrase.process (← alignment.mapM Cursor.positions)

/-- The weights of the terms, one for each list. -/
def rarities (retrieval : Retrieval) (cursors : List Cursor) : List Float :=
  cursors.map fun cursor => Similarity.rarity retrieval.docCount cursor.list.size

/-- The score of an alignment's document, which has `length` tokens. -/
def score (retrieval : Retrieval) (rarities : List Float) (alignment : List Cursor)
    (length : UInt32) : Except Fault Binary64 := do
  let freqs ← alignment.mapM Cursor.termFreq
  let average := retrieval.lengths.average.toFloat
  return .ofFloat <| Similarity.total <|
    List.zipWith (fun rarity freq => Similarity.share rarity freq length average) rarities freqs

/-- The hit of an alignment's document, if it is one. -/
def hit? (retrieval : Retrieval) (rarities : List Float) (docId : UInt32)
    (alignment : List Cursor) : Except SearchError (Option Hit) := do
  let isPhrase := retrieval.phraseActive alignment.length
  let table ← if isPhrase then liftM (phraseTable alignment) else pure .empty
  if isPhrase && table.isEmpty then
    return none
  let length ← retrieval.lengths.length docId
  let score ← retrieval.score rarities alignment length
  let offsets ← liftM (alignment.mapM Cursor.offsets)
  return some ⟨docId, score, isPhrase, table, offsets⟩

/-- The hits among alignments, in their order. -/
def hits (retrieval : Retrieval) (rarities : List Float) :
    List (List Cursor) → Except SearchError (List Hit)
  | [] => .ok []
  | [] :: rest => hits retrieval rarities rest
  | (cursor :: cursors) :: rest => do
    let docId ← cursor.docId
    let found? ← retrieval.hit? rarities docId (cursor :: cursors)
    let others ← hits retrieval rarities rest
    return match found? with
      | none => others
      | some found => found :: others

/-- The best hits from the cursors on, one cursor for each term, best first. -/
def run (retrieval : Retrieval) (cursors : List Cursor) : Except SearchError (List Hit) := do
  if retrieval.count = 0 then
    return []
  let alignments ← Conjunction.alignments cursors
  let found ← retrieval.hits (retrieval.rarities cursors) alignments
  return Hit.best retrieval.count found

end Retrieval

end Concordance
