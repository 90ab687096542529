import Std.Data.ExtTreeMap
import Std.Data.ExtTreeSet
import Concordance.Document
import Concordance.PostingList.Cursor

/-!
# Inverted indexes

The index has a posting list for each term, in the order of the terms. A document
is checked as a whole before any of its postings is appended.
-/

namespace Concordance

structure InvertedIndex where
  lists : Std.ExtTreeMap String PostingList
  span : SkipSpan

namespace InvertedIndex

def empty (span : SkipSpan) : InvertedIndex := ⟨∅, span⟩

/-- The index of these lists; the last list given for a term is the one that counts. -/
def ofLists (span : SkipSpan) (lists : List (String × PostingList)) : InvertedIndex :=
  ⟨lists.foldl (fun map (term, list) => map.insert term list) ∅, span⟩

def get? (index : InvertedIndex) (term : String) : Option PostingList := index.lists[term]?

/-- The terms in order. -/
def terms (index : InvertedIndex) : List String := index.lists.toList.map (·.1)

def termCount (index : InvertedIndex) : Nat := index.lists.size

/-- Bytes of the written postings of all lists. -/
def byteCount (index : InvertedIndex) : Nat :=
  index.lists.foldl (fun total _ list => total + list.byteCount) 0

/-- The number of documents that hold a term. -/
def docFreq (index : InvertedIndex) (term : String) : Nat :=
  match index.get? term with
  | some list => list.size
  | none => 0

/-- Refuses a document id that is not above those in the list of a term. -/
def checkOrder (index : InvertedIndex) (docId : UInt32) (term : String) : Except Refusal Unit :=
  match index.get? term with
  | none => .ok ()
  | some list =>
    if 0 < list.size ∧ docId ≤ list.lastDocId then
      .error (.termOrder docId list.lastDocId term)
    else .ok ()

/-- The postings of a document's rows, where `seen` holds the terms before them. -/
def rowPostings (index : InvertedIndex) (docId : UInt32) :
    (seen : Std.ExtTreeSet String) → List (String × List Span × List UInt32) →
      Except Refusal (List (String × Posting))
  | _, [] => .ok []
  | seen, (term, offsets, positions) :: rows => do
    let posting : Posting := ⟨docId, offsets.length.toUInt32, offsets, positions⟩
    posting.check
    if seen.contains term then
      throw (.repeatedTerm docId term)
    index.checkOrder docId term
    let rest ← rowPostings index docId (seen.insert term) rows
    return (term, posting) :: rest

/-- The postings of a document, if the index can take all of them. -/
def postings (index : InvertedIndex) (docId : UInt32) (document : Document) :
    Except Refusal (List (String × Posting)) := do
  if document.terms.length ≠ document.offsets.length
      ∨ document.terms.length ≠ document.positions.length then
    throw (.rowCounts docId document.terms.length document.offsets.length
      document.positions.length)
  index.rowPostings docId ∅
    (document.terms.zip (document.offsets.zip document.positions))

/-- Appends postings to the lists of their terms, up to the first that is refused. -/
def appendAll (index : InvertedIndex) :
    List (String × Posting) → Except SearchError Unit × InvertedIndex
  | [] => (.ok (), index)
  | (term, posting) :: rest =>
    match ((index.get? term).getD (.empty index.span)).append posting with
    | .ok list => appendAll { index with lists := index.lists.insert term list } rest
    | .error error => (.error error, index)

/-- The index with a document, or the reason why not and the index that is left. -/
def add (index : InvertedIndex) (docId : UInt32) (document : Document) :
    Except SearchError Unit × InvertedIndex :=
  match index.postings docId document with
  | .ok postings => index.appendAll postings
  | .error refusal => (.error (.construction refusal), index)

/-- The lists of the terms, in the order of the query; none if one has no postings. -/
def lists? (index : InvertedIndex) : List String → Option (List PostingList)
  | [] => some []
  | term :: terms =>
    match index.get? term with
    | none => none
    | some list => if list.isEmpty then none else (lists? index terms).map (list :: ·)

/-- Cursors on the first postings of the terms; none if a term has no postings. -/
def cursors? (index : InvertedIndex) (terms : List String) :
    Except Fault (Option (List Cursor)) :=
  match index.lists? terms with
  | none => .ok none
  | some lists => return some (← lists.mapM PostingList.cursor)

end InvertedIndex

end Concordance
