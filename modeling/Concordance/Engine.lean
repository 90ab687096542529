import Concordance.Cache
import Concordance.Config
import Concordance.InvertedIndex
import Concordance.Retrieval

/-!
# Search engines

An engine numbers the documents it is given, indexes them and answers queries. It
counts what it does, and where its settings ask for a cache it keeps answers until
the next document comes.

Every operation gives the engine that it leaves, whether it succeeds or not.
-/

namespace Concordance

/-- A request for the best documents that hold all of some terms. -/
structure Query where
  terms : List String
  count : Nat
  /-- The terms have to stand next to each other, in this order. -/
  isPhrase : Bool
  /-- The answer shows where the terms occur. -/
  snippets : Bool
  deriving DecidableEq, Repr

namespace Query

/-- The query with its terms in the form in which they are compared. -/
def normalize (query : Query) (tokenizer : Tokenizer) : Query :=
  { query with terms := query.terms.map tokenizer.normalize }

end Query

/-- A document of an answer. -/
structure Answer where
  docId : UInt32
  score : Binary64
  /-- For each term, the bytes to highlight; empty unless the query asks for them. -/
  highlights : List (List Span)
  deriving DecidableEq, Repr

/-- What an engine has done since it was made. -/
structure Counters where
  documentsIndexed : Nat
  queriesServed : Nat
  emptyResults : Nat
  deriving DecidableEq, Repr

/-- What an engine tells of itself. -/
structure EngineStats where
  documents : Nat
  terms : Nat
  averageLength : Binary64
  postingBytes : Nat
  documentsIndexed : Nat
  queriesServed : Nat
  emptyResults : Nat
  cache? : Option Cache.Stats

structure Engine where
  config : Config
  valid : config.Valid
  index : InvertedIndex
  lengths : DocLengths
  nextDocId : UInt32
  cache? : Option (Cache Query (List Answer))
  counters : Counters

namespace Engine

/-- The cache that the settings ask for. -/
def cacheFor (room : Cache.Room) (config : Config) :
    Except Fault (Option (Cache Query (List Answer))) :=
  if config.cacheSize = 0 then .ok none
  else (Cache.allocate room config.cacheSize.toNat).map some

/-- The engine with this content, which has done nothing yet. -/
def ofParts (room : Cache.Room) (config : Config) (valid : config.Valid) (index : InvertedIndex)
    (lengths : DocLengths) (nextDocId : UInt32) : Except Fault Engine :=
  (cacheFor room config).map fun cache? =>
    { config, valid, index, lengths, nextDocId, cache?, counters := ⟨0, 0, 0⟩ }

/-- The engine without documents. -/
def new (room : Cache.Room) (config : Config) : Except SearchError Engine :=
  match _ : config.validate with
  | .error cause => .error (.config cause)
  | .ok () =>
    have valid := Config.validate_eq_ok_iff.1 ‹config.validate = _›
    (ofParts room config valid (.empty (config.span valid)) .empty 0).mapError .fault

def docCount (engine : Engine) : Nat := engine.lengths.size

def stats (engine : Engine) : EngineStats where
  documents := engine.docCount
  terms := engine.index.termCount
  averageLength := engine.lengths.average
  postingBytes := engine.index.byteCount
  documentsIndexed := engine.counters.documentsIndexed
  queriesServed := engine.counters.queriesServed
  emptyResults := engine.counters.emptyResults
  cache? := engine.cache?.map Cache.stats

/-- Indexes a document under the next id. -/
def add (engine : Engine) (document : Document) : Except SearchError UInt32 × Engine :=
  match Word.sum? engine.nextDocId 1 with
  | none => (.error (.construction .docIdsExhausted), engine)
  | some next =>
    match engine.index.add engine.nextDocId document with
    | (.error error, index) => (.error error, { engine with index })
    | (.ok (), index) =>
      match engine.lengths.add engine.nextDocId document.length with
      | .error error => (.error error, { engine with index })
      | .ok lengths =>
        (.ok engine.nextDocId,
          { engine with
            index
            lengths
            nextDocId := next
            cache? := engine.cache?.map Cache.clear
            counters.documentsIndexed := engine.counters.documentsIndexed + 1 })

/-- Indexes a text under the next id. -/
def addText (engine : Engine) (text : String) : Except SearchError UInt32 × Engine :=
  engine.add (.ofText engine.config.tokenizer text)

/-- Indexes texts up to the first that is refused, and gives their number. -/
def addTexts (engine : Engine) : List String → Except SearchError Nat × Engine
  | [] => (.ok 0, engine)
  | text :: texts =>
    match engine.addText text with
    | (.error error, next) => (.error error, next)
    | (.ok _, next) =>
      let (count, last) := next.addTexts texts
      (count.map (· + 1), last)

/-- The answer to a query, from the index. -/
def execute (engine : Engine) (query : Query) : Except SearchError (List Answer) := do
  match ← engine.index.cursors? query.terms with
  | none => return []
  | some cursors =>
    let retrieval : Retrieval := ⟨engine.lengths, engine.docCount, query.count, query.isPhrase⟩
    let hits ← retrieval.run cursors
    hits.mapM fun hit => do
      let highlights ← if query.snippets then hit.highlights else pure []
      return ⟨hit.docId, hit.score, highlights⟩

/-- Counts an answer if it has no documents. -/
def countAnswer (engine : Engine) (answer : List Answer) : Engine :=
  if answer.isEmpty then
    { engine with counters.emptyResults := engine.counters.emptyResults + 1 }
  else engine

/-- Answers a normalized query from the index and keeps the answer. -/
def searchIndex (engine : Engine) (query : Query) : Except SearchError (List Answer) × Engine :=
  match engine.execute query with
  | .error error => (.error error, engine)
  | .ok answer =>
    let counted := engine.countAnswer answer
    (.ok answer, { counted with cache? := counted.cache?.map (·.put query answer) })

/-- Answers a query: from the cache, if the answer is kept there, and else from the index. -/
def search (engine : Engine) (query : Query) : Except SearchError (List Answer) × Engine :=
  let engine :=
    { engine with counters.queriesServed := engine.counters.queriesServed + 1 }
  if query.count = 0 ∨ query.terms = [] then (.ok [], engine.countAnswer [])
  else
    let query := query.normalize engine.config.tokenizer
    match engine.cache? with
    | none => engine.searchIndex query
    | some cache =>
      match cache.get query with
      | (some answer, cache) => (.ok answer, { engine with cache? := some cache })
      | (none, cache) => { engine with cache? := some cache }.searchIndex query

/-- Answers with as many documents as the settings say. -/
def searchTerms (engine : Engine) (terms : List String) :
    Except SearchError (List Answer) × Engine :=
  engine.search ⟨terms, engine.config.defaultResults.toNat, false, false⟩

/-- Answers queries in turn. -/
def searchAll (engine : Engine) :
    List Query → List (Except SearchError (List Answer)) × Engine
  | [] => ([], engine)
  | query :: queries =>
    let (answer, next) := engine.search query
    let (answers, last) := next.searchAll queries
    (answer :: answers, last)

end Engine

end Concordance
