import Concordance.Proofs.Addition

/-!
# Engines that serve requests

An engine is asked to add documents and to search, in any order. What one request does to
the engine and what it replies is told here, and by induction what a run of them does: which
parts of an engine no request changes, and that the counters have no say in the replies.
-/

namespace Concordance.Engine

/-- What an engine is given to index. -/
inductive Addition where
  | document (document : Document)
  | text (text : String)
  deriving DecidableEq, Repr

/-- The document of an addition. -/
def Addition.toDocument (tokenizer : Tokenizer) : Addition → Document
  | document given => given
  | text given => .ofText tokenizer given

/-- What an engine can be asked for. -/
inductive Request where
  | add (addition : Addition)
  | search (query : Query)
  deriving DecidableEq, Repr

inductive Reply where
  | added (result : Except SearchError UInt32)
  | found (result : Except SearchError (List Answer))

def take (engine : Engine) : Addition → Except SearchError UInt32 × Engine
  | .document given => engine.add given
  | .text given => engine.addText given

def serve (engine : Engine) : Request → Reply × Engine
  | .add addition => (.added (engine.take addition).1, (engine.take addition).2)
  | .search query => (.found (engine.search query).1, (engine.search query).2)

/-- Serves requests in turn. -/
def serveAll (engine : Engine) : List Request → List Reply × Engine
  | [] => ([], engine)
  | request :: requests =>
    ((engine.serve request).1 :: ((engine.serve request).2.serveAll requests).1,
      ((engine.serve request).2.serveAll requests).2)

section
variable {engine : Engine} {addition : Addition} {request : Request} {requests : List Request}
  {query : Query}

theorem take_eq (engine : Engine) (addition : Addition) :
    engine.take addition = engine.add (addition.toDocument engine.config.tokenizer) := by
  cases addition <;> rfl

/-- A search changes the cache and the counters alone. -/
theorem exists_search (engine : Engine) (query : Query) :
    ∃ cache? counters, (engine.search query).2 = { engine with cache?, counters } := by
  have hsearch := engine.searches query
  generalize engine.search query = outcome at hsearch
  cases hsearch with
  | idle | found | failed | read => exact ⟨_, _, rfl⟩

end

/-! Nothing that is counted has a say in what an engine does. -/

/-- Engines that differ at most in what they have counted. -/
def Alike (first second : Engine) : Prop := ∃ counters, second = { first with counters }

namespace Alike
variable {first second : Engine}

theorem countAnswer (h : first.Alike second) (answer : List Answer) :
    (first.countAnswer answer).Alike (second.countAnswer answer) := by
  obtain ⟨counters, rfl⟩ := h
  rw [Engine.countAnswer, Engine.countAnswer]
  split
  · exact ⟨_, rfl⟩
  · exact ⟨counters, rfl⟩

theorem add (h : first.Alike second) (document : Document) :
    (first.add document).1 = (second.add document).1 ∧
      (first.add document).2.Alike (second.add document).2 := by
  obtain ⟨counters, rfl⟩ := h
  simp only [Engine.add]
  cases Word.sum? first.nextDocId 1 with
  | none => exact ⟨rfl, counters, rfl⟩
  | some next =>
      simp only
      cases first.index.add first.nextDocId document with
      | mk result index =>
          cases result with
          | error error => exact ⟨rfl, counters, rfl⟩
          | ok =>
              simp only
              cases first.lengths.add first.nextDocId document.length with
              | error error => exact ⟨rfl, counters, rfl⟩
              | ok lengths => exact ⟨rfl, _, rfl⟩

theorem searchIndex (h : first.Alike second) (query : Query) :
    (first.searchIndex query).1 = (second.searchIndex query).1 ∧
      (first.searchIndex query).2.Alike (second.searchIndex query).2 := by
  have hexecute : second.execute query = first.execute query := by
    obtain ⟨counters, rfl⟩ := h
    rfl
  rw [Engine.searchIndex, Engine.searchIndex, hexecute]
  split
  · exact ⟨rfl, h⟩
  · next answer _ =>
      obtain ⟨counters, hcounted⟩ := h.countAnswer answer
      simp only [hcounted]
      exact ⟨trivial, counters, rfl⟩

theorem search (h : first.Alike second) (query : Query) :
    (first.search query).1 = (second.search query).1 ∧
      (first.search query).2.Alike (second.search query).2 := by
  obtain ⟨counters, rfl⟩ := h
  simp only [Engine.search]
  split
  · exact ⟨rfl, Alike.countAnswer ⟨_, rfl⟩ []⟩
  · cases first.cache? with
    | none => exact Alike.searchIndex ⟨_, rfl⟩ _
    | some cache =>
        simp only
        cases cache.get (query.normalize first.config.tokenizer) with
        | mk kept? cache =>
            cases kept? with
            | some answer => exact ⟨rfl, _, rfl⟩
            | none => exact Alike.searchIndex ⟨_, rfl⟩ _

theorem serve (h : first.Alike second) (request : Request) :
    (first.serve request).1 = (second.serve request).1 ∧
      (first.serve request).2.Alike (second.serve request).2 := by
  cases request with
  | add addition =>
      have hconfig : second.config = first.config := by
        obtain ⟨counters, rfl⟩ := h
        rfl
      obtain ⟨hresult, hnext⟩ := h.add (addition.toDocument first.config.tokenizer)
      simp only [Engine.serve, take_eq, hconfig]
      exact ⟨congrArg Reply.added hresult, hnext⟩
  | search query =>
      obtain ⟨hanswer, hnext⟩ := h.search query
      exact ⟨congrArg Reply.found hanswer, hnext⟩

/-- Engines that differ in their counters alone give the same replies. -/
theorem serveAll (h : first.Alike second) (requests : List Request) :
    (first.serveAll requests).1 = (second.serveAll requests).1 := by
  induction requests generalizing first second with
  | nil => rfl
  | cons request requests ih =>
      obtain ⟨hreply, hnext⟩ := h.serve request
      rw [Engine.serveAll, Engine.serveAll]
      exact congrArg₂ List.cons hreply (ih hnext)

end Alike

/-! What requests keep, as long as no list has outgrown its offsets at the end of the run. -/
section
variable {room : Cache.Room} {engine : Engine} {request : Request} {requests : List Request}
  {config : Config}

theorem fits_of_serve (h : (engine.serve request).2.index.Fits) : engine.index.Fits := by
  cases request with
  | add addition =>
      simp only [serve, take_eq] at h
      exact fits_of_add h
  | search query =>
      obtain ⟨cache?, counters, hnext⟩ := exists_search engine query
      simp only [serve, hnext] at h
      exact h

theorem fits_of_serveAll (h : (engine.serveAll requests).2.index.Fits) : engine.index.Fits := by
  induction requests generalizing engine with
  | nil => exact h
  | cons request requests ih => exact fits_of_serve (ih h)

theorem config_add (engine : Engine) (document : Document) :
    (engine.add document).2.config = engine.config := by
  have hadds := engine.adds document
  generalize engine.add document = added at hadds
  cases hadds <;> rfl

theorem config_serve (engine : Engine) (request : Request) :
    (engine.serve request).2.config = engine.config := by
  cases request with
  | add addition =>
      simp only [serve, take_eq]
      exact config_add engine _
  | search query =>
      obtain ⟨cache?, counters, hnext⟩ := exists_search engine query
      simp only [serve, hnext]

theorem config_serveAll (engine : Engine) (requests : List Request) :
    (engine.serveAll requests).2.config = engine.config := by
  induction requests generalizing engine with
  | nil => rfl
  | cons request requests ih => exact (ih _).trans (config_serve engine request)

theorem Consistent.serve (h : engine.Consistent) (hfits : engine.index.Fits) (request : Request) :
    (engine.serve request).2.Consistent := by
  cases request with
  | add addition =>
      simp only [Engine.serve, take_eq]
      exact h.add hfits _
  | search query =>
      obtain ⟨cache?, counters, hnext⟩ := exists_search engine query
      simp only [Engine.serve, hnext]
      exact ⟨h.span_eq, h.list, h.size_lengths, h.lt_of_mem, h.lastDocId_lt⟩

theorem Consistent.serveAll (h : engine.Consistent)
    (hfits : (engine.serveAll requests).2.index.Fits) :
    (engine.serveAll requests).2.Consistent := by
  induction requests generalizing engine with
  | nil => exact h
  | cons request requests ih =>
      exact ih (h.serve (fits_of_serve (fits_of_serveAll hfits)) request) hfits

/-- The cache is the one that the engine was made with, where there was this room. -/
def Unsearched (room : Cache.Room) (engine : Engine) : Prop :=
  cacheFor room engine.config = .ok engine.cache?

theorem map_clear_of_cacheFor {cache? : Option (Cache Query (List Answer))}
    (h : cacheFor room config = .ok cache?) : cache?.map Cache.clear = cache? := by
  rw [cacheFor] at h
  split at h
  · cases h
    rfl
  · obtain ⟨made, hmade, rfl⟩ := Result.map_eq_ok_iff.1 h
    rw [(Cache.allocate_eq_ok_iff.1 hmade).2]
    rfl

theorem Unsearched.add (h : engine.Unsearched room) (document : Document) :
    (engine.add document).2.Unsearched room := by
  have hadds := engine.adds document
  generalize engine.add document = added at hadds
  cases hadds with
  | refused | full | behind => exact h
  | added => exact h.trans (congrArg Except.ok (map_clear_of_cacheFor h).symm)

theorem Unsearched.serveAll_add (h : engine.Unsearched room) (additions : List Addition) :
    (engine.serveAll (additions.map .add)).2.Unsearched room := by
  induction additions generalizing engine with
  | nil => exact h
  | cons addition additions ih =>
      apply ih
      simp only [serve, take_eq]
      exact h.add _

theorem consistent_of_new (h : new room config = .ok engine) :
    engine.Consistent ∧ engine.Unsearched room ∧ engine.config = config := by
  obtain ⟨valid, cache?, hcache, rfl⟩ := new_eq_ok_iff.1 h
  refine ⟨⟨rfl, ?_, rfl, ?_, ?_⟩, hcache, rfl⟩
  · intro term list hget
    simp [InvertedIndex.get?, InvertedIndex.empty] at hget
  · intro docId hm
    exact absurd hm Std.ExtTreeMap.not_mem_empty
  · intro last hlast
    cases hlast

end

end Concordance.Engine
