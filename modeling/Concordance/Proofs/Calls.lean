import Concordance.Engine.Storage
import Concordance.Proofs.Failure
import Concordance.Proofs.Requests
import Mathlib.Logic.Relation

/-!
# Engines that are called

Besides the requests that it serves one after the other, an engine is called to answer a batch
of queries and to save what it keeps. The queries of a batch run at the same time: each looks
into the cache, reads the index if it found nothing there, and leaves its answer in the cache,
and between any two of these steps others may make theirs. Since no query changes the index,
each is answered as it would be alone.
-/

namespace Concordance.Engine

section
variable {engine next : Engine} {query : Query} {found? : Option (List Answer)}
  {found : List Answer}

/-- What the index says to a query, whatever the cache keeps. -/
def answer (engine : Engine) (query : Query) : Except SearchError (List Answer) :=
  if query.count = 0 ∨ query.terms = [] then .ok []
  else engine.execute (query.normalize engine.config.tokenizer)

/-- The first step of a search: its answer, if the index is not needed for it. -/
def lookUp (engine : Engine) (query : Query) : Option (List Answer) × Engine :=
  let engine :=
    { engine with counters.queriesServed := engine.counters.queriesServed + 1 }
  if query.count = 0 ∨ query.terms = [] then (some [], engine.countAnswer [])
  else
    match engine.cache? with
    | none => (none, engine)
    | some cache =>
      let (found?, cache) := cache.get (query.normalize engine.config.tokenizer)
      (found?, { engine with cache? := some cache })

/-- The last step of a search: it keeps what the index gave. -/
def keep (engine : Engine) (query : Query) : Except SearchError (List Answer) → Engine
  | .error _ => engine
  | .ok answer =>
    let counted := engine.countAnswer answer
    { counted with cache? := counted.cache?.map (·.put query answer) }

theorem searchIndex_eq (engine : Engine) (query : Query) :
    engine.searchIndex query = (engine.execute query, engine.keep query (engine.execute query)) := by
  rw [searchIndex]
  cases engine.execute query <;> rfl

/-- A search is over where looking the query up gave an answer, and else reads the index. -/
theorem search_of_lookUp (h : engine.lookUp query = (found?, next)) :
    engine.search query = found?.elim
      (next.searchIndex (query.normalize next.config.tokenizer)) fun found => (.ok found, next) := by
  rw [lookUp] at h
  rw [search]
  split at h
  · next hempty =>
      cases h
      rw [if_pos hempty]
      rfl
  · next hactive =>
      rw [if_neg hactive]
      simp only at h ⊢
      cases hcache : engine.cache? with
      | none =>
          simp only [hcache] at h ⊢
          cases h
          rfl
      | some cache =>
          simp only [hcache] at h ⊢
          cases hget : cache.get (query.normalize engine.config.tokenizer) with
          | mk kept? kept =>
              simp only [hget] at h ⊢
              cases h
              cases found? <;> rfl

theorem exists_lookUp (h : engine.lookUp query = (found?, next)) :
    ∃ cache? counters, next = { engine with cache?, counters } := by
  rw [lookUp] at h
  split at h
  · cases h
    exact ⟨engine.cache?, exists_countAnswer _ []⟩
  · simp only at h
    split at h
    · cases h
      exact ⟨engine.cache?, _, rfl⟩
    · cases h
      exact ⟨_, _, rfl⟩

/-- What is found is the answer, and where nothing is found the index has it. -/
theorem CacheSound.lookUp (h : engine.CacheSound) (hlookUp : engine.lookUp query = (found?, next)) :
    next.CacheSound ∧ (∀ found, found? = some found → engine.answer query = .ok found) ∧
      (found? = none →
        engine.answer query = engine.execute (query.normalize engine.config.tokenizer)) := by
  rw [Engine.lookUp] at hlookUp
  split at hlookUp
  · next hempty =>
      cases hlookUp
      refine ⟨?_, ?_, by rintro ⟨⟩⟩
      · obtain ⟨counters, hcounted⟩ := exists_countAnswer
          { engine with counters.queriesServed := engine.counters.queriesServed + 1 } []
        rw [hcounted]
        exact h
      · rintro _ ⟨⟩
        rw [answer, if_pos hempty]
  · next hactive =>
      rw [answer, if_neg hactive]
      simp only at hlookUp
      split at hlookUp
      · cases hlookUp
        exact ⟨h, by rintro _ ⟨⟩, fun _ => rfl⟩
      · next cache hcache =>
          cases hget : cache.get (query.normalize engine.config.tokenizer) with
          | mk kept? kept =>
              rw [hget] at hlookUp
              cases hlookUp
              cases kept? with
              | none =>
                  refine ⟨?_, by rintro _ ⟨⟩, fun _ => rfl⟩
                  rintro _ ⟨⟩
                  exact (h cache hcache).of_get_none hget
              | some answer =>
                  obtain ⟨hanswer, hkept⟩ := (h cache hcache).of_get hget
                  refine ⟨?_, ?_, by rintro ⟨⟩⟩
                  · rintro _ ⟨⟩
                    exact hkept
                  · rintro _ ⟨⟩
                    exact hanswer

theorem exists_keep (engine : Engine) (query : Query) (result : Except SearchError (List Answer)) :
    ∃ cache? counters, engine.keep query result = { engine with cache?, counters } := by
  cases result with
  | error error => exact ⟨engine.cache?, engine.counters, rfl⟩
  | ok answer =>
      obtain ⟨counters, hcounted⟩ := exists_countAnswer engine answer
      rw [keep, hcounted]
      exact ⟨_, counters, rfl⟩

theorem CacheSound.keep (h : engine.CacheSound) {query : Query}
    {result : Except SearchError (List Answer)} (hresult : engine.execute query = result) :
    (engine.keep query result).CacheSound := by
  obtain ⟨-, _, _, -, hsound⟩ := h.searchIndex query
  rwa [searchIndex_eq, hresult] at hsound

end

/-! Queries that run at the same time. -/

/-- How far a query has come. -/
inductive Progress
  | waiting
  | missed
  | read (result : Except SearchError (List Answer))
  | answered (result : Except SearchError (List Answer))

/-- One of the queries makes its next step. -/
inductive Step : Engine × List (Query × Progress) → Engine × List (Query × Progress) → Prop
  | found {engine next : Engine} {before after : List (Query × Progress)} {query : Query}
      {found : List Answer} (h : engine.lookUp query = (some found, next)) :
      Step (engine, before ++ (query, .waiting) :: after)
        (next, before ++ (query, .answered (.ok found)) :: after)
  | missed {engine next : Engine} {before after : List (Query × Progress)} {query : Query}
      (h : engine.lookUp query = (none, next)) :
      Step (engine, before ++ (query, .waiting) :: after)
        (next, before ++ (query, .missed) :: after)
  | read {engine : Engine} {before after : List (Query × Progress)} {query : Query} :
      Step (engine, before ++ (query, .missed) :: after)
        (engine, before ++
          (query, .read (engine.execute (query.normalize engine.config.tokenizer))) :: after)
  | kept {engine : Engine} {before after : List (Query × Progress)} {query : Query}
      {result : Except SearchError (List Answer)} :
      Step (engine, before ++ (query, .read result) :: after)
        (engine.keep (query.normalize engine.config.tokenizer) result,
          before ++ (query, .answered result) :: after)

/-- The queries can run at the same time with these results, and leave this engine. -/
structure Batch (engine : Engine) (queries : List Query)
    (results : List (Except SearchError (List Answer))) (next : Engine) : Prop where
  length_eq : results.length = queries.length
  run : Relation.ReflTransGen Step (engine, queries.map fun query => (query, .waiting))
    (next, queries.zipWith (fun query result => (query, .answered result)) results)

section
variable {engine next : Engine} {query : Query} {queries : List Query}
  {results : List (Except SearchError (List Answer))}

/-- Queries change the cache and the counters alone, in whatever order they run. -/
theorem exists_step {state last : Engine × List (Query × Progress)} (h : Step state last) :
    ∃ cache? counters, last.1 = { state.1 with cache?, counters } := by
  cases h with
  | found hlookUp | missed hlookUp => exact exists_lookUp hlookUp
  | read => exact ⟨_, _, rfl⟩
  | kept => exact exists_keep ..

theorem exists_run {state last : Engine × List (Query × Progress)}
    (h : Relation.ReflTransGen Step state last) :
    ∃ cache? counters, last.1 = { state.1 with cache?, counters } := by
  induction h with
  | refl => exact ⟨state.1.cache?, state.1.counters, rfl⟩
  | tail _ hstep ih =>
      obtain ⟨_, _, hbefore⟩ := ih
      obtain ⟨cache?, counters, hafter⟩ := exists_step hstep
      exact ⟨cache?, counters, by rw [hafter, hbefore]⟩

/-- What a query has come to is what it would have come to alone. -/
inductive Progress.Sound (engine : Engine) (query : Query) : Progress → Prop
  | waiting : Sound engine query .waiting
  | missed (h : engine.answer query = engine.execute (query.normalize engine.config.tokenizer)) :
      Sound engine query .missed
  | read (h : engine.answer query = engine.execute (query.normalize engine.config.tokenizer)) :
      Sound engine query (.read (engine.execute (query.normalize engine.config.tokenizer)))
  | answered {result : Except SearchError (List Answer)} (h : result = engine.answer query) :
      Sound engine query (.answered result)

/-- What queries have come to that run at the same time on an engine that was this one: they
changed its cache and its counters alone. -/
structure Running (start : Engine) (queries : List Query)
    (state : Engine × List (Query × Progress)) : Prop where
  engine_eq : ∃ cache? counters, state.1 = { start with cache?, counters }
  cacheSound : state.1.CacheSound
  queries_eq : state.2.map (·.1) = queries
  sound : ∀ task ∈ state.2, task.2.Sound start task.1

namespace Running
variable {start : Engine} {before after : List (Query × Progress)} {old new : Progress}

theorem sound_of (h : Running start queries (engine, before ++ (query, old) :: after)) :
    old.Sound start query :=
  h.sound (query, old) (List.mem_append_right _ (List.mem_cons_self ..))

/-- One of the queries comes to something else. -/
theorem replace (h : Running start queries (engine, before ++ (query, old) :: after))
    (hnext : ∃ cache? counters, next = { engine with cache?, counters })
    (hcache : next.CacheSound) (hnew : new.Sound start query) :
    Running start queries (next, before ++ (query, new) :: after) where
  engine_eq := by
    obtain ⟨_, _, hengine⟩ := h.engine_eq
    obtain ⟨cache?, counters, rfl⟩ := hnext
    simp only at hengine
    exact ⟨cache?, counters, by rw [hengine]⟩
  cacheSound := hcache
  queries_eq := by simpa using h.queries_eq
  sound := by
    intro task hm
    have hsound := h.sound
    simp only [List.mem_append, List.mem_cons] at hm hsound
    rcases hm with hm | rfl | hm
    · exact hsound task (.inl hm)
    · exact hnew
    · exact hsound task (.inr (.inr hm))

theorem step {state last : Engine × List (Query × Progress)} (h : Running start queries state)
    (hstep : Step state last) : Running start queries last := by
  obtain ⟨engine, tasks⟩ := state
  have hcache : engine.CacheSound := h.cacheSound
  -- The index and the settings are those from the start.
  have hanswer (query : Query) : engine.answer query = start.answer query ∧
      engine.execute (query.normalize engine.config.tokenizer) =
        start.execute (query.normalize start.config.tokenizer) := by
    obtain ⟨cache?, counters, hengine⟩ := h.engine_eq
    rw [show engine = _ from hengine]
    exact ⟨rfl, rfl⟩
  cases hstep with
  | @found _ next before after query found hlookUp =>
      obtain ⟨hnext, hfound, -⟩ := hcache.lookUp hlookUp
      refine h.replace (exists_lookUp hlookUp) hnext ?_
      exact .answered ((hfound found rfl).symm.trans (hanswer query).1)
  | @missed _ next before after query hlookUp =>
      obtain ⟨hnext, -, hmissed⟩ := hcache.lookUp hlookUp
      refine h.replace (exists_lookUp hlookUp) hnext (.missed ?_)
      rw [← (hanswer query).1, ← (hanswer query).2]
      exact hmissed rfl
  | @read _ before after query =>
      cases h.sound_of with
      | missed hmissed =>
          refine h.replace ⟨engine.cache?, engine.counters, rfl⟩ hcache ?_
          rw [(hanswer query).2]
          exact .read hmissed
  | @kept _ before after query result =>
      cases h.sound_of with
      | read hread =>
          exact h.replace (exists_keep ..) (hcache.keep (hanswer query).2) (.answered hread.symm)

theorem run {state last : Engine × List (Query × Progress)} (h : Running start queries state)
    (hrun : Relation.ReflTransGen Step state last) : Running start queries last := by
  induction hrun with
  | refl => exact h
  | tail _ hstep ih => exact ih.step hstep

end Running

/-- Each query of a batch is answered as it would be alone, and the batch changes the cache and
the counters alone. -/
theorem CacheSound.batch (h : engine.CacheSound) (hbatch : engine.Batch queries results next) :
    results = queries.map engine.answer ∧
      ∃ cache? counters, next = { engine with cache?, counters } ∧ next.CacheSound := by
  have hstart : Running engine queries (engine, queries.map fun query => (query, .waiting)) := by
    refine ⟨⟨engine.cache?, engine.counters, rfl⟩, h, by simp [Function.comp_def], ?_⟩
    intro task hm
    obtain ⟨query, -, rfl⟩ := List.mem_map.1 hm
    exact .waiting
  have hend := hstart.run hbatch.run
  obtain ⟨cache?, counters, hengine⟩ := hend.engine_eq
  refine ⟨?_, cache?, counters, hengine, hend.cacheSound⟩
  apply List.ext_getElem (by rw [hbatch.length_eq, List.length_map])
  intro i hresult _
  have hquery : i < queries.length := hbatch.length_eq ▸ hresult
  have hsound : (Progress.answered results[i]).Sound engine queries[i] := by
    apply hend.sound (queries[i], .answered results[i])
    have hi : i < (queries.zipWith (fun query result => (query, Progress.answered result))
        results).length := by
      rw [List.length_zipWith]
      exact Nat.lt_min.2 ⟨hquery, hresult⟩
    exact List.mem_of_getElem (h := hi) List.getElem_zipWith
  rw [List.getElem_map]
  cases hsound with
  | answered hanswer => exact hanswer

/-- A query can make all its steps without a step of another between them. -/
theorem run_search (engine : Engine) (query : Query) (before after : List (Query × Progress)) :
    Relation.ReflTransGen Step (engine, before ++ (query, .waiting) :: after)
      ((engine.search query).2, before ++ (query, .answered (engine.search query).1) :: after) := by
  cases hlookUp : engine.lookUp query with
  | mk found? next =>
      rw [search_of_lookUp hlookUp]
      cases found? with
      | some found => exact .single (.found hlookUp)
      | none =>
          rw [Option.elim_none, searchIndex_eq]
          exact ((Relation.ReflTransGen.single (.missed hlookUp)).tail .read).tail .kept

theorem length_searchAll (engine : Engine) (queries : List Query) :
    (engine.searchAll queries).1.length = queries.length := by
  induction queries generalizing engine with
  | nil => rfl
  | cons query queries ih => exact congrArg (· + 1) (ih _)

/-- The queries of a batch can run one after the other. -/
theorem batch_searchAll (engine : Engine) (queries : List Query) :
    engine.Batch queries (engine.searchAll queries).1 (engine.searchAll queries).2 := by
  have hrun (before : List (Query × Progress)) (engine : Engine) : Relation.ReflTransGen Step
      (engine, before ++ queries.map fun query => (query, .waiting))
      ((engine.searchAll queries).2, before ++
        queries.zipWith (fun query result => (query, .answered result))
          (engine.searchAll queries).1) := by
    induction queries generalizing before engine with
    | nil => exact .refl
    | cons query queries ih =>
        have hrest := ih (before ++ [(query, .answered (engine.search query).1)])
          (engine.search query).2
        simp only [List.append_assoc, List.singleton_append] at hrest
        exact (run_search engine query before _).trans hrest
  exact ⟨length_searchAll engine queries, hrun [] engine⟩

end

/-! All that an engine can be called for. -/

inductive Call
  | request (request : Request)
  | batch (queries : List Query)
  | save

inductive Response
  | replied (reply : Reply)
  | found (results : List (Except SearchError (List Answer)))
  | saved (result : Except Fault Bytes)

/-- The engine can respond so to a call and be this engine then. -/
inductive Responds (engine : Engine) : Call → Response → Engine → Prop
  | request (request : Request) :
      Responds engine (.request request) (.replied (engine.serve request).1) (engine.serve request).2
  | batch {queries : List Query} {results : List (Except SearchError (List Answer))} {next : Engine}
      (h : engine.Batch queries results next) : Responds engine (.batch queries) (.found results) next
  | save : Responds engine .save (.saved engine.save) engine

/-- The engine can respond to these calls so, one after the other, and be this engine then. -/
inductive Calls : Engine → List (Call × Response) → Engine → Prop
  | nil (engine : Engine) : Calls engine [] engine
  | cons {engine next last : Engine} {call : Call} {response : Response}
      {calls : List (Call × Response)} (hfirst : engine.Responds call response next)
      (hrest : Calls next calls last) : Calls engine ((call, response) :: calls) last

/-- One response to a call: the queries of a batch run one after the other. -/
def respond (engine : Engine) : Call → Response × Engine
  | .request request => (.replied (engine.serve request).1, (engine.serve request).2)
  | .batch queries => (.found (engine.searchAll queries).1, (engine.searchAll queries).2)
  | .save => (.saved engine.save, engine)

/-- Responds to calls in turn. -/
def respondAll (engine : Engine) : List Call → List (Call × Response) × Engine
  | [] => ([], engine)
  | call :: calls =>
    ((call, (engine.respond call).1) :: ((engine.respond call).2.respondAll calls).1,
      ((engine.respond call).2.respondAll calls).2)

/-- The document that was added by a call. -/
def added? (tokenizer : Tokenizer) : Call × Response → Option Document
  | (.request (.add addition), .replied (.added (.ok _))) => some (addition.toDocument tokenizer)
  | _ => none

/-- The documents that were added by calls, in order. -/
def accepted (tokenizer : Tokenizer) (calls : List (Call × Response)) : List Document :=
  calls.filterMap (added? tokenizer)

namespace Response

/-- The id under which a document was added. -/
def docId? : Response → Option UInt32
  | replied (.added (.ok docId)) => some docId
  | _ => none

/-- The results of the queries of a call. -/
def results : Response → List (Except SearchError (List Answer))
  | replied (.found result) => [result]
  | found results => results
  | _ => []

end Response

/-- The ids under which documents were added by calls, in order. -/
def ids (calls : List (Call × Response)) : List UInt32 := calls.filterMap (·.2.docId?)

section
variable {engine next : Engine} {call : Call} {response : Response}
  {calls : List (Call × Response)}

theorem responds_respond (engine : Engine) (call : Call) :
    engine.Responds call (engine.respond call).1 (engine.respond call).2 := by
  cases call with
  | request request => exact .request request
  | batch queries => exact .batch (engine.batch_searchAll queries)
  | save => exact .save

theorem calls_respondAll (engine : Engine) (asked : List Call) :
    engine.Calls (engine.respondAll asked).1 (engine.respondAll asked).2 := by
  induction asked generalizing engine with
  | nil => exact .nil engine
  | cons call asked ih => exact .cons (engine.responds_respond call) (ih _)

theorem map_fst_respondAll (engine : Engine) (asked : List Call) :
    (engine.respondAll asked).1.map (·.1) = asked := by
  induction asked generalizing engine with
  | nil => rfl
  | cons call asked ih => exact congrArg (call :: ·) (ih _)

/-- No list gets shorter by a call. -/
theorem fits_of_responds (h : engine.Responds call response next) (hfits : next.index.Fits) :
    engine.index.Fits := by
  cases h with
  | request request => exact fits_of_serve hfits
  | batch hbatch =>
      obtain ⟨cache?, counters, rfl⟩ := exists_run hbatch.run
      exact hfits
  | save => exact hfits

theorem fits_of_calls (h : engine.Calls calls next) (hfits : next.index.Fits) :
    engine.index.Fits := by
  induction h with
  | nil => exact hfits
  | cons hfirst _ ih => exact fits_of_responds hfirst (ih hfits)

theorem config_of_responds (h : engine.Responds call response next) :
    next.config = engine.config := by
  cases h with
  | request request => exact config_serve engine request
  | batch hbatch =>
      obtain ⟨cache?, counters, rfl⟩ := exists_run hbatch.run
      rfl
  | save => rfl

theorem config_of_calls (h : engine.Calls calls next) : next.config = engine.config := by
  induction h with
  | nil => rfl
  | cons hfirst _ ih => exact ih.trans (config_of_responds hfirst)

end

end Concordance.Engine
