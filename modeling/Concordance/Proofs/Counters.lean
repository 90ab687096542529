import Concordance.Proofs.Recency
import Concordance.Proofs.Requests

/-!
# What the counters of an engine tell

An engine counts the documents that it took, the queries that it served, and the answers without
documents. All it replies to requests stands in a log, and `remembered?` reads off such a log which
answer the cache gives again. The first two counters are what the log says. The third leaves out the
empty answers that came from the cache, so that it falls behind as soon as one of them is given
again.
-/

namespace Concordance

namespace Engine

/-! What an exchange with an engine is counted as. -/

def Request.isSearch : Request → Bool
  | .add _ => false
  | .search _ => true

/-- A document was taken. -/
def Reply.isAccepted : Reply → Bool
  | .added (.ok _) => true
  | _ => false

/-- A query was answered, with no documents. -/
def Reply.isEmpty : Reply → Bool
  | .found (.ok answer) => answer.isEmpty
  | _ => false

/-! What a log of exchanges says of the cache, whatever the documents. -/

/-- The query that was answered, in the form in which its answer is kept. -/
def answered? (tokenizer : Tokenizer) : Request × Reply → Option Query
  | (.search query, .found (.ok _)) =>
    if query.count = 0 ∨ query.terms = [] then none else some (query.normalize tokenizer)
  | _ => none

/-- The answer known to a query after an exchange, if none is given up for want of room: a document
that is taken makes all answers void. -/
def known (tokenizer : Tokenizer) (query : Query) (answer? : Option (List Answer))
    (exchange : Request × Reply) : Option (List Answer) :=
  match exchange.2 with
  | .added (.ok _) => none
  | .found (.ok answer) =>
    if answered? tokenizer exchange = some query then some answer else answer?
  | _ => answer?

/-- The answer given last to a query since a document was taken. -/
def lastAnswer? (tokenizer : Tokenizer) (log : List (Request × Reply)) (query : Query) :
    Option (List Answer) :=
  log.foldl (known tokenizer query) none

/-- The other queries that were answered since this one was. -/
def answeredSince (tokenizer : Tokenizer) (log : List (Request × Reply)) (query : Query) :
    Finset Query :=
  ((log.filterMap (answered? tokenizer)).reverse.takeWhile (· ≠ query)).toFinset

/-- The answer to a query that the cache has: the last one, unless the other queries that were
answered since are as many as the settings leave room for. -/
def remembered? (config : Config) (log : List (Request × Reply)) (query : Query) :
    Option (List Answer) :=
  let key := query.normalize config.tokenizer
  if query.count = 0 ∨ query.terms = [] then none
  else if (answeredSince config.tokenizer log key).card < config.cacheSize.toNat then
    lastAnswer? config.tokenizer log key
  else none

/-- The cache has the empty answer that is asked for. -/
def repeatsEmpty (config : Config) (log : List (Request × Reply)) : Request → Bool
  | .add _ => false
  | .search query => remembered? config log query = some []

/-- How many of the exchanges behind a log gave an empty answer again. -/
def repeatedEmpties (config : Config) (log : List (Request × Reply)) : List (Request × Reply) → Nat
  | [] => 0
  | exchange :: exchanges =>
    (repeatsEmpty config log exchange.1).toNat +
      repeatedEmpties config (log ++ [exchange]) exchanges

/-! The cache of an engine gives what the log says. -/
section
variable {room : Cache.Room} {engine : Engine} {query : Query} {log : List (Request × Reply)}
  {tokenizer : Tokenizer} {exchange : Request × Reply} {answer : List Answer} {config : Config}
  {cache? kept? : Option (Cache Query (List Answer))}

open Sequences Result

/-- The calls on the cache come to the same as the exchanges with the engine. -/
inductive Tracks (config : Config) (log : List (Request × Reply)) :
    Option (Cache Query (List Answer)) → Prop
  | off (hsize : config.cacheSize = 0) : Tracks config log none
  | on {cache : Cache Query (List Answer)}
      {calls : List (Cache.Call Query (List Answer) × Option (List Answer))}
      (hroom : cache.capacity = config.cacheSize.toNat) (hrecalls : cache.Recalls calls)
      (hlast : ∀ query, Cache.lastPut? calls query = lastAnswer? config.tokenizer log query)
      (hused : calls.filterMap Cache.used? = log.filterMap (answered? config.tokenizer)) :
      Tracks config log (some cache)

theorem lastAnswer?_concat : lastAnswer? tokenizer (log ++ [exchange]) query =
    known tokenizer query (lastAnswer? tokenizer log query) exchange :=
  List.foldl_concat ..

/-- The cache has what the log says that it has. -/
theorem Tracks.get_eq (h : Tracks config log cache?)
    (hactive : ¬ (query.count = 0 ∨ query.terms = [])) :
    (cache?.bind fun cache => (cache.get (query.normalize config.tokenizer)).1) =
      remembered? config log query := by
  rw [remembered?, if_neg hactive]
  cases h with
  | off hsize =>
      rw [hsize]
      exact (if_neg (Nat.not_lt_zero _)).symm
  | on hroom hrecalls hlast hused =>
      rw [Option.bind_some, hrecalls.get_eq, hroom, hlast, Cache.usedSince, hused]
      rfl

theorem Tracks.remembered?_eq_none (h : Tracks config log cache?)
    (hactive : ¬ (query.count = 0 ∨ query.terms = []))
    (hget : cache?.map (·.get (query.normalize config.tokenizer)) = kept?.map (none, ·)) :
    remembered? config log query = none := by
  rw [← h.get_eq hactive]
  cases cache? with
  | none => rfl
  | some cache =>
      rw [Option.map_some, eq_comm, Option.map_eq_some_iff] at hget
      obtain ⟨kept, rfl, hkept⟩ := hget
      rw [Option.bind_some, ← hkept]

/-- An exchange that says nothing of any answer. -/
theorem Tracks.pass (h : Tracks config log cache?)
    (hanswered : answered? config.tokenizer exchange = none)
    (hknown : ∀ query answer?, known config.tokenizer query answer? exchange = answer?) :
    Tracks config (log ++ [exchange]) cache? := by
  cases h with
  | off hsize => exact .off hsize
  | on hroom hrecalls hlast hused =>
      refine .on hroom hrecalls ?_ ?_
      · intro query
        rw [lastAnswer?_concat, hknown]
        exact hlast query
      · rw [filterMap_concat, hanswered, Option.toList_none, List.append_nil]
        exact hused

/-- An exchange that comes to one call. -/
theorem Tracks.respond (h : Tracks config log cache?)
    (call : Cache.Call Query (List Answer))
    (hused : ∀ cache, cache? = some cache → Cache.used? (call, (cache.respond call).1) =
      answered? config.tokenizer exchange)
    (hlast : ∀ query, Cache.kept query (lastAnswer? config.tokenizer log query) call =
      known config.tokenizer query (lastAnswer? config.tokenizer log query) exchange) :
    Tracks config (log ++ [exchange]) (cache?.map fun cache => (cache.respond call).2) := by
  cases h with
  | off hsize => exact .off hsize
  | @on cache calls hroom hrecalls hkept hcalls =>
      refine .on ((cache.capacity_respond call).trans hroom) (hrecalls.respond call) ?_ ?_
      · intro query
        rw [lastAnswer?_concat, Cache.lastPut?_concat, hkept]
        exact hlast query
      · rw [filterMap_concat, filterMap_concat, hcalls, hused cache rfl]

/-- A key that is looked for in vain leaves a cache as the log says. -/
theorem Tracks.missed {key : Query} (h : Tracks config log cache?)
    (hget : cache?.map (·.get key) = kept?.map (none, ·)) : Tracks config log kept? := by
  cases h with
  | off hsize =>
      rw [Option.map_none, eq_comm, Option.map_eq_none_iff] at hget
      rw [hget]
      exact .off hsize
  | on hroom hrecalls hlast hused =>
      rw [Option.map_some, eq_comm, Option.map_eq_some_iff] at hget
      obtain ⟨kept, rfl, hkept⟩ := hget
      obtain ⟨hkeeps, hcapacity⟩ := hrecalls.missed hkept.symm
      exact .on (hcapacity.trans hroom) hkeeps hlast hused

theorem answered?_search (hactive : ¬ (query.count = 0 ∨ query.terms = [])) :
    answered? tokenizer (.search query, .found (.ok answer)) = some (query.normalize tokenizer) :=
  if_neg hactive

/-- An answer that is given to a query is known to it, and it is known to no other query. -/
theorem known_search (hactive : ¬ (query.count = 0 ∨ query.terms = [])) (other : Query)
    (answer? : Option (List Answer)) :
    known tokenizer other answer? (.search query, .found (.ok answer)) =
      if query.normalize tokenizer = other then some answer else answer? := by
  rw [known, answered?_search hactive]
  simp only [Option.some.injEq]

theorem Tracks.search (h : Tracks engine.config log engine.cache?) (query : Query) :
    Tracks engine.config (log ++ [(.search query, .found (engine.search query).1)])
      (engine.search query).2.cache? := by
  have hsearch := engine.searches query
  generalize engine.search query = outcome at hsearch
  cases hsearch with
  | idle hidle =>
      have hanswered : answered? engine.config.tokenizer (.search query, .found (.ok [])) = none :=
        if_pos hidle
      apply h.pass hanswered
      intro other answer?
      rw [known, hanswered]
      exact if_neg (Option.some_ne_none other).symm
  | @found cache kept answer hactive hcache hget =>
      have hknown : lastAnswer? engine.config.tokenizer log
          (query.normalize engine.config.tokenizer) = some answer := by
        have hremembered := h.get_eq hactive
        rw [hcache, Option.bind_some, hget, remembered?, if_neg hactive] at hremembered
        split at hremembered
        · exact hremembered.symm
        · cases hremembered
      rw [hcache] at h
      have hkept : some kept = (some cache).map fun cache =>
          (cache.respond (.get (query.normalize engine.config.tokenizer))).2 := by
        rw [Option.map_some, Cache.respond, hget]
      dsimp only
      rw [hkept]
      apply h.respond
      · rintro _ ⟨⟩
        rw [Cache.respond, hget, answered?_search hactive]
        rfl
      · intro other
        rw [known_search hactive]
        split
        · next heq => rw [← heq, hknown]; rfl
        · rfl
  | failed hactive hcache => exact (h.missed hcache).pass rfl fun _ _ => rfl
  | @read cache? answer hactive hcache =>
      apply (h.missed hcache).respond (.put (query.normalize engine.config.tokenizer) answer)
      · intro cache _
        exact (answered?_search hactive).symm
      · intro other
        rw [known_search hactive]
        rfl

theorem Tracks.serve (h : Tracks engine.config log engine.cache?) (request : Request) :
    Tracks engine.config (log ++ [(request, (engine.serve request).1)])
      (engine.serve request).2.cache? := by
  cases request with
  | add addition =>
      rw [Engine.serve, take_eq]
      have hadds := engine.adds (addition.toDocument engine.config.tokenizer)
      generalize engine.add (addition.toDocument engine.config.tokenizer) = added at hadds
      cases hadds with
      | refused | full | behind => exact h.pass rfl fun _ _ => rfl
      | added => exact h.respond .clear (fun _ _ => rfl) fun _ => rfl
  | search query => exact h.search query

/-! Each exchange is counted. -/

/-- What one exchange is counted as: an empty answer that the cache has is not counted again. -/
theorem counters_serve (h : Tracks engine.config log engine.cache?) (request : Request) :
    (engine.serve request).2.counters.documentsIndexed =
        engine.counters.documentsIndexed + (engine.serve request).1.isAccepted.toNat ∧
      (engine.serve request).2.counters.queriesServed =
        engine.counters.queriesServed + request.isSearch.toNat ∧
      (engine.serve request).2.counters.emptyResults +
          (repeatsEmpty engine.config log request).toNat =
        engine.counters.emptyResults + (engine.serve request).1.isEmpty.toNat := by
  cases request with
  | add addition =>
      rw [Engine.serve, take_eq]
      have hadds := engine.adds (addition.toDocument engine.config.tokenizer)
      generalize engine.add (addition.toDocument engine.config.tokenizer) = added at hadds
      cases hadds with
      | refused | full | behind => exact ⟨rfl, rfl, rfl⟩
      | added => exact ⟨rfl, rfl, rfl⟩
  | search query =>
      rw [Engine.serve, repeatsEmpty]
      have hsearch := engine.searches query
      generalize engine.search query = outcome at hsearch
      cases hsearch with
      | idle hidle =>
          have hnone : remembered? engine.config log query = none := if_pos hidle
          rw [hnone]
          exact ⟨rfl, rfl, rfl⟩
      | @found cache kept answer hactive hcache hget =>
          have hsome : remembered? engine.config log query = some answer := by
            rw [← h.get_eq hactive, hcache, Option.bind_some, hget]
          rw [hsome]
          refine ⟨rfl, rfl, ?_⟩
          cases answer <;> rfl
      | failed hactive hcache =>
          rw [h.remembered?_eq_none hactive hcache]
          exact ⟨rfl, rfl, rfl⟩
      | @read cache? answer hactive hcache =>
          rw [h.remembered?_eq_none hactive hcache]
          exact ⟨rfl, rfl, rfl⟩

theorem counters_serveAll {requests : List Request} {replies : List Reply} {last : Engine}
    (h : Tracks engine.config log engine.cache?)
    (hserve : engine.serveAll requests = (replies, last)) :
    last.counters.documentsIndexed =
        engine.counters.documentsIndexed + replies.countP (·.isAccepted) ∧
      last.counters.queriesServed =
        engine.counters.queriesServed + requests.countP (·.isSearch) ∧
      last.counters.emptyResults +
          repeatedEmpties engine.config log (requests.zip replies) =
        engine.counters.emptyResults + replies.countP (·.isEmpty) := by
  induction requests generalizing engine log replies with
  | nil =>
      cases hserve
      exact ⟨rfl, rfl, rfl⟩
  | cons request requests ih =>
      obtain ⟨hindexed, hserved, hempty⟩ := counters_serve h request
      have hconfig := config_serve engine request
      have hnext := h.serve request
      cases hserve
      rw [← hconfig] at hnext
      obtain ⟨hindexed', hserved', hempty'⟩ := ih hnext rfl
      rw [hconfig] at hempty'
      simp only [countP_cons_eq, List.zip_cons_cons, repeatedEmpties]
      exact ⟨by omega, by omega, by omega⟩

/-- The cache never gave an empty answer again, exchange by exchange. -/
theorem repeatedEmpties_eq_zero_iff {exchanges : List (Request × Reply)} :
    repeatedEmpties config log exchanges = 0 ↔
      ∀ before exchange after, exchanges = before ++ exchange :: after →
        repeatsEmpty config (log ++ before) exchange.1 = false := by
  induction exchanges generalizing log with
  | nil => simp [repeatedEmpties]
  | cons first exchanges ih =>
      rw [repeatedEmpties, Nat.add_eq_zero_iff, ih, Bool.toNat_eq_zero]
      constructor
      · rintro ⟨hfirst, hrest⟩ before exchange after heq
        cases before with
        | nil =>
            cases heq
            rwa [List.append_nil]
        | cons other before =>
            cases heq
            rw [List.append_cons]
            exact hrest before exchange after rfl
      · intro h
        refine ⟨?_, ?_⟩
        · have hfirst := h [] first exchanges rfl
          rwa [List.append_nil] at hfirst
        · intro before exchange after heq
          rw [← List.append_cons]
          exact h (first :: before) exchange after (congrArg (first :: ·) heq)

/-- Without a cache, no answer is given again. -/
theorem repeatsEmpty_of_cacheSize_eq_zero (h : config.cacheSize = 0) (request : Request) :
    repeatsEmpty config log request = false := by
  cases request with
  | add addition => rfl
  | search query =>
      have hnone : remembered? config log query = none := by
        rw [remembered?, h]
        split
        · rfl
        · exact if_neg (Nat.not_lt_zero _)
      rw [repeatsEmpty, hnone]
      rfl

theorem tracks_of_new {start : Engine} (h : new room config = .ok start) :
    Tracks start.config [] start.cache? ∧ start.config = config ∧ start.counters = ⟨0, 0, 0⟩ := by
  obtain ⟨valid, cache?, hcache, rfl⟩ := new_eq_ok_iff.1 h
  refine ⟨?_, rfl, rfl⟩
  rw [cacheFor] at hcache
  split at hcache
  · next hsize =>
      cases hcache
      exact .off hsize
  · next hsize =>
      obtain ⟨cache, hallocate, rfl⟩ := map_eq_ok_iff.1 hcache
      cases (Cache.allocate_eq_ok_iff.1 hallocate).2
      refine .on ?_ (Cache.recalls_ofCapacity _) (fun _ => rfl) rfl
      have hpos : 0 < config.cacheSize.toNat :=
        Nat.pos_of_ne_zero fun hzero => hsize (UInt64.toNat_inj.1 hzero)
      exact Nat.max_eq_left hpos

/-- The counters of a new engine that served requests: the documents that it took, and the queries.
Of the answers without documents those are counted that the cache did not give again, so that the
count is exact just where it never did. -/
theorem counters_exact_iff {start last : Engine} {requests : List Request} {replies : List Reply}
    (hnew : new room config = .ok start) (hserve : start.serveAll requests = (replies, last)) :
    last.stats.documentsIndexed = replies.countP (·.isAccepted) ∧
      last.stats.queriesServed = requests.countP (·.isSearch) ∧
      last.stats.emptyResults + repeatedEmpties config [] (requests.zip replies) =
        replies.countP (·.isEmpty) ∧
      (last.stats.emptyResults = replies.countP (·.isEmpty) ↔
        ∀ before exchange after, requests.zip replies = before ++ exchange :: after →
          repeatsEmpty config before exchange.1 = false) ∧
      (config.cacheSize = 0 → last.stats.emptyResults = replies.countP (·.isEmpty)) := by
  obtain ⟨htracks, hconfig, hzero⟩ := tracks_of_new hnew
  obtain ⟨hindexed, hserved, hempty⟩ := counters_serveAll htracks hserve
  rw [hzero, Nat.zero_add] at hindexed hserved hempty
  rw [hconfig] at hempty
  have hexact : last.stats.emptyResults = replies.countP (·.isEmpty) ↔
      ∀ before exchange after, requests.zip replies = before ++ exchange :: after →
        repeatsEmpty config before exchange.1 = false := by
    have hstats : last.stats.emptyResults = last.counters.emptyResults := rfl
    rw [hstats, ← hempty, Nat.left_eq_add, repeatedEmpties_eq_zero_iff]
    rfl
  refine ⟨hindexed, hserved, hempty, hexact, ?_⟩
  intro hsize
  exact hexact.2 fun before exchange _ _ => repeatsEmpty_of_cacheSize_eq_zero hsize exchange.1

/-- A new engine with a cache for eight answers. -/
def cached : Engine :=
  { sample with
    config := .withCache .default 8
    valid := Config.validate_eq_ok_iff.1 rfl
    cache? := some (.ofCapacity 8) }

/-- A search for a word. -/
def searchFor (word : String) : Request := .search ⟨[word], 10, false, false⟩

/-- A word is looked for in vain, again before the next document comes and again behind it. -/
def searchesInVain : List Request :=
  [.add (.text "a"), searchFor "a", searchFor "c", searchFor "C", .add (.text "b"), searchFor "c"]

/-- Of three empty answers the one that the cache gave again is not counted. -/
theorem counters_exact_iff_again :
    new .ample (.withCache .default 8) = .ok cached ∧
      (cached.serveAll searchesInVain).2.stats.documentsIndexed = 2 ∧
      (cached.serveAll searchesInVain).2.stats.queriesServed = 4 ∧
      (cached.serveAll searchesInVain).1.countP (·.isEmpty) = 3 ∧
      (cached.serveAll searchesInVain).2.stats.emptyResults = 2 := by
  have hnew : new .ample (.withCache .default 8) = .ok cached := by
    with_unfolding_all rfl
  have hserve : cached.serveAll searchesInVain =
      ((cached.serveAll searchesInVain).1, (cached.serveAll searchesInVain).2) :=
    (Prod.eta _).symm
  obtain ⟨hindexed, hserved, hempty, -, -⟩ := counters_exact_iff hnew hserve
  -- Decided together, so that the requests are served once.
  have hreplies : (cached.serveAll searchesInVain).1.countP (·.isAccepted) = 2 ∧
      (cached.serveAll searchesInVain).1.countP (·.isEmpty) = 3 ∧
      repeatedEmpties (.withCache .default 8) []
        (searchesInVain.zip (cached.serveAll searchesInVain).1) = 1 := by
    decide +kernel
  obtain ⟨haccepted, hempties, hrepeated⟩ := hreplies
  rw [hrepeated, hempties] at hempty
  exact ⟨hnew, hindexed.trans haccepted, hserved, hempties, Nat.add_right_cancel hempty⟩

/-- Without documents a search finds nothing, and neither does it when the cache answers, but only
the first of two searches is counted. -/
theorem emptyResults_ne_countP :
    new .ample (.withCache .default 8) = .ok cached ∧
      (cached.serveAll [searchFor "a", searchFor "a"]).1.countP (·.isEmpty) = 2 ∧
      (cached.serveAll [searchFor "a", searchFor "a"]).2.stats.emptyResults = 1 := by
  have hnew : new .ample (.withCache .default 8) = .ok cached := by
    with_unfolding_all rfl
  exact ⟨hnew, by decide +kernel⟩

end

end Engine

end Concordance
