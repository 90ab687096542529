import Concordance.Proofs.Cache
import Concordance.Proofs.Collection

/-!
# An engine answers with the texts that match

`Engine.Holds` says what an engine is after it was given texts: they are numbered in
turn, each has its length, the index holds the postings of their terms, and what the
cache keeps are answers from the index. A search leaves this as it is, and a text that
is added comes behind the others, so that every answer with room for all texts has just
those that match.
-/

namespace Concordance

open Sequences Result Conjunction Document

namespace DocLengths
variable {table next : DocLengths} {docId length : UInt32}

theorem length_eq_ok_iff : table.length docId = .ok length ↔
    table.lengths[docId]? = some length := by
  rw [DocLengths.length]
  split
  · next heq => simp [heq]
  · next heq => simp [heq]

/-- A document above the last one is taken. -/
theorem exists_add (table : DocLengths) (docId length : UInt32)
    (h : ∀ last, table.lastDocId? = some last → last < docId) :
    ∃ next, table.add docId length = .ok next ∧ next.lastDocId? = some docId ∧
      next.lengths = table.lengths.insert docId length := by
  rw [add]
  cases hlast : table.lastDocId? with
  | none => exact ⟨_, rfl, rfl, rfl⟩
  | some last =>
      simp only [if_neg (UInt32.not_le.2 (h last hlast))]
      exact ⟨_, rfl, rfl, rfl⟩

end DocLengths

namespace Hit
variable {hit : Hit} {snippets : Bool} {found : Answer}

/-- The answer of a hit. -/
def answer (snippets : Bool) (hit : Hit) : Except SearchError Answer := do
  let highlights ← if snippets then hit.highlights else pure []
  return ⟨hit.docId, hit.score, highlights⟩

theorem of_answer (h : hit.answer snippets = .ok found) :
    (found.docId, found.score) = (hit.docId, hit.score) := by
  rw [answer] at h
  split at h
  · obtain ⟨_, -, h⟩ := bind_eq_ok_iff.1 h
    cases h
    rfl
  · cases h
    rfl

theorem exists_answer_iff : (∃ found, hit.answer snippets = .ok found) ↔
    (snippets = true → ∃ rows, hit.highlights = .ok rows) := by
  cases snippets with
  | false => exact iff_of_true ⟨_, rfl⟩ nofun
  | true =>
      rw [answer, if_pos rfl]
      constructor
      · rintro ⟨found, h⟩ -
        obtain ⟨rows, hrows, -⟩ := bind_eq_ok_iff.1 h
        exact ⟨rows, hrows⟩
      · intro h
        obtain ⟨rows, hrows⟩ := h rfl
        exact ⟨_, bind_eq_ok_iff.2 ⟨rows, hrows, rfl⟩⟩

end Hit

namespace Engine
variable {engine : Engine} {texts : List String} {text : String} {query : Query}

/-- The answers that the cache keeps are those from the index. -/
def CacheSound (engine : Engine) : Prop :=
  ∀ cache, engine.cache? = some cache →
    cache.Sound fun query answer => engine.execute query = .ok answer

/-- What an engine knows of the texts it was given. -/
structure Holds (engine : Engine) (texts : List String) : Prop where
  nextDocId_eq : engine.nextDocId.toNat = texts.length
  length : ∀ docId : UInt32, docId.toNat < texts.length →
    ∃ length, engine.lengths.length docId = .ok length
  lastDocId_lt : ∀ last, engine.lengths.lastDocId? = some last → last.toNat < texts.length
  index : engine.index.Holds (postingsOf engine.config.tokenizer texts)
  cacheSound : engine.CacheSound

theorem sound_of_cacheFor {room : Cache.Room} {config : Config}
    {cache : Cache Query (List Answer)} {p : Query → List Answer → Prop}
    (h : cacheFor room config = .ok (some cache)) : cache.Sound p := by
  rw [cacheFor] at h
  split at h
  · cases h
  · obtain ⟨made, hmade, hsome⟩ := map_eq_ok_iff.1 h
    cases hsome
    exact Cache.sound_of_allocate hmade

/-- A new engine has no documents, and the cache that its settings ask for. -/
theorem new_eq_ok_iff {room : Cache.Room} {config : Config} :
    new room config = .ok engine ↔
      ∃ valid cache?, cacheFor room config = .ok cache? ∧
        engine = ⟨config, valid, .empty (config.span valid), .empty, 0, cache?, ⟨0, 0, 0⟩⟩ := by
  rw [new]
  split
  · next cause hinvalid =>
      constructor
      · intro h
        cases h
      · rintro ⟨valid, -⟩
        rw [Config.validate_eq_ok_iff.2 valid] at hinvalid
        cases hinvalid
  · next hvalid =>
      cases hcache : cacheFor room config with
      | error fault =>
          simp only [ofParts, hcache]
          exact ⟨nofun, nofun⟩
      | ok cache? =>
          simp only [ofParts, hcache]
          constructor
          · intro h
            cases h
            exact ⟨_, cache?, rfl, rfl⟩
          · rintro ⟨valid, _, ⟨⟩, rfl⟩
            rfl

/-- There is an engine for valid settings and no others, if there is room for the cache that
they ask for. -/
theorem exists_new_iff {room : Cache.Room} {config : Config} :
    (∃ engine, new room config = .ok engine) ↔
      config.Valid ∧ (config.cacheSize = 0 ∨ room config.cacheSize.toNat = .ok ()) := by
  have hcache : (∃ cache?, cacheFor room config = .ok cache?) ↔
      config.cacheSize = 0 ∨ room config.cacheSize.toNat = .ok () := by
    rw [cacheFor]
    split
    · next hzero => simp [hzero]
    · next hsome => simp [map_eq_ok_iff, Cache.allocate_eq_ok_iff, hsome]
  rw [← hcache]
  constructor
  · rintro ⟨engine, h⟩
    obtain ⟨valid, cache?, hcache, -⟩ := new_eq_ok_iff.1 h
    exact ⟨valid, cache?, hcache⟩
  · rintro ⟨valid, cache?, hcache⟩
    exact ⟨_, new_eq_ok_iff.2 ⟨valid, cache?, hcache, rfl⟩⟩

theorem holds_of_new {room : Cache.Room} {config : Config} (h : new room config = .ok engine) :
    engine.Holds [] ∧ engine.config = config := by
  obtain ⟨valid, cache?, hcache, rfl⟩ := new_eq_ok_iff.1 h
  refine ⟨⟨rfl, ?_, nofun, InvertedIndex.holds_empty _, ?_⟩, rfl⟩
  · intro docId hlt
    exact absurd hlt (Nat.not_lt_zero _)
  · intro cache hsome
    exact sound_of_cacheFor (hcache.trans (congrArg _ hsome))

/-- A query with a term that has no postings has no hits. -/
theorem execute_eq_nil {contents : String → List Posting}
    (hpresents : engine.index.Presents contents) {term : String}
    (hterm : term ∈ query.terms) (hnil : contents term = []) : engine.execute query = .ok [] := by
  rw [execute, hpresents.cursors?_eq_none hterm hnil]
  rfl

/-- An answer is that of the hits. -/
theorem execute_of_run {cursors : List Cursor} {hits : List Hit}
    (hcursors : engine.index.cursors? query.terms = .ok (some cursors))
    (hrun : Retrieval.run ⟨engine.lengths, engine.docCount, query.count, query.isPhrase⟩ cursors =
      .ok hits) : engine.execute query = hits.mapM (Hit.answer query.snippets) := by
  rw [execute]
  simp only [hcursors, liftM_fault_ok, ok_bind]
  rw [hrun, ok_bind]
  rfl

/-- Hits that can be highlighted give an answer each. -/
theorem exists_answers (hits : List Hit) (snippets : Bool)
    (h : ∀ hit ∈ hits, ∃ rows, hit.highlights = .ok rows) :
    ∃ answers, hits.mapM (Hit.answer snippets) = .ok answers ∧
      answers.map (·.docId) = hits.map (·.docId) := by
  obtain ⟨answers, hanswers⟩ := exists_mapM_iff.2 fun hit hm =>
    Hit.exists_answer_iff.2 fun _ => h hit hm
  refine ⟨answers, hanswers, ?_⟩
  rw [mapM_eq_ok_iff] at hanswers
  rw [← List.forall₂_eq_eq_eq, List.forall₂_map_left_iff, List.forall₂_map_right_iff]
  exact hanswers.flip.imp fun _ _ hanswer => congrArg Prod.fst (Hit.of_answer hanswer)

/-- With room for all texts, a query of normalized terms is answered by the texts that it
selects, each once. -/
theorem Holds.execute (h : engine.Holds texts) (hlength : texts.length < UInt32.size)
    (hbytes : ∀ text ∈ texts, text.utf8ByteSize < UInt32.size) (hterms : query.terms ≠ [])
    (hcount : texts.length ≤ query.count) :
    ∃ answers, engine.execute query = .ok answers ∧ (answers.map (·.docId)).Nodup ∧
      ∀ docId : UInt32, docId ∈ answers.map (·.docId) ↔
        ∃ text, texts[docId.toNat]? = some text ∧
          query.Selects (engine.config.tokenizer.tokens text) := by
  let retrieval : Retrieval := ⟨engine.lengths, engine.docCount, query.count, query.isPhrase⟩
  have hselected (docId : UInt32) := exists_selected_iff engine.config.tokenizer docId hlength
    hbytes retrieval query rfl hterms
  have hlt {docId : UInt32} {text : String} (htext : texts[docId.toNat]? = some text) :
      docId.toNat < texts.length := (List.getElem?_eq_some_iff.1 htext).1
  by_cases hall : ∀ term ∈ query.terms, postingsOf engine.config.tokenizer texts term ≠ []
  · obtain ⟨cursors, hcursors, hshows⟩ := h.index.presents.exists_cursors? hall
    obtain ⟨hits, hrun, hnodup, hmem, hgains⟩ := Retrieval.run_spec retrieval
      hshows (by rw [ne_nil_of_forall₂ hshows]; simpa using hterms) (fun _ => trivial)
      (by
        intro docId column hcolumn hselects
        obtain ⟨text, htext, -⟩ := (hselected docId).1 ⟨column, hcolumn, hselects⟩
        exact h.length docId (hlt htext))
      (by
        intro docIds hdocIds hm
        have hbelow : ∀ docId ∈ docIds, docId.toNat < texts.length := by
          intro docId hd
          obtain ⟨text, htext, -⟩ := (hselected docId).1 (hm docId hd)
          exact hlt htext
        calc
          docIds.length ≤ texts.length := length_le_of_nodup hdocIds hbelow
          _ ≤ retrieval.count := hcount)
    obtain ⟨answers, hanswers, hdocIds⟩ := exists_answers hits query.snippets (by
      intro hit hm
      obtain ⟨column, hcolumn, -, hgain⟩ := hgains hit hm
      exact Hit.exists_highlights hgain (length_positions_of_column hlength hterms hcolumn))
    refine ⟨answers, ?_, hdocIds ▸ hnodup, ?_⟩
    · rw [execute_of_run hcursors hrun, hanswers]
    · intro docId
      rw [hdocIds, ← hselected docId]
      constructor
      · intro hm
        obtain ⟨hit, hit_mem, rfl⟩ := List.mem_map.1 hm
        obtain ⟨column, hcolumn, hselects, -⟩ := hgains hit hit_mem
        exact ⟨column, hcolumn, hselects⟩
      · rintro ⟨column, hcolumn, hselects⟩
        exact hmem docId column hcolumn hselects
  · simp only [not_forall, not_not] at hall
    obtain ⟨term, hterm, hnil⟩ := hall
    refine ⟨[], ?_, List.nodup_nil, ?_⟩
    · exact execute_eq_nil h.index.presents hterm hnil
    · intro docId
      rw [← hselected docId]
      simp only [List.map_nil, List.not_mem_nil, false_iff]
      rintro ⟨column, hcolumn, -⟩
      obtain ⟨p, hp, -⟩ := hcolumn.exists_mem (List.mem_map_of_mem hterm)
      rw [hnil] at hp
      cases hp

theorem countAnswer_eq (engine : Engine) (answer : List Answer) :
    engine.countAnswer answer = { engine with
      counters.emptyResults := engine.counters.emptyResults + answer.isEmpty.toNat } := by
  rw [countAnswer]
  cases answer <;> rfl

theorem exists_countAnswer (engine : Engine) (answer : List Answer) :
    ∃ counters, engine.countAnswer answer = { engine with counters } :=
  ⟨_, engine.countAnswer_eq answer⟩

/-- Answering from the index changes the cache and the counters alone. -/
theorem CacheSound.searchIndex (h : engine.CacheSound) (query : Query) :
    (engine.searchIndex query).1 = engine.execute query ∧
      ∃ cache? counters, (engine.searchIndex query).2 = { engine with cache?, counters } ∧
        (engine.searchIndex query).2.CacheSound := by
  rw [Engine.searchIndex]
  cases hexecute : engine.execute query with
  | error error => exact ⟨rfl, engine.cache?, engine.counters, rfl, h⟩
  | ok answer =>
      obtain ⟨counters, hcounted⟩ := exists_countAnswer engine answer
      simp only [hcounted]
      refine ⟨trivial, _, counters, rfl, ?_⟩
      intro cache hsome
      obtain ⟨old, hold, rfl⟩ := Option.map_eq_some_iff.1 hsome
      exact (h old hold).put hexecute

/-- What a search can come to: the query asks for nothing, its answer is found in the cache, or it
is looked for in the index, where that can fail. -/
inductive Searches (engine : Engine) (query : Query) :
    Except SearchError (List Answer) × Engine → Prop
  | idle (hidle : query.count = 0 ∨ query.terms = []) :
      Searches engine query (.ok [], { engine with
        counters.queriesServed := engine.counters.queriesServed + 1
        counters.emptyResults := engine.counters.emptyResults + 1 })
  | found {cache kept : Cache Query (List Answer)} {answer : List Answer}
      (hactive : ¬ (query.count = 0 ∨ query.terms = [])) (hcache : engine.cache? = some cache)
      (hget : cache.get (query.normalize engine.config.tokenizer) = (some answer, kept)) :
      Searches engine query (.ok answer, { engine with
        cache? := some kept
        counters.queriesServed := engine.counters.queriesServed + 1 })
  | failed {cache? : Option (Cache Query (List Answer))} {error : SearchError}
      (hactive : ¬ (query.count = 0 ∨ query.terms = []))
      (hcache : engine.cache?.map (·.get (query.normalize engine.config.tokenizer)) =
        cache?.map (none, ·))
      (hexecute : engine.execute (query.normalize engine.config.tokenizer) = .error error) :
      Searches engine query (.error error, { engine with
        cache?
        counters.queriesServed := engine.counters.queriesServed + 1 })
  | read {cache? : Option (Cache Query (List Answer))} {answer : List Answer}
      (hactive : ¬ (query.count = 0 ∨ query.terms = []))
      (hcache : engine.cache?.map (·.get (query.normalize engine.config.tokenizer)) =
        cache?.map (none, ·))
      (hexecute : engine.execute (query.normalize engine.config.tokenizer) = .ok answer) :
      Searches engine query (.ok answer, { engine with
        cache? := cache?.map (·.put (query.normalize engine.config.tokenizer) answer)
        counters.queriesServed := engine.counters.queriesServed + 1
        counters.emptyResults := engine.counters.emptyResults + answer.isEmpty.toNat })

theorem searches (engine : Engine) (query : Query) :
    engine.Searches query (engine.search query) := by
  -- What the index says is the answer wherever the cache has none.
  have hindex (cache? : Option (Cache Query (List Answer)))
      (hactive : ¬ (query.count = 0 ∨ query.terms = []))
      (hcache : engine.cache?.map (·.get (query.normalize engine.config.tokenizer)) =
        cache?.map (none, ·)) :
      engine.Searches query (Engine.searchIndex { engine with
          cache?
          counters.queriesServed := engine.counters.queriesServed + 1 }
        (query.normalize engine.config.tokenizer)) := by
    rw [Engine.searchIndex]
    split
    · next error hexecute => exact .failed hactive hcache hexecute
    · next answer hexecute =>
        rw [countAnswer_eq]
        exact .read hactive hcache hexecute
  rw [Engine.search]
  split
  · next hidle =>
      rw [countAnswer_eq]
      exact .idle hidle
  · next hactive =>
      dsimp only
      split
      · next hnone => exact hindex engine.cache? hactive (by rw [hnone]; rfl)
      · next cache hcache =>
          split
          · next answer kept hget => exact .found hactive hcache hget
          · next kept hget =>
              exact hindex (some kept) hactive (by rw [hcache]; exact congrArg some hget)

/-- A key that is looked for in vain leaves the cache sound. -/
theorem CacheSound.missed (h : engine.CacheSound) {key : Query}
    {cache? : Option (Cache Query (List Answer))}
    (hget : engine.cache?.map (·.get key) = cache?.map (none, ·)) :
    CacheSound { engine with cache? } := by
  rintro kept rfl
  rw [Option.map_some, Option.map_eq_some_iff] at hget
  obtain ⟨cache, hcache, hget⟩ := hget
  exact (h cache hcache).of_get_none hget

/-- A search gives what the index gives, wherever the answer comes from, and changes the cache
and the counters alone. -/
theorem CacheSound.search (h : engine.CacheSound) (query : Query) :
    (engine.search query).1 = (if query.count = 0 ∨ query.terms = [] then .ok []
        else engine.execute (query.normalize engine.config.tokenizer)) ∧
      ∃ cache? counters, (engine.search query).2 = { engine with cache?, counters } ∧
        (engine.search query).2.CacheSound := by
  have hsearch := engine.searches query
  generalize engine.search query = outcome at hsearch
  cases hsearch with
  | idle hidle => exact ⟨(if_pos hidle).symm, _, _, rfl, h⟩
  | @found cache kept answer hactive hcache hget =>
      obtain ⟨hanswer, hkept⟩ := (h cache hcache).of_get hget
      refine ⟨?_, _, _, rfl, ?_⟩
      · rw [if_neg hactive]
        exact hanswer.symm
      · rintro _ ⟨⟩
        exact hkept
  | failed hactive hcache hexecute =>
      refine ⟨?_, _, _, rfl, h.missed hcache⟩
      rw [if_neg hactive, hexecute]
  | @read cache? answer hactive hcache hexecute =>
      refine ⟨?_, _, _, rfl, ?_⟩
      · rw [if_neg hactive, hexecute]
      · intro cache hsome
        obtain ⟨kept, hkept, rfl⟩ := Option.map_eq_some_iff.1 hsome
        exact (h.missed hcache kept hkept).put hexecute

theorem Holds.search (h : engine.Holds texts) (query : Query) :
    (engine.search query).2.Holds texts ∧ (engine.search query).2.config = engine.config := by
  obtain ⟨-, cache?, counters, hnext, hsound⟩ := h.cacheSound.search query
  rw [hnext] at hsound ⊢
  exact ⟨⟨h.nextDocId_eq, h.length, h.lastDocId_lt, h.index, hsound⟩, rfl⟩

theorem Holds.searchAll (h : engine.Holds texts) (queries : List Query) :
    (engine.searchAll queries).2.Holds texts ∧
      (engine.searchAll queries).2.config = engine.config := by
  induction queries generalizing engine with
  | nil => exact ⟨h, rfl⟩
  | cons query queries ih =>
      obtain ⟨hnext, hconfig⟩ := h.search query
      obtain ⟨hlast, hlastConfig⟩ := ih hnext
      exact ⟨hlast, hlastConfig.trans hconfig⟩

theorem index_add {document : Document} {next : UInt32}
    (h : Word.sum? engine.nextDocId 1 = some next) :
    (engine.add document).2.index = (engine.index.add engine.nextDocId document).2 := by
  rw [add, h]
  cases engine.index.add engine.nextDocId document with
  | mk result index =>
      cases result with
      | error error => rfl
      | ok =>
          simp only
          split <;> rfl

theorem fits_of_add {document : Document} (h : (engine.add document).2.index.Fits) :
    engine.index.Fits := by
  cases hsum : Word.sum? engine.nextDocId 1 with
  | none =>
      rw [add, hsum] at h
      exact h
  | some next =>
      rw [index_add hsum] at h
      exact h.of_add

theorem fits_of_addText (text : String) (h : (engine.addText text).2.index.Fits) :
    engine.index.Fits :=
  fits_of_add h

theorem fits_of_addTexts (h : (engine.addTexts texts).2.index.Fits) : engine.index.Fits := by
  induction texts generalizing engine with
  | nil => exact h
  | cons text texts ih =>
      apply fits_of_addText text
      rw [addTexts] at h
      split at h
      · next error next hadd =>
          rw [hadd]
          exact h
      · next docId next hadd =>
          rw [hadd]
          exact ih h

/-- The document of a text can be added under the next number. -/
theorem Holds.postings_ofText (h : engine.Holds texts) (hlength : texts.length < UInt32.size)
    (hbytes : text.utf8ByteSize < UInt32.size) :
    engine.index.postings engine.nextDocId (.ofText engine.config.tokenizer text) =
      .ok ((ofText engine.config.tokenizer text).rows.map
        (InvertedIndex.rowPosting engine.nextDocId)) := by
  rw [h.index.postings_eq_ok_iff]
  refine ⟨by simp [ofText, ofTokens], rfl, ?_, ?_⟩
  · rw [ofText, rows_ofTokens, List.map_map]
    simpa [Function.comp_def] using nodup_termsOf (engine.config.tokenizer.tokens text)
  · intro row hm
    constructor
    · exact check_rowPosting hbytes engine.nextDocId hm
    · intro p hp
      rw [UInt32.lt_iff_toNat_lt, h.nextDocId_eq]
      exact docId_lt_of_mem_postingsOf hlength hp

/-- A text that is added comes behind the others. -/
theorem Holds.addText (h : engine.Holds texts) (hlength : texts.length + 1 < UInt32.size)
    (hbytes : text.utf8ByteSize < UInt32.size) (hfits : (engine.addText text).2.index.Fits) :
    (engine.addText text).1 = .ok engine.nextDocId ∧
      (engine.addText text).2.Holds (texts ++ [text]) ∧
      (engine.addText text).2.config = engine.config := by
  have hnumber : engine.nextDocId = texts.length.toUInt32 := by
    rw [← h.nextDocId_eq, Nat.toUInt32_eq, UInt32.ofNat_toNat]
  have hsum : Word.sum? engine.nextDocId 1 = some (engine.nextDocId + 1) := by
    rw [Word.sum?, if_pos]
    rw [h.nextDocId_eq]
    exact hlength
  have hnext : (engine.nextDocId + 1).toNat = texts.length + 1 := by
    rw [← Word.sum?_eq_some_iff.1 hsum, h.nextDocId_eq]
    rfl
  have hextend := extend_postingsOf engine.config.tokenizer texts text
  rw [← hnumber] at hextend
  obtain ⟨hok, hindex⟩ := h.index.add (h.postings_ofText (by omega) hbytes)
    (by rw [← index_add hsum]; exact hfits)
  rw [hextend] at hindex
  obtain ⟨lengths, hlengths, hlast, htable⟩ := DocLengths.exists_add engine.lengths
    engine.nextDocId (ofText engine.config.tokenizer text).length fun last hlast => by
      rw [UInt32.lt_iff_toNat_lt, h.nextDocId_eq]
      exact h.lastDocId_lt last hlast
  rw [Engine.addText, Engine.add, hsum]
  generalize engine.index.add engine.nextDocId (ofText engine.config.tokenizer text) = added at *
  obtain ⟨result, index⟩ := added
  cases hok
  simp only [hlengths]
  refine ⟨trivial, ?_, trivial⟩
  constructor
  case nextDocId_eq => rw [hnext, List.length_append, List.length_singleton]
  case length =>
      intro docId hlt
      rw [List.length_append, List.length_singleton] at hlt
      simp only [DocLengths.length_eq_ok_iff, htable, Std.ExtTreeMap.getElem?_insert,
        Std.compare_eq_iff_eq]
      by_cases hlatest : engine.nextDocId = docId
      · exact ⟨_, if_pos hlatest⟩
      · have hne : engine.nextDocId.toNat ≠ docId.toNat := mt UInt32.toNat_inj.1 hlatest
        obtain ⟨length, hlength⟩ := h.length docId (by rw [h.nextDocId_eq] at hne; omega)
        exact ⟨length, (if_neg hlatest).trans (DocLengths.length_eq_ok_iff.1 hlength)⟩
  case lastDocId_lt =>
      intro last hsome
      rw [hlast] at hsome
      cases hsome
      rw [List.length_append, List.length_singleton, h.nextDocId_eq]
      exact Nat.lt_succ_self _
  case index => exact hindex
  case cacheSound =>
      intro cache hsome
      obtain ⟨old, -, rfl⟩ := Option.map_eq_some_iff.1 hsome
      exact Cache.sound_clear old

/-- Texts that are added come behind the others. -/
theorem Holds.addTexts {more : List String} (h : engine.Holds texts)
    (hlength : texts.length + more.length < UInt32.size)
    (hbytes : ∀ text ∈ more, text.utf8ByteSize < UInt32.size)
    (hfits : (engine.addTexts more).2.index.Fits) :
    (engine.addTexts more).1 = .ok more.length ∧
      (engine.addTexts more).2.Holds (texts ++ more) ∧
      (engine.addTexts more).2.config = engine.config := by
  induction more generalizing engine texts with
  | nil => exact ⟨rfl, by simpa [Engine.addTexts] using h, rfl⟩
  | cons text more ih =>
      rw [List.forall_mem_cons] at hbytes
      rw [List.length_cons] at hlength
      rw [Engine.addTexts] at hfits ⊢
      cases hadd : engine.addText text with
      | mk result next =>
          rw [hadd] at hfits
          cases result with
          | error error =>
              obtain ⟨hok, -⟩ := h.addText (by omega) hbytes.1 (by rw [hadd]; exact hfits)
              rw [hadd] at hok
              cases hok
          | ok docId =>
              have hstep : next.index.Fits := fits_of_addTexts hfits
              obtain ⟨-, hnext, hconfig⟩ := h.addText (by omega) hbytes.1
                (by rw [hadd]; exact hstep)
              rw [hadd] at hnext hconfig
              obtain ⟨hcount, hlast, hlastConfig⟩ := ih hnext
                (by rw [List.length_append, List.length_singleton]; omega) hbytes.2 hfits
              rw [List.append_assoc, List.singleton_append] at hlast
              refine ⟨?_, hlast, hlastConfig.trans hconfig⟩
              simp only [hcount]
              rfl

/-- Texts can be added to a new engine one after the other, and whatever is searched before, a
search with room for all texts gives just those that answer the query, each once. -/
theorem search_eq_matches {room : Cache.Room} {config : Config}
    (hnew : new room config = .ok engine)
    (hlength : texts.length < UInt32.size)
    (hbytes : ∀ text ∈ texts, text.utf8ByteSize < UInt32.size)
    (hfits : (engine.addTexts texts).2.index.Fits) (earlier : List Query)
    (query : Query) (hterms : query.terms ≠ []) (hcount : texts.length ≤ query.count) :
    (engine.addTexts texts).1 = .ok texts.length ∧
      ∃ answers, (((engine.addTexts texts).2.searchAll earlier).2.search query).1 = .ok answers ∧
        (answers.map (·.docId)).Nodup ∧
        ∀ docId : UInt32, docId ∈ answers.map (·.docId) ↔
          ∃ text, texts[docId.toNat]? = some text ∧
            (query.normalize config.tokenizer).Selects (config.tokenizer.tokens text) := by
  obtain ⟨hempty, rfl⟩ := holds_of_new hnew
  obtain ⟨hok, hadded, hconfig⟩ := hempty.addTexts (by simpa using hlength) hbytes hfits
  rw [List.nil_append] at hadded
  obtain ⟨hsearched, hsearchedConfig⟩ := hadded.searchAll earlier
  rw [hconfig] at hsearchedConfig
  refine ⟨hok, ?_⟩
  rw [(hsearched.cacheSound.search query).1]
  by_cases hzero : query.count = 0
  · have hnil : texts = [] := List.length_eq_zero_iff.1 (by omega)
    refine ⟨[], by rw [if_pos (.inl hzero)], List.nodup_nil, ?_⟩
    intro docId
    simp [hnil]
  · rw [if_neg (not_or.2 ⟨hzero, hterms⟩), ← hsearchedConfig]
    exact hsearched.execute hlength hbytes (by simpa [Query.normalize] using hterms) hcount

theorem valid_default : Config.default.Valid := Config.validate_eq_ok_iff.1 rfl

/-- A new engine with the default settings. -/
def sample : Engine where
  config := .default
  valid := valid_default
  index := .empty (Config.default.span valid_default)
  lengths := .empty
  nextDocId := 0
  cache? := none
  counters := ⟨0, 0, 0⟩

def sampleTexts : List String := ["The quick fox", "a quick dog", "Quick, the fox!"]

/-- The first of three texts has the phrase, in whatever case it is asked for. -/
theorem search_eq_matches_phrase :
    new .ample .default = .ok sample ∧ sampleTexts.length < UInt32.size ∧
      (∀ text ∈ sampleTexts, text.utf8ByteSize < UInt32.size) ∧
      (sample.addTexts sampleTexts).2.index.Fits ∧
      ∃ answers, (((sample.addTexts sampleTexts).2.searchAll [⟨["fox"], 1, false, false⟩]).2.search
        ⟨["QUICK", "fox"], 3, true, true⟩).1 = .ok answers ∧ 0 ∈ answers.map (·.docId) := by
  have hnew : new .ample .default = .ok sample := rfl
  have hlength : sampleTexts.length < UInt32.size := by decide
  have hbytes : ∀ text ∈ sampleTexts, text.utf8ByteSize < UInt32.size := by decide
  have hfits : (sample.addTexts sampleTexts).2.index.Fits :=
    InvertedIndex.fits_of_all (by decide +kernel)
  obtain ⟨-, answers, hanswers, -, hmem⟩ := search_eq_matches hnew hlength hbytes hfits
    [⟨["fox"], 1, false, false⟩] ⟨["QUICK", "fox"], 3, true, true⟩ (List.cons_ne_nil _ _)
    (by decide)
  refine ⟨hnew, hlength, hbytes, hfits, answers, hanswers, ?_⟩
  apply (hmem 0).mpr
  refine ⟨"The quick fox", rfl, ?_⟩
  have hquery : Query.normalize ⟨["QUICK", "fox"], 3, true, true⟩ Config.default.tokenizer =
      ⟨["quick", "fox"], 3, true, true⟩ := by
    decide +kernel
  have htokens : (Config.default.tokenizer.tokens "The quick fox").map (·.text) =
      ["the", "quick", "fox"] := by
    decide +kernel
  rw [hquery, Query.Selects, if_pos (by decide)]
  refine ⟨1, ?_⟩
  intro i term hi
  rw [← List.getElem?_map, htokens]
  cases i with
  | zero => exact hi
  | succ i =>
      cases i with
      | zero => exact hi
      | succ i => cases hi

end Engine

end Concordance
