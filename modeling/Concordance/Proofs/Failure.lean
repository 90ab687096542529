import Concordance.Proofs.Engine

/-!
# How a search can fail

Where the lists of an index can be read and each of their documents has a length, there is one
error left for a search: that a document has fewer offset pairs than are to be highlighted. It
makes no difference what was searched before.
-/

namespace Concordance

open Sequences Result Conjunction

namespace Engine

variable {engine : Engine} {contents : String → List Posting} {query : Query}

/-- Where each posting's document has a length, that of a column has. -/
theorem exists_length_of_column {lengths : DocLengths}
    (hlengths : ∀ term, ∀ posting ∈ contents term,
      ∃ length, lengths.length posting.docId = .ok length)
    {terms : List String} (hterms : terms ≠ []) {docId : UInt32} {column : List Posting}
    (hcolumn : Column docId (terms.map contents) column) :
    ∃ length, lengths.length docId = .ok length := by
  obtain ⟨term, rest, rfl⟩ := List.exists_cons_of_ne_nil hterms
  obtain ⟨posting, hm, rfl⟩ := hcolumn.exists_mem (List.mem_map_of_mem (List.mem_cons_self ..))
  exact hlengths term posting hm

/-- A query has the same hits whether they are to be highlighted or not, each that of a column. -/
theorem exists_hits (hpresents : engine.index.Presents contents)
    (hlengths : ∀ term, ∀ posting ∈ contents term,
      ∃ length, engine.lengths.length posting.docId = .ok length)
    (hterms : query.terms ≠ []) :
    ∃ hits : List Hit,
      (∀ snippets, engine.execute { query with snippets } = hits.mapM (Hit.answer snippets)) ∧
      ∀ hit ∈ hits, ∃ column, Column hit.docId (query.terms.map contents) column ∧
        ∃ rarities, Retrieval.Gains True
          ⟨engine.lengths, engine.docCount, query.count, query.isPhrase⟩ rarities hit column := by
  by_cases hall : ∀ term ∈ query.terms, contents term ≠ []
  · obtain ⟨cursors, hcursors, hshows⟩ := hpresents.exists_cursors? hall
    let retrieval : Retrieval := ⟨engine.lengths, engine.docCount, query.count, query.isPhrase⟩
    obtain ⟨found, hrun, -, -, hgains⟩ := Retrieval.found_spec retrieval hshows
      (by rw [ne_nil_of_forall₂ hshows]; simpa using hterms) (fun _ => trivial)
      fun _ _ hcolumn _ => exists_length_of_column hlengths hterms hcolumn
    refine ⟨Hit.best query.count found, ?_, ?_⟩
    · exact fun _ => execute_of_run hcursors hrun
    · intro hit hm
      obtain ⟨column, hcolumn, -, hgain⟩ := hgains hit (Ranking.mem_of_mem_best _ _ hm)
      exact ⟨column, hcolumn, _, hgain⟩
  · simp only [not_forall, not_not] at hall
    obtain ⟨term, hterm, hnil⟩ := hall
    exact ⟨[], fun _ => execute_eq_nil hpresents hterm hnil, nofun⟩

theorem fails_execute (hpresents : engine.index.Presents contents)
    (hlengths : ∀ term, ∀ posting ∈ contents term,
      ∃ length, engine.lengths.length posting.docId = .ok length)
    (hterms : query.terms ≠ []) : Fails Hit.OffsetShortage (engine.execute query) := by
  obtain ⟨hits, hexecute, hgains⟩ := exists_hits hpresents hlengths hterms
  rw [show engine.execute query = hits.mapM (Hit.answer query.snippets) from hexecute _]
  apply Fails.mapM
  intro hit hm
  obtain ⟨column, -, rarities, hgain⟩ := hgains hit hm
  exact .ite ((Hit.fails_highlights hgain).bind fun _ => .ok _) (.ok _)

/-- Searches leave all but the cache and the counters. -/
theorem CacheSound.searchAll (h : engine.CacheSound) (queries : List Query) :
    ∃ cache? counters, (engine.searchAll queries).2 = { engine with cache?, counters } ∧
      (engine.searchAll queries).2.CacheSound := by
  induction queries generalizing engine with
  | nil => exact ⟨engine.cache?, engine.counters, rfl, h⟩
  | cons query queries ih =>
      obtain ⟨-, cache?, counters, hnext, hsound⟩ := h.search query
      obtain ⟨lastCache?, lastCounters, hlast, hlastSound⟩ := ih hsound
      refine ⟨lastCache?, lastCounters, ?_, hlastSound⟩
      rw [Engine.searchAll, hlast, hnext]

theorem fails_search (hsound : engine.CacheSound) (hpresents : engine.index.Presents contents)
    (hlengths : ∀ term, ∀ posting ∈ contents term,
      ∃ length, engine.lengths.length posting.docId = .ok length)
    (earlier : List Query) (query : Query) :
    Fails Hit.OffsetShortage ((engine.searchAll earlier).2.search query).1 := by
  obtain ⟨cache?, counters, hsearched, hsound⟩ := hsound.searchAll earlier
  rw [(hsound.search query).1]
  split
  · exact .ok []
  · next hactive =>
      rw [hsearched]
      apply fails_execute hpresents hlengths
      simpa [Query.normalize] using (not_or.1 hactive).2

end Engine

end Concordance
