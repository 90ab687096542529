import Concordance.Proofs.Agreement

/-!
# Settings that no answer depends on

The skip span says how the lists are cut and the cache size how many answers are kept. Engines
whose settings differ there alone stay twins: called for the same, they take the same documents
and give the same answers, whatever each of them has in its cache and in whatever order the
queries of a batch run on either.
-/

namespace Concordance.Engine

/-- The engines accepted the same documents, and read texts and count tokens alike. -/
structure Twins (first second : Engine) : Prop where
  records : ∃ documents, first.Records documents ∧ second.Records documents
  tokenizer_eq : first.config.tokenizer = second.config.tokenizer
  lengths_eq : first.lengths = second.lengths

theorem twins_of_new {room : Cache.Room} {config : Config} {skipSpan cacheSize : UInt64}
    {first second : Engine} (h : new room config = .ok first)
    (h' : new room { config with skipSpan, cacheSize } = .ok second) :
    Twins first second := by
  have hfirst := records_of_new h
  have hsecond := records_of_new h'
  obtain ⟨valid, cache?, -, rfl⟩ := new_eq_ok_iff.1 h
  obtain ⟨valid', cache?', -, rfl⟩ := new_eq_ok_iff.1 h'
  exact ⟨⟨[], hfirst, hsecond⟩, rfl, rfl⟩

namespace Twins
variable {first second next next' : Engine} {call : Call} {response response' : Response}
  {calls calls' : List (Call × Response)}

theorem nextDocId_eq (h : Twins first second) : first.nextDocId = second.nextDocId := by
  obtain ⟨documents, hfirst, hsecond⟩ := h.records
  rw [← UInt32.toNat_inj, hfirst.nextDocId_eq, hsecond.nextDocId_eq]

/-- Both refuse a document for the same reason. -/
theorem refusal?_eq (h : Twins first second) (document : Document) :
    first.refusal? document = second.refusal? document := by
  obtain ⟨documents, hfirst, hsecond⟩ := h.records
  rw [refusal?, refusal?, h.nextDocId_eq, InvertedIndex.postings_eq hfirst.index hsecond.index]

theorem answer_eq (h : Twins first second) (query : Query) :
    first.answer query = second.answer query := by
  obtain ⟨documents, hfirst, hsecond⟩ := h.records
  rw [answer, answer, h.tokenizer_eq]
  split
  · rfl
  · next hactive =>
      apply execute_eq hfirst hsecond h.lengths_eq
      simpa [Query.normalize] using (not_or.1 hactive).2

theorem add (h : Twins first second) (document : Document)
    (hfits : (first.add document).2.index.Fits) (hfits' : (second.add document).2.index.Fits) :
    (first.add document).1 = (second.add document).1 ∧
      Twins (first.add document).2 (second.add document).2 := by
  obtain ⟨documents, hfirst, hsecond⟩ := h.records
  -- The check is the same on both, so that one refuses the document exactly if the other does.
  have hrefusal := h.refusal?_eq document
  rcases hfirst.add hfits with ⟨refusal, hsome, hadd⟩ | ⟨hnone, hok, hlengths, hrecords⟩
  · rcases hsecond.add hfits' with ⟨refusal', hsome', hadd'⟩ | ⟨hnone', -⟩
    · rw [hsome, hsome', Option.some.injEq] at hrefusal
      rw [hadd, hadd', hrefusal]
      exact ⟨rfl, h⟩
    · rw [hsome, hnone'] at hrefusal
      cases hrefusal
  · rcases hsecond.add hfits' with ⟨refusal', hsome', -⟩ | ⟨-, hok', hlengths', hrecords'⟩
    · rw [hnone, hsome'] at hrefusal
      cases hrefusal
    · rw [h.lengths_eq, h.nextDocId_eq, hlengths', Except.ok.injEq] at hlengths
      refine ⟨by rw [hok, hok', h.nextDocId_eq], ⟨_, hrecords, hrecords'⟩, ?_, hlengths.symm⟩
      rw [config_add, config_add, h.tokenizer_eq]

/-- Searches leave twins. -/
theorem of_searched (h : Twins first second)
    (hnext : ∃ cache? counters, next = { first with cache?, counters }) (hcache : next.CacheSound)
    (hnext' : ∃ cache? counters, next' = { second with cache?, counters })
    (hcache' : next'.CacheSound) : Twins next next' := by
  obtain ⟨documents, hfirst, hsecond⟩ := h.records
  refine ⟨⟨documents, hfirst.of_searched hcache hnext, hsecond.of_searched hcache' hnext'⟩, ?_, ?_⟩
  all_goals
    obtain ⟨_, _, rfl⟩ := hnext
    obtain ⟨_, _, rfl⟩ := hnext'
  · exact h.tokenizer_eq
  · exact h.lengths_eq

/-- Twins respond alike, and stay twins. -/
theorem of_responds (h : Twins first second) (hsave : call ≠ .save)
    (hresponds : first.Responds call response next)
    (hresponds' : second.Responds call response' next')
    (hfits : next.index.Fits) (hfits' : next'.index.Fits) :
    response = response' ∧ Twins next next' := by
  obtain ⟨documents, hfirst, hsecond⟩ := h.records
  cases hresponds with
  | request request =>
      cases hresponds' with
      | request =>
          cases request with
          | add addition =>
              simp only [serve, take_eq, h.tokenizer_eq] at hfits hfits' ⊢
              obtain ⟨hresult, htwins⟩ := h.add _ hfits hfits'
              rw [hresult]
              exact ⟨rfl, htwins⟩
          | search query =>
              obtain ⟨hresult, cache?, counters, hnext, hcache⟩ := hfirst.cacheSound.search query
              obtain ⟨hresult', cache?', counters', hnext', hcache'⟩ :=
                hsecond.cacheSound.search query
              have hanswer : (first.search query).1 = (second.search query).1 :=
                hresult.trans ((h.answer_eq query).trans hresult'.symm)
              refine ⟨by rw [serve, serve, hanswer], ?_⟩
              exact h.of_searched ⟨_, _, hnext⟩ hcache ⟨_, _, hnext'⟩ hcache'
  | batch hbatch =>
      cases hresponds' with
      | batch hbatch' =>
          obtain ⟨hresults, cache?, counters, hnext, hcache⟩ := hfirst.cacheSound.batch hbatch
          obtain ⟨hresults', cache?', counters', hnext', hcache'⟩ :=
            hsecond.cacheSound.batch hbatch'
          have hanswers : first.answer = second.answer := funext h.answer_eq
          refine ⟨by rw [hresults, hresults', hanswers], ?_⟩
          exact h.of_searched ⟨_, _, hnext⟩ hcache ⟨_, _, hnext'⟩ hcache'
  | save => exact absurd rfl hsave

/-- Twins that are called for the same respond alike, call by call. -/
theorem of_calls (h : Twins first second) (hcalls : first.Calls calls next)
    (hcalls' : second.Calls calls' next') (hsame : calls.map (·.1) = calls'.map (·.1))
    (hsave : Call.save ∉ calls.map (·.1)) (hfits : next.index.Fits) (hfits' : next'.index.Fits) :
    calls = calls' ∧ Twins next next' := by
  -- Along the first run; the second one has to make the same call at each step.
  induction hcalls generalizing second calls' with
  | nil =>
      cases hcalls' with
      | nil => exact ⟨rfl, h⟩
      | cons => cases hsame
  | cons hfirst hrest ih =>
      cases hcalls' with
      | nil => cases hsame
      | cons hfirst' hrest' =>
          rw [List.map_cons, List.map_cons, List.cons.injEq] at hsame
          obtain ⟨rfl, hsame⟩ := hsame
          rw [List.map_cons, List.mem_cons, not_or] at hsave
          obtain ⟨rfl, htwins⟩ := h.of_responds (Ne.symm hsave.1) hfirst hfirst'
            (fits_of_calls hrest hfits) (fits_of_calls hrest' hfits')
          obtain ⟨rfl, hlast⟩ := ih htwins hrest' hsame hsave.2 hfits
          exact ⟨rfl, hlast⟩

end Twins

variable {config : Config} {skipSpan cacheSize : UInt64} {start other engine last : Engine}
  {calls calls' : List (Call × Response)}

/-- New engines whose settings differ in the skip span and the cache size alone give the same
response to every call, whatever they are called for, as long as they are not to save. -/
theorem calls_eq_of_settings (hstart : new room config = .ok start)
    (hother : new room { config with skipSpan, cacheSize } = .ok other)
    (hcalls : start.Calls calls engine) (hcalls' : other.Calls calls' last)
    (hsame : calls.map (·.1) = calls'.map (·.1)) (hsave : Call.save ∉ calls.map (·.1))
    (hfits : engine.index.Fits) (hlast : last.index.Fits) : calls = calls' :=
  ((twins_of_new hstart hother).of_calls hcalls hcalls' hsame hsave hfits hlast).1

/-- An engine with short spans and room for one answer. -/
def tuned : Engine where
  config := { skipSpan := 2, cacheSize := 1 }
  valid := ⟨by decide, by decide, by decide⟩
  index := .empty ⟨2, by decide⟩
  lengths := .empty
  nextDocId := 0
  cache? := some (.ofCapacity 1)
  counters := ⟨0, 0, 0⟩

/-- The same query in two cases, one that takes its place in the cache, and a refused document. -/
def tunedCalls : List Call :=
  [.request (.add (.text "a b")), .request (.add (.text "b c")), .request (.add (.text "b d")),
    .request (.search ⟨["b", "D"], 3, true, true⟩),
    .batch [⟨["B", "d"], 3, true, true⟩, ⟨["a"], 3, false, false⟩, ⟨["b", "d"], 3, true, true⟩],
    .request (.add (.document ⟨["a", "a"], [[⟨0, 0⟩], [⟨1, 1⟩]], [[0], [1]]⟩)),
    .request (.search ⟨["a"], 3, false, true⟩)]

theorem calls_eq_of_settings_tuned :
    new .ample .default = .ok sample ∧
      new .ample { Config.default with skipSpan := 2, cacheSize := 1 } = .ok tuned ∧
      (sample.respondAll tunedCalls).2.index.Fits ∧ (tuned.respondAll tunedCalls).2.index.Fits ∧
      (sample.respondAll tunedCalls).1 = (tuned.respondAll tunedCalls).1 := by
  have hstart : new .ample .default = .ok sample := rfl
  have hother : new .ample { Config.default with skipSpan := 2, cacheSize := 1 } = .ok tuned := by
    with_unfolding_all rfl
  have hfits : (sample.respondAll tunedCalls).2.index.Fits :=
    InvertedIndex.fits_of_all (by decide +kernel)
  have hlast : (tuned.respondAll tunedCalls).2.index.Fits :=
    InvertedIndex.fits_of_all (by decide +kernel)
  have hsave : Call.save ∉ (sample.respondAll tunedCalls).1.map (·.1) := by
    rw [map_fst_respondAll]
    simp [tunedCalls]
  refine ⟨hstart, hother, hfits, hlast, ?_⟩
  exact calls_eq_of_settings hstart hother (calls_respondAll sample tunedCalls)
    (calls_respondAll tuned tunedCalls) (by rw [map_fst_respondAll, map_fst_respondAll]) hsave
    hfits hlast

end Concordance.Engine
