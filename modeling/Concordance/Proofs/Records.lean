import Concordance.Proofs.Calls

/-!
# What an engine records of its documents

The documents that an engine accepted, in order, determine its next id, its length table and
the postings of every list. `Records` says how; a call that adds a document puts it behind the
others, and any other call leaves the records as they are.
-/

namespace Concordance

open Sequences Result PostingList

/-- The postings of a term in documents that are numbered from zero on. -/
def contentsOf (documents : List Document) (term : String) : List Posting :=
  documents.zipIdx.flatMap fun (document, number) =>
    ((document.rows.map (InvertedIndex.rowPosting number.toUInt32)).filter (·.1 = term)).map (·.2)

section
variable {documents : List Document} {document : Document} {term : String} {docId : UInt32}
  {posting : Posting}

/-- The postings of a document that comes behind the others come behind theirs. -/
theorem contentsOf_concat (documents : List Document) (document : Document) :
    contentsOf (documents ++ [document]) = InvertedIndex.extend (contentsOf documents)
      (document.rows.map (InvertedIndex.rowPosting documents.length.toUInt32)) := by
  ext term : 1
  rw [contentsOf, List.zipIdx_append, List.flatMap_append, ← contentsOf, InvertedIndex.extend]
  simp

theorem mem_contentsOf_iff : posting ∈ contentsOf documents term ↔
    ∃ (number : Nat) (document : Document), documents[number]? = some document ∧
      ∃ row ∈ document.rows, row.1 = term ∧
        posting = (InvertedIndex.rowPosting number.toUInt32 row).2 := by
  rw [contentsOf, List.mem_flatMap]
  constructor
  · rintro ⟨⟨document, number⟩, hdocument, hm⟩
    obtain ⟨_, hfound, rfl⟩ := List.mem_map.1 hm
    obtain ⟨hentry, hterm⟩ := List.mem_filter.1 hfound
    obtain ⟨row, hrow, rfl⟩ := List.mem_map.1 hentry
    exact ⟨number, document, List.mem_zipIdx_iff_getElem?.1 hdocument, row, hrow,
      of_decide_eq_true hterm, rfl⟩
  · rintro ⟨number, document, hdocument, row, hrow, rfl, rfl⟩
    refine ⟨(document, number), List.mem_zipIdx_iff_getElem?.2 hdocument, ?_⟩
    apply List.mem_map_of_mem
    exact List.mem_filter.2 ⟨List.mem_map_of_mem hrow, decide_eq_true rfl⟩

/-- As long as the numbers have 32 bits, the postings of a document are those of its rows. -/
theorem mem_contentsOf (hlength : documents.length < UInt32.size)
    (h : posting ∈ contentsOf documents term) :
    ∃ document, documents[posting.docId.toNat]? = some document ∧
      ∃ row ∈ document.rows, row.1 = term ∧
        posting = (InvertedIndex.rowPosting posting.docId row).2 := by
  obtain ⟨number, document, hdocument, row, hrow, hterm, rfl⟩ := mem_contentsOf_iff.1 h
  have hlt := (List.getElem?_eq_some_iff.1 hdocument).1
  have hnumber : number.toUInt32.toNat = number := UInt32.toNat_ofNat_of_lt' (by omega)
  refine ⟨document, ?_, row, hrow, hterm, rfl⟩
  rw [← hdocument]
  exact congrArg (documents[·]?) hnumber

end

namespace Engine

/-- The rows of a document agree in number, and no term has two. -/
structure Regular (document : Document) : Prop where
  length_offsets : document.terms.length = document.offsets.length
  length_positions : document.terms.length = document.positions.length
  nodup : (document.rows.map (·.1)).Nodup

/-- What an engine knows of the documents that it accepted. -/
structure Records (engine : Engine) (documents : List Document) : Prop where
  nextDocId_eq : engine.nextDocId.toNat = documents.length
  index : engine.index.Holds (contentsOf documents)
  lengths : ∀ docId : UInt32,
    engine.lengths.lengths[docId]? = documents[docId.toNat]?.map Document.length
  lastDocId_lt : ∀ last, engine.lengths.lastDocId? = some last → last.toNat < documents.length
  regular : ∀ document ∈ documents, Regular document
  cacheSound : engine.CacheSound

section
variable {engine next : Engine} {documents : List Document} {document : Document}
  {room : Cache.Room} {config : Config} {call : Call} {response : Response}
  {calls : List (Call × Response)}

theorem records_of_new (h : new room config = .ok engine) : engine.Records [] := by
  obtain ⟨hholds, -⟩ := holds_of_new h
  obtain ⟨hconsistent, -⟩ := consistent_of_new h
  refine ⟨hholds.nextDocId_eq, hholds.index, ?_, hholds.lastDocId_lt, nofun, hholds.cacheSound⟩
  intro docId
  have hzero : ¬ docId < engine.nextDocId := by
    rw [UInt32.lt_iff_toNat_lt, hholds.nextDocId_eq]
    exact Nat.not_lt_zero _
  exact Std.ExtTreeMap.getElem?_eq_none (mt (hconsistent.lt_of_mem docId) hzero)

/-- A document is added unless it is refused beforehand, and then comes behind the others; one
that is refused leaves the engine as it is. -/
theorem Records.add (h : engine.Records documents) (hfits : (engine.add document).2.index.Fits) :
    (∃ refusal, engine.refusal? document = some refusal ∧
        engine.add document = (.error (.construction refusal), engine)) ∨
      engine.refusal? document = none ∧
        (engine.add document).1 = .ok engine.nextDocId ∧
        engine.lengths.add engine.nextDocId document.length = .ok (engine.add document).2.lengths ∧
        (engine.add document).2.Records (documents ++ [document]) := by
  have hbefore := fits_of_add hfits
  have hadds := engine.adds document
  generalize engine.add document = added at hadds hfits
  cases hadds with
  | refused hrefusal => exact .inl ⟨_, hrefusal, rfl⟩
  | full hfull => exact absurd hbefore hfull
  | @behind last hlast hle =>
      have hlt := h.lastDocId_lt _ hlast
      rw [← h.nextDocId_eq, ← UInt32.lt_iff_toNat_lt] at hlt
      exact absurd hlt (UInt32.not_lt.2 hle)
  | @added postings index lengths next hnext hpostings happend hlengths =>
      have hnumber : engine.nextDocId = documents.length.toUInt32 := by
        rw [← h.nextDocId_eq, Nat.toUInt32_eq, UInt32.ofNat_toNat]
      have hlength : (documents ++ [document]).length = documents.length + 1 := List.length_append
      have hadd : engine.index.add engine.nextDocId document = (.ok (), index) := by
        rw [InvertedIndex.add, hpostings, ← happend]
      obtain ⟨⟨hoffsets, hpositions⟩, hrows, hnodup, -⟩ :=
        InvertedIndex.postings_eq_ok_iff.1 hpostings
      obtain ⟨hlast, htable⟩ := DocLengths.of_add hlengths
      refine .inr ⟨by rw [refusal?, hnext, hpostings], rfl, hlengths, ?_⟩
      constructor
      case nextDocId_eq =>
          rw [hlength, ← h.nextDocId_eq]
          exact (Word.sum?_eq_some_iff.1 hnext).symm
      case index =>
          rw [contentsOf_concat, ← hnumber, ← hrows]
          have hholds := (h.index.add hpostings (by rw [hadd]; exact hfits)).2
          rwa [hadd] at hholds
      case lengths =>
          intro docId
          simp only [htable, Std.ExtTreeMap.getElem?_insert, Std.compare_eq_iff_eq]
          split
          · next heq =>
              rw [← heq, h.nextDocId_eq, List.getElem?_concat_length, Option.map_some]
          · next hne =>
              have hother : documents.length ≠ docId.toNat := by
                rw [← h.nextDocId_eq]
                exact mt UInt32.toNat_inj.1 hne
              rw [h.lengths]
              congr 1
              ext other
              simp [getElem?_concat_eq_some_iff, hother.symm]
      case lastDocId_lt =>
          intro last hsome
          rw [hlast, Option.some.injEq] at hsome
          rw [← hsome, hlength, h.nextDocId_eq]
          exact Nat.lt_succ_self _
      case regular =>
          rw [List.forall_mem_append, List.forall_mem_singleton]
          exact ⟨h.regular, hoffsets, hpositions, hnodup⟩
      case cacheSound =>
          intro cache hcache
          obtain ⟨old, -, rfl⟩ := Option.map_eq_some_iff.1 hcache
          exact Cache.sound_clear old

/-- Every document that is found has a length. -/
theorem Records.exists_length (h : engine.Records documents) {term : String} {posting : Posting}
    (hm : posting ∈ contentsOf documents term) :
    ∃ length, engine.lengths.length posting.docId = .ok length := by
  have hlength : documents.length < UInt32.size := h.nextDocId_eq ▸ engine.nextDocId.toNat_lt
  obtain ⟨document, hdocument, -⟩ := mem_contentsOf hlength hm
  refine ⟨document.length, DocLengths.length_eq_ok_iff.2 ?_⟩
  rw [h.lengths, hdocument, Option.map_some]

theorem Records.fails_answer (h : engine.Records documents) (query : Query) :
    Fails Hit.OffsetShortage (engine.answer query) := by
  rw [answer]
  split
  · exact .ok []
  · next hactive =>
      apply fails_execute h.index.presents fun _ _ => h.exists_length
      simpa [Query.normalize] using (not_or.1 hactive).2

/-- Searches leave the records as they are. -/
theorem Records.of_searched (h : engine.Records documents) (hcache : next.CacheSound)
    (hnext : ∃ cache? counters, next = { engine with cache?, counters }) :
    next.Records documents := by
  obtain ⟨cache?, counters, rfl⟩ := hnext
  exact ⟨h.nextDocId_eq, h.index, h.lengths, h.lastDocId_lt, h.regular, hcache⟩

/-- What one call does to the records, and what its response can be. -/
theorem Records.of_responds (h : engine.Records documents)
    (hresponds : engine.Responds call response next) (hfits : next.index.Fits) :
    next.Records (documents ++ (added? engine.config.tokenizer (call, response)).toList) ∧
      response.docId?.toList.map (·.toNat) = List.range' documents.length
        (added? engine.config.tokenizer (call, response)).toList.length ∧
      ∀ result ∈ response.results, Fails Hit.OffsetShortage result := by
  have hsame : engine.Records (documents ++ []) := by rwa [List.append_nil]
  have hsearched {next : Engine} (hcache : next.CacheSound)
      (hnext : ∃ cache? counters, next = { engine with cache?, counters }) :
      next.Records (documents ++ []) := hsame.of_searched hcache hnext
  cases hresponds with
  | request request =>
      cases request with
      | add addition =>
          simp only [serve, take_eq] at hfits ⊢
          rcases h.add hfits with ⟨refusal, -, hrefused⟩ | ⟨-, hok, -, hrecords⟩
          · rw [hrefused]
            exact ⟨hsame, rfl, List.forall_mem_nil _⟩
          · rw [hok]
            refine ⟨hrecords, ?_, List.forall_mem_nil _⟩
            simp [Response.docId?, added?, h.nextDocId_eq]
      | search query =>
          obtain ⟨hresult, cache?, counters, hnext, hcache⟩ := h.cacheSound.search query
          refine ⟨hsearched hcache ⟨cache?, counters, hnext⟩, rfl, ?_⟩
          intro result hm
          rw [List.mem_singleton.1 hm]
          exact hresult ▸ h.fails_answer query
  | batch hbatch =>
      obtain ⟨hresults, cache?, counters, hnext, hcache⟩ := h.cacheSound.batch hbatch
      refine ⟨hsearched hcache ⟨cache?, counters, hnext⟩, rfl, ?_⟩
      intro result hm
      rw [Response.results, hresults] at hm
      obtain ⟨query, -, rfl⟩ := List.mem_map.1 hm
      exact h.fails_answer query
  | save => exact ⟨hsame, rfl, List.forall_mem_nil _⟩

theorem accepted_cons (tokenizer : Tokenizer) (call : Call × Response)
    (calls : List (Call × Response)) :
    accepted tokenizer (call :: calls) =
      (added? tokenizer call).toList ++ accepted tokenizer calls := by
  rw [accepted, List.filterMap_cons]
  cases added? tokenizer call <;> rfl

theorem ids_cons (call : Call × Response) (calls : List (Call × Response)) :
    ids (call :: calls) = call.2.docId?.toList ++ ids calls := by
  rw [ids, List.filterMap_cons]
  cases call.2.docId? <;> rfl

/-- What a run of calls does to the records, and what its responses can be. -/
theorem Records.of_calls (h : engine.Records documents) (hcalls : engine.Calls calls next)
    (hfits : next.index.Fits) :
    next.Records (documents ++ accepted engine.config.tokenizer calls) ∧
      (ids calls).map (·.toNat) =
        List.range' documents.length (accepted engine.config.tokenizer calls).length ∧
      ∀ call ∈ calls, ∀ result ∈ call.2.results, Fails Hit.OffsetShortage result := by
  induction hcalls generalizing documents with
  | nil =>
      refine ⟨?_, rfl, ?_⟩
      · rwa [accepted, List.filterMap_nil, List.append_nil]
      · intro call hm
        cases hm
  | cons hfirst hrest ih =>
      obtain ⟨hnext, hids, hresults⟩ := h.of_responds hfirst (fits_of_calls hrest hfits)
      obtain ⟨hlast, hrestIds, hrestResults⟩ := ih hnext hfits
      rw [config_of_responds hfirst] at hlast hrestIds
      rw [accepted_cons, ids_cons]
      refine ⟨?_, ?_, ?_⟩
      · rwa [← List.append_assoc]
      · rw [List.map_append, hids, hrestIds, List.length_append, List.length_append,
          List.range'_append_1]
      · rw [List.forall_mem_cons]
        exact ⟨hresults, hrestResults⟩

theorem Consistent.of_responds (h : engine.Consistent)
    (hresponds : engine.Responds call response next) (hfits : next.index.Fits) :
    next.Consistent := by
  cases hresponds with
  | request request => exact h.serve (fits_of_serve hfits) request
  | batch hbatch =>
      obtain ⟨cache?, counters, rfl⟩ := exists_run hbatch.run
      exact ⟨h.span_eq, h.list, h.size_lengths, h.lt_of_mem, h.lastDocId_lt⟩
  | save => exact h

theorem Consistent.of_calls (h : engine.Consistent) (hcalls : engine.Calls calls next)
    (hfits : next.index.Fits) : next.Consistent := by
  induction hcalls with
  | nil => exact h
  | cons hfirst hrest ih => exact ih (h.of_responds hfirst (fits_of_calls hrest hfits)) hfits

end

end Engine

end Concordance
