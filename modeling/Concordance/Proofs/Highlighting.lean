import Concordance.Proofs.Records
import Mathlib.Data.List.Nodup

/-!
# Which documents can be shown

An engine accepts a document whose rows have fewer offset pairs than positions, and finds the
phrases that stand at these positions. A search fails if such a phrase is to be highlighted and
one of its occurrences has no offset pair, and nothing else can make a search fail on documents
that were accepted.
-/

namespace Concordance

open Sequences Result Conjunction

/-- The rows of these terms, one for each of them. -/
def Document.RowsFor (document : Document) (terms : List String)
    (rows : List (String × List Span × List UInt32)) : Prop :=
  List.Forall₂ (fun row term => row ∈ document.rows ∧ row.1 = term) rows terms

/-- The terms' phrase can be shown in the document: every occurrence in a match has its pair. -/
def Document.Shows (document : Document) (terms : List String) : Prop :=
  ∀ rows, document.RowsFor terms rows →
    List.Forall₂ Hit.Paired (Phrase.table (rows.map (·.2.2))).rows (rows.map (·.2.1))

section
variable {documents : List Document} {document : Document} {docId : UInt32}
  {terms : List String} {column : List Posting} {rows : List (String × List Span × List UInt32)}

theorem exists_row (hlength : documents.length < UInt32.size)
    (hdocument : documents[docId.toNat]? = some document) {term : String} {posting : Posting}
    (hm : posting ∈ contentsOf documents term) (hdocId : posting.docId = docId) :
    ∃ row ∈ document.rows, row.1 = term ∧ posting = (InvertedIndex.rowPosting docId row).2 := by
  obtain ⟨other, hother, row, hrow, hterm, hposting⟩ := mem_contentsOf hlength hm
  rw [hdocId, hdocument, Option.some.injEq] at hother
  exact ⟨row, hother ▸ hrow, hterm, hdocId ▸ hposting⟩

/-- A column of accepted documents is that of rows. -/
theorem exists_rows_of_column (hlength : documents.length < UInt32.size)
    (hdocument : documents[docId.toNat]? = some document)
    (hcolumn : Column docId (terms.map (contentsOf documents)) column) :
    ∃ rows, document.RowsFor terms rows := by
  have hrow : ∀ term ∈ terms, ∃ row, row ∈ document.rows ∧ row.1 = term := by
    intro term hterm
    obtain ⟨posting, hm, hdocId⟩ := hcolumn.exists_mem (List.mem_map_of_mem hterm)
    obtain ⟨row, hrow, heq, -⟩ := exists_row hlength hdocument hm hdocId
    exact ⟨row, hrow, heq⟩
  obtain ⟨rows, hrows⟩ := exists_forall₂ hrow
  exact ⟨rows, hrows.flip⟩

/-- Rows of these terms give the only column. -/
theorem Document.RowsFor.column_eq (hrows : document.RowsFor terms rows)
    (hlength : documents.length < UInt32.size) (hregular : Engine.Regular document)
    (hdocument : documents[docId.toNat]? = some document)
    (hcolumn : Column docId (terms.map (contentsOf documents)) column) :
    column = rows.map fun row => (InvertedIndex.rowPosting docId row).2 := by
  rw [Column, List.forall₂_map_left_iff] at hcolumn
  induction hrows generalizing column with
  | nil =>
      cases hcolumn
      rfl
  | @cons row term rows terms hrow _ ih =>
      obtain ⟨posting, rest, ⟨hm, hdocId⟩, hrest, rfl⟩ := List.forall₂_cons_left_iff.1 hcolumn
      obtain ⟨other, hother, hterm, rfl⟩ := exists_row hlength hdocument hm hdocId
      have heq : other = row :=
        List.inj_on_of_nodup_map hregular.nodup hother hrow.1 (hterm.trans hrow.2.symm)
      rw [List.map_cons, heq, ih hrest]

/-- A document can be shown exactly if the postings of its column have their pairs. -/
theorem shows_iff_of_column (hlength : documents.length < UInt32.size)
    (hregular : Engine.Regular document) (hdocument : documents[docId.toNat]? = some document)
    (hcolumn : Column docId (terms.map (contentsOf documents)) column) :
    document.Shows terms ↔ List.Forall₂ Hit.Paired (Phrase.table (column.map (·.positions))).rows
      (column.map (·.offsets)) := by
  have heq {rows : List (String × List Span × List UInt32)} (hrows : document.RowsFor terms rows) :
      column.map (·.positions) = rows.map (·.2.2) ∧ column.map (·.offsets) = rows.map (·.2.1) := by
    rw [hrows.column_eq hlength hregular hdocument hcolumn, List.map_map, List.map_map]
    exact ⟨rfl, rfl⟩
  constructor
  · intro hshows
    obtain ⟨rows, hrows⟩ := exists_rows_of_column hlength hdocument hcolumn
    rw [(heq hrows).1, (heq hrows).2]
    exact hshows rows hrows
  · intro hpaired rows hrows
    rw [(heq hrows).1, (heq hrows).2] at hpaired
    exact hpaired

/-- A document with an offset pair for each position can be shown, whatever the phrase. -/
theorem Document.shows_of_paired (h : ∀ row ∈ document.rows, row.2.2.length ≤ row.2.1.length) :
    document.Shows terms := by
  intro rows hrows
  have hpairs : ∀ row ∈ rows, row.2.2.length ≤ row.2.1.length := by
    intro row hm
    obtain ⟨-, -, hrow, -⟩ := exists_beside hrows hm
    exact h row hrow
  have htable := Phrase.table_rows (rows.map (·.2.2))
  rw [List.forall₂_map_right_iff] at htable ⊢
  have hboth := ((List.forall₂_and_left _ _).2 ⟨hpairs, htable.flip⟩).flip
  apply hboth.imp
  intro found row hrow occurrence hm
  exact Nat.lt_of_lt_of_le (Hit.index_lt_of_mem_occurrences (hrow.2 occurrence hm)) hrow.1

theorem exists_document_of_column (hlength : documents.length < UInt32.size) (hterms : terms ≠ [])
    (hcolumn : Column docId (terms.map (contentsOf documents)) column) :
    ∃ document, documents[docId.toNat]? = some document := by
  obtain ⟨term, rest, rfl⟩ := List.exists_cons_of_ne_nil hterms
  obtain ⟨posting, hm, hdocId⟩ := hcolumn.exists_mem (List.mem_map_of_mem (List.mem_cons_self ..))
  obtain ⟨document, hdocument, -⟩ := mem_contentsOf hlength hm
  exact ⟨document, hdocId ▸ hdocument⟩

end

namespace Engine

variable {engine start : Engine} {documents : List Document} {query : Query}

/-- The answers to a query that shows nothing, and when there are any to one that does. -/
theorem Records.execute_spec (h : engine.Records documents) (hterms : query.terms ≠ []) :
    ∃ answers, engine.execute { query with snippets := false } = .ok answers ∧
      ((∃ shown, engine.execute query = .ok shown ∧
          shown.map (fun answer => (answer.docId, answer.score)) =
            answers.map fun answer => (answer.docId, answer.score)) ∨
        ∃ docId term, engine.execute query = .error (.corruption (.fewerOffsets docId term))) ∧
      ((∃ shown, engine.execute query = .ok shown) ↔
        (query.snippets = true → query.isPhrase = true → 1 < query.terms.length →
          ∀ answer ∈ answers, ∀ document, documents[answer.docId.toNat]? = some document →
            document.Shows query.terms)) := by
  obtain ⟨hits, hexecute, hgains⟩ :=
    exists_hits h.index.presents (fun _ _ => h.exists_length) hterms
  have hquery : engine.execute query = hits.mapM (Hit.answer query.snippets) := hexecute _
  have hfails : Fails Hit.OffsetShortage (engine.execute query) :=
    fails_execute h.index.presents (fun _ _ => h.exists_length) hterms
  have hplain : hits.mapM (Hit.answer false) = .ok (hits.map fun hit => ⟨hit.docId, hit.score, []⟩) := by
    rw [mapM_eq_ok_iff, List.forall₂_map_right_iff, List.forall₂_same]
    exact fun _ _ => rfl
  refine ⟨_, (hexecute false).trans hplain, ?_, ?_⟩
  · cases hresult : engine.execute query with
    | error error =>
        obtain ⟨docId, term, rfl⟩ := hfails error hresult
        exact .inr ⟨docId, term, rfl⟩
    | ok shown =>
        refine .inl ⟨shown, rfl, ?_⟩
        rw [hquery, mapM_eq_ok_iff] at hresult
        rw [List.map_map, ← List.forall₂_eq_eq_eq, List.forall₂_map_left_iff,
          List.forall₂_map_right_iff]
        exact hresult.flip.imp fun _ _ => Hit.of_answer
  · have hlength : documents.length < UInt32.size := h.nextDocId_eq ▸ engine.nextDocId.toNat_lt
    rw [hquery, exists_mapM_iff, List.forall_mem_map]
    have hhit : ∀ hit ∈ hits, (∃ answer, hit.answer query.snippets = .ok answer) ↔
        (query.snippets = true → query.isPhrase = true → 1 < query.terms.length →
          ∀ document, documents[hit.docId.toNat]? = some document →
            document.Shows query.terms) := by
      intro hit hm
      obtain ⟨column, hcolumn, rarities, hgain⟩ := hgains hit hm
      obtain ⟨document, hdocument⟩ := exists_document_of_column hlength hterms hcolumn
      have hregular := h.regular document (List.mem_of_getElem? hdocument)
      rw [Hit.exists_answer_iff, Hit.exists_highlights_iff hgain, Retrieval.phraseActive_iff,
        ← shows_iff_of_column hlength hregular hdocument hcolumn, ← hcolumn.length_eq,
        List.length_map]
      simp [hdocument]
    constructor
    · intro hall hsnippets hphrase hcount hit hm
      exact (hhit hit hm).1 (hall hit hm) hsnippets hphrase hcount
    · intro hall hit hm
      exact (hhit hit hm).2 fun hsnippets hphrase hcount => hall hsnippets hphrase hcount hit hm

theorem Records.answer_spec (h : engine.Records documents) (query : Query) :
    ∃ answers, engine.answer { query with snippets := false } = .ok answers ∧
      ((∃ shown, engine.answer query = .ok shown ∧
          shown.map (fun answer => (answer.docId, answer.score)) =
            answers.map fun answer => (answer.docId, answer.score)) ∨
        ∃ docId term, engine.answer query = .error (.corruption (.fewerOffsets docId term))) ∧
      ((∃ shown, engine.answer query = .ok shown) ↔
        (query.snippets = true → query.isPhrase = true → 1 < query.terms.length →
          ∀ answer ∈ answers, ∀ document, documents[answer.docId.toNat]? = some document →
            document.Shows (query.normalize engine.config.tokenizer).terms)) := by
  by_cases hempty : query.count = 0 ∨ query.terms = []
  · have hnone : engine.answer query = .ok [] := if_pos hempty
    exact ⟨[], if_pos hempty, .inl ⟨[], hnone, rfl⟩,
      iff_of_true ⟨[], hnone⟩ fun _ _ _ answer hm => by cases hm⟩
  · have hexecute : engine.answer query =
        engine.execute (query.normalize engine.config.tokenizer) := if_neg hempty
    have hplain : engine.answer { query with snippets := false } = engine.execute
        { query.normalize engine.config.tokenizer with snippets := false } := if_neg hempty
    have hterms : (query.normalize engine.config.tokenizer).terms ≠ [] := by
      simpa [Query.normalize] using (not_or.1 hempty).2
    have hspec := h.execute_spec hterms
    rw [← hexecute, ← hplain] at hspec
    simpa only [Query.normalize, List.length_map] using hspec

variable {room : Cache.Room} {config : Config} {calls : List (Call × Response)}

/-- Whatever a new engine was called for, if no list has outgrown the 32-bit offsets, a search that
shows nothing gives an answer. One that is to show a phrase gives the same documents and scores if
all of them can be shown, and else fails for the offset pairs that one of them lacks. -/
theorem search_of_calls (hnew : new room config = .ok start) (hcalls : start.Calls calls engine)
    (hfits : engine.index.Fits) (query : Query) :
    ∃ answers, (engine.search { query with snippets := false }).1 = .ok answers ∧
      ((∃ shown, (engine.search query).1 = .ok shown ∧
          shown.map (fun answer => (answer.docId, answer.score)) =
            answers.map fun answer => (answer.docId, answer.score)) ∨
        ∃ docId term, (engine.search query).1 =
          .error (.corruption (.fewerOffsets docId term))) ∧
      ((∃ shown, (engine.search query).1 = .ok shown) ↔
        (query.snippets = true → query.isPhrase = true → 1 < query.terms.length →
          ∀ answer ∈ answers, ∀ document,
            (accepted config.tokenizer calls)[answer.docId.toNat]? = some document →
              document.Shows (query.normalize config.tokenizer).terms)) ∧
      ((∀ document ∈ accepted config.tokenizer calls, ∀ row ∈ document.rows,
          row.2.2.length ≤ row.2.1.length) →
        ∃ shown, (engine.search query).1 = .ok shown) := by
  obtain ⟨-, -, rfl⟩ := consistent_of_new hnew
  obtain ⟨hrecords, -⟩ := (records_of_new hnew).of_calls hcalls hfits
  rw [List.nil_append] at hrecords
  have hspec := hrecords.answer_spec query
  rw [config_of_calls hcalls] at hspec
  have hsearch (query : Query) : (engine.search query).1 = engine.answer query :=
    (hrecords.cacheSound.search query).1
  rw [hsearch, hsearch]
  obtain ⟨answers, hplain, heither, hshown⟩ := hspec
  refine ⟨answers, hplain, heither, hshown, ?_⟩
  intro hpaired
  rw [hshown]
  intro _ _ _ answer _ document hdocument
  exact Document.shows_of_paired (hpaired document (List.mem_of_getElem? hdocument))

/-- A phrase of a text is shown. -/
theorem search_of_calls_fox :
    new .ample .default = .ok sample ∧
      sample.Calls (sample.respondAll [.request (.add (.text "The quick fox"))]).1
        (sample.respondAll [.request (.add (.text "The quick fox"))]).2 ∧
      (sample.respondAll [.request (.add (.text "The quick fox"))]).2.index.Fits ∧
      ∃ shown, ((sample.respondAll [.request (.add (.text "The quick fox"))]).2.search
        ⟨["QUICK", "fox"], 1, true, true⟩).1 = .ok shown := by
  have hnew : new .ample .default = .ok sample := rfl
  have hcalls := calls_respondAll sample [.request (.add (.text "The quick fox"))]
  have hfits : (sample.respondAll [.request (.add (.text "The quick fox"))]).2.index.Fits :=
    InvertedIndex.fits_of_all (by decide +kernel)
  obtain ⟨_, -, -, -, hpaired⟩ :=
    search_of_calls hnew hcalls hfits ⟨["QUICK", "fox"], 1, true, true⟩
  exact ⟨hnew, hcalls, hfits, hpaired (by decide +kernel)⟩

/-- The second term has a position and no offset pair. -/
def shortCalls : List Call := [.request (.add (.document ⟨["a", "b"], [[⟨0, 0⟩], []], [[0], [1]]⟩))]

/-- The document is accepted and found, and cannot be shown. -/
theorem search_of_calls_short :
    ids (sample.respondAll shortCalls).1 = [0] ∧
      ((sample.respondAll shortCalls).2.search ⟨["a", "b"], 10, true, true⟩).1 =
        .error (.corruption (.fewerOffsets 0 1)) := by
  decide +kernel

end Engine

end Concordance
