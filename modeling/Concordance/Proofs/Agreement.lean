import Concordance.Proofs.Records

/-!
# Indexes with the same postings cannot be told apart

How a list is cut into spans shows neither in the document that is refused nor in the answer
that is found. Two retrievals from the same postings find hits that differ in their readers
alone, and readers that give the same offset pairs highlight the same bytes, or fail alike.
-/

namespace Concordance

open Sequences Result PopStream Conjunction

/-- Both streams give the same values. -/
def PopStream.Agree {σ α : Type} [PopStream σ α] (first second : σ) : Prop :=
  ∃ values : List α, Gives first values ∧ Gives second values

namespace Hit

/-- The hits differ at most in how their readers are to come by their offset pairs. -/
structure Same (first second : Hit) : Prop where
  docId_eq : first.docId = second.docId
  score_eq : first.score = second.score
  isPhrase_eq : first.isPhrase = second.isPhrase
  table_eq : first.table = second.table
  offsets : List.Forall₂ Agree first.offsets second.offsets

theorem readPairs_agree (shortage : SearchError) {first second : OffsetReader}
    (h : Agree first second) (count : Nat) (last : Span) :
    (∃ pair rest rest', readPairs shortage count last first = .ok (pair, rest) ∧
        readPairs shortage count last second = .ok (pair, rest') ∧ Agree rest rest') ∨
      readPairs shortage count last first = .error shortage ∧
        readPairs shortage count last second = .error shortage := by
  induction count generalizing first second last with
  | zero => exact .inl ⟨last, first, second, rfl, rfl, h⟩
  | succ count ih =>
      obtain ⟨pairs, hfirst, hsecond⟩ := h
      have hend := hfirst.atEnd_eq
      have hend' := hsecond.atEnd_eq
      cases pairs with
      | nil => exact .inr ⟨by rw [readPairs, hend]; rfl, by rw [readPairs, hend']; rfl⟩
      | cons pair pairs =>
          obtain ⟨rest, hpop, hrest⟩ := hfirst
          obtain ⟨rest', hpop', hrest'⟩ := hsecond
          simp only [readPairs, hend, hend', hpop, hpop', List.isEmpty_cons, Bool.false_eq_true,
            if_false]
          exact ih ⟨pairs, hrest, hrest'⟩ pair

theorem selectPairs_eq (shortage : SearchError) {first second : OffsetReader}
    (h : Agree first second) (done : Nat) (last : Span) (row : List Occurrence) :
    selectPairs shortage done last first row = selectPairs shortage done last second row := by
  induction row generalizing done last first second with
  | nil => rfl
  | cons occurrence row ih =>
      rw [selectPairs, selectPairs]
      rcases readPairs_agree shortage h (occurrence.index.toNat + 1 - done) last with
        ⟨pair, rest, rest', hread, hread', hagree⟩ | ⟨hread, hread'⟩
      · simp only [hread, hread', ok_bind, ih hagree]
      · rw [hread, hread']

theorem selectRows_eq {firsts seconds : List OffsetReader} (h : List.Forall₂ Agree firsts seconds)
    (docId : UInt32) (term : Nat) (rows : List (List Occurrence)) :
    selectRows docId term rows firsts = selectRows docId term rows seconds := by
  induction h generalizing term rows with
  | nil => rfl
  | cons hfirst _ ih =>
      cases rows with
      | nil => rfl
      | cons row rows => rw [selectRows, selectRows, selectPairs_eq _ hfirst, ih]

namespace Same
variable {first second : Hit}

theorem highlights_eq (h : Same first second) : first.highlights = second.highlights := by
  rw [highlights, highlights, h.isPhrase_eq, h.docId_eq, h.table_eq]
  split
  · exact selectRows_eq h.offsets ..
  · apply mapM_eq_mapM
    apply h.offsets.imp
    rintro reader other ⟨pairs, hgives, hgives'⟩
    rw [hgives.toList, hgives'.toList]

theorem answer_eq (h : Same first second) (snippets : Bool) :
    first.answer snippets = second.answer snippets := by
  rw [Hit.answer, Hit.answer, h.highlights_eq, h.docId_eq, h.score_eq]

/-- Hits of the same column. -/
theorem of_gains {retrieval : Retrieval} {rarities : List Float} {column : List Posting}
    (hdocId : first.docId = second.docId) (h : retrieval.Gains True rarities first column)
    (h' : retrieval.Gains True rarities second column) : Same first second where
  docId_eq := hdocId
  score_eq := by
    obtain ⟨length, hlength, hscore⟩ := h.score
    obtain ⟨length', hlength', hscore'⟩ := h'.score
    rw [hdocId, hlength', Except.ok.injEq] at hlength
    rw [hscore, hscore', hlength]
  isPhrase_eq := h.isPhrase_eq.trans h'.isPhrase_eq.symm
  table_eq := h.table_eq.trans h'.table_eq.symm
  offsets := forall₂_beside h.gives h'.gives fun _ _ posting hgives hgives' =>
    ⟨posting.offsets, hgives, hgives'⟩

end Same

theorem best_same {hits others : List Hit} (h : List.Forall₂ Same hits others) (count : Nat) :
    List.Forall₂ Same (best count hits) (best count others) := by
  apply Ranking.best_forall₂ _ _ h
  · intro first second other other' hsame hsame'
    rw [ahead, ahead, hsame.score_eq, hsame'.score_eq]
  · intro first second other other' hsame hsame'
    rw [beats, beats, hsame.score_eq, hsame'.score_eq]

end Hit

namespace Retrieval
variable {cursors others : List Cursor} {lefts : List (List Posting)}

/-- The weight of a term tells of the number of its postings alone. -/
theorem rarities_eq (retrieval : Retrieval) (h : List.Forall₂ Cursor.Opens cursors lefts) :
    retrieval.rarities cursors =
      lefts.map fun left => Similarity.rarity retrieval.docCount left.length := by
  rw [rarities, ← List.forall₂_eq_eq_eq, List.forall₂_map_left_iff, List.forall₂_map_right_iff]
  exact h.imp fun _ _ hopens => by rw [hopens.size_eq]

/-- Cursors on the first of the same postings have the same hits. -/
theorem run_same (retrieval : Retrieval) (h : List.Forall₂ Cursor.Opens cursors lefts)
    (h' : List.Forall₂ Cursor.Opens others lefts) (hne : lefts ≠ [])
    (hlengths : ∀ docId column, Column docId lefts column →
      ∃ length, retrieval.lengths.length docId = .ok length) :
    ∃ hits hits', retrieval.run cursors = .ok hits ∧ retrieval.run others = .ok hits' ∧
      List.Forall₂ Hit.Same hits hits' := by
  obtain ⟨columns, found, hmeets, hrun, hgains⟩ :=
    run_beside retrieval (h.imp fun _ _ => Cursor.Opens.shows) ((ne_nil_of_forall₂ h).2 hne)
      (fun _ => trivial)
      fun docId column hcolumn _ => hlengths docId column hcolumn
  obtain ⟨columns', found', hmeets', hrun', hgains'⟩ :=
    run_beside retrieval (h'.imp fun _ _ => Cursor.Opens.shows) ((ne_nil_of_forall₂ h').2 hne)
      (fun _ => trivial)
      fun docId column hcolumn _ => hlengths docId column hcolumn
  -- The columns and the weights are the same, so that the hits stand beside each other.
  rw [hmeets'.unique hmeets, retrieval.rarities_eq h', ← retrieval.rarities_eq h] at hgains'
  refine ⟨_, _, hrun, hrun', Hit.best_same (forall₂_beside hgains hgains' ?_) _⟩
  rintro hit hit' entry ⟨hdocId, hgain⟩ ⟨hdocId', hgain'⟩
  exact .of_gains (hdocId.trans hdocId'.symm) hgain hgain'

end Retrieval

namespace InvertedIndex
variable {first second : InvertedIndex} {contents : String → List Posting}

theorem checkOrder_eq (h : first.Holds contents) (h' : second.Holds contents) (docId : UInt32)
    (term : String) : first.checkOrder docId term = second.checkOrder docId term := by
  rw [checkOrder, checkOrder]
  by_cases hnil : contents term = []
  · rw [(h.get?_eq_none_iff term).2 hnil, (h'.get?_eq_none_iff term).2 hnil]
  · obtain ⟨list, hget, -, headers, hlayout⟩ := h.presents.exists_list hnil
    obtain ⟨list', hget', -, headers', hlayout'⟩ := h'.presents.exists_list hnil
    simp only [hget, hget', hlayout.size_eq, hlayout'.size_eq, hlayout.lastDocId_eq hnil,
      hlayout'.lastDocId_eq hnil]

theorem rowPostings_eq (h : first.Holds contents) (h' : second.Holds contents) (docId : UInt32)
    (seen : Std.ExtTreeSet String) (rows : List (String × List Span × List UInt32)) :
    first.rowPostings docId seen rows = second.rowPostings docId seen rows := by
  induction rows generalizing seen with
  | nil => rfl
  | cons row rows ih => rw [rowPostings, rowPostings, checkOrder_eq h h', ih]

/-- A document has the same postings, or is refused for the same reason. -/
theorem postings_eq (h : first.Holds contents) (h' : second.Holds contents) (docId : UInt32)
    (document : Document) : first.postings docId document = second.postings docId document := by
  rw [postings, postings, rowPostings_eq h h']

end InvertedIndex

namespace Engine
variable {first second : Engine} {documents : List Document}

/-- A query of normalized terms has the same answer, or fails alike. -/
theorem execute_eq (h : first.Records documents) (h' : second.Records documents)
    (hlengths : first.lengths = second.lengths) {query : Query} (hterms : query.terms ≠ []) :
    first.execute query = second.execute query := by
  by_cases hall : ∀ term ∈ query.terms, contentsOf documents term ≠ []
  · obtain ⟨cursors, hcursors, hopens⟩ := h.index.presents.exists_opened hall
    obtain ⟨others, hothers, hopens'⟩ := h'.index.presents.exists_opened hall
    have hcount : first.docCount = second.docCount := by rw [docCount, docCount, hlengths]
    obtain ⟨hits, hits', hrun, hrun', hsame⟩ := Retrieval.run_same
      ⟨first.lengths, first.docCount, query.count, query.isPhrase⟩ hopens hopens'
      (by simpa using hterms)
      fun _ _ => exists_length_of_column (fun _ _ => h.exists_length) hterms
    rw [execute_of_run hcursors hrun, execute_of_run hothers (by rwa [← hlengths, ← hcount])]
    exact mapM_eq_mapM (hsame.imp fun _ _ hhit => hhit.answer_eq query.snippets)
  · simp only [not_forall, not_not] at hall
    obtain ⟨term, hterm, hnil⟩ := hall
    rw [execute_eq_nil h.index.presents hterm hnil, execute_eq_nil h'.index.presents hterm hnil]

end Engine

end Concordance
