import Concordance.Proofs.Overlong

/-!
# Retrieval gives the documents that all lists hold

The documents that a retrieval looks at are the columns of its lists. With room for
all hits it gives each of them once, scored by the postings of its column, and with
readers of just these postings' offset pairs. Positions are read for a phrase only, so that
only then the lists have to be whole.
-/

namespace Concordance

open Sequences Result PopStream PostingList Conjunction

namespace Retrieval
variable {whole : Prop} {retrieval : Retrieval} {rarities : List Float}
  {alignment : List Cursor} {column : List Posting} {docId : UInt32}

/-- The matches of the phrase in the document of a column; none if no phrase is asked for. -/
def tableOf (retrieval : Retrieval) (column : List Posting) : PositionTable :=
  if retrieval.phraseActive column.length then Phrase.table (column.map (·.positions)) else .empty

/-- The document of a column is a hit: where a phrase is asked for, it has a match. -/
def selects (retrieval : Retrieval) (column : List Posting) : Bool :=
  !(retrieval.phraseActive column.length && (retrieval.tableOf column).isEmpty)

/-- The score of a column's document: the shares of the terms, added in their order. -/
def scoreOf (retrieval : Retrieval) (rarities : List Float) (column : List Posting)
    (length : UInt32) : Binary64 :=
  .ofFloat <| (List.zipWith (fun rarity posting =>
    Similarity.share rarity posting.termFreq length retrieval.lengths.average.toFloat)
    rarities column).foldl (· + ·) (-0.0)

/-- The hit is that of a column's document. -/
structure Gains (whole : Prop) (retrieval : Retrieval) (rarities : List Float) (hit : Hit)
    (column : List Posting) : Prop where
  score : ∃ length, retrieval.lengths.length hit.docId = .ok length ∧
    hit.score = retrieval.scoreOf rarities column length
  isPhrase_eq : hit.isPhrase = retrieval.phraseActive column.length
  table_eq : hit.table = retrieval.tableOf column
  offsets : List.Forall₂ (fun reader posting =>
    whole ∨ posting.OffsetsSized → Gives reader posting.offsets) hit.offsets column

/-- The readers of whole lists give the offset pairs. -/
theorem Gains.gives {hit : Hit} (h : retrieval.Gains True rarities hit column) :
    List.Forall₂ (fun reader posting => Gives reader posting.offsets) hit.offsets column :=
  h.offsets.imp fun _ _ hgives => hgives (.inl trivial)

theorem phraseTable_eq (h : List.Forall₂ (Cursor.StandsOn whole) alignment column)
    (hwhole : whole) :
    phraseTable alignment = .ok (Phrase.table (column.map (·.positions))) := by
  obtain ⟨readers, hreaders, hgives⟩ := exists_mapM h fun _ _ hp => hp.positions hwhole
  rw [phraseTable, hreaders, ok_bind]
  apply Phrase.process_eq (List.forall₂_map_right_iff.2 hgives)
  rw [List.forall_mem_map]
  intro posting hm
  obtain ⟨cursor, -, hcursor⟩ := exists_beside h.flip hm
  exact Cursor.StandsOn.length_positions_le hcursor hwhole

theorem score_eq (h : List.Forall₂ (Cursor.StandsOn whole) alignment column) (length : UInt32) :
    retrieval.score rarities alignment length =
      .ok (retrieval.scoreOf rarities column length) := by
  have hfreqs : alignment.mapM Cursor.termFreq = .ok (column.map (·.termFreq)) := by
    rw [mapM_eq_ok_iff, List.forall₂_map_right_iff]
    exact h.imp fun cursor posting hp => hp.termFreq
  rw [score, hfreqs]
  simp only [ok_bind, pure_eq_ok, List.zipWith_map_right]
  rfl

theorem exists_offsets (h : List.Forall₂ (Cursor.StandsOn whole) alignment column) :
    ∃ readers, alignment.mapM Cursor.offsets = .ok readers ∧
      List.Forall₂ (fun reader posting =>
        whole ∨ posting.OffsetsSized → Gives reader posting.offsets) readers column :=
  exists_mapM h fun _ _ hp => hp.offsets

/-- A column that is selected needs the length of its document, and no other does. -/
theorem hit?_eq (retrieval : Retrieval) (rarities : List Float) (docId : UInt32)
    (h : List.Forall₂ (Cursor.StandsOn whole) alignment column)
    (hwhole : retrieval.phraseActive column.length = true → whole) :
    ∃ readers,
      List.Forall₂ (fun reader posting =>
        whole ∨ posting.OffsetsSized → Gives reader posting.offsets) readers column ∧
      retrieval.hit? rarities docId alignment =
        if retrieval.selects column then do
          let length ← retrieval.lengths.length docId
          return some ⟨docId, retrieval.scoreOf rarities column length,
            retrieval.phraseActive column.length, retrieval.tableOf column, readers⟩
        else .ok none := by
  obtain ⟨readers, hreaders, hgives⟩ := exists_offsets h
  refine ⟨readers, hgives, ?_⟩
  have hlength := h.length_eq
  cases hactive : retrieval.phraseActive column.length with
  | true =>
      have htable : retrieval.tableOf column = Phrase.table (column.map (·.positions)) := by
        rw [tableOf, if_pos hactive]
      simp only [hit?, hlength, hactive, if_true, phraseTable_eq h (hwhole hactive),
        liftM_fault_ok, ok_bind, Bool.true_and, selects, score_eq h, hreaders, ← htable]
      cases (retrieval.tableOf column).isEmpty <;> rfl
  | false =>
      have htable : retrieval.tableOf column = .empty := by
        rw [tableOf, if_neg (by simp [hactive])]
      simp only [hit?, hlength, hactive, Bool.false_eq_true, if_false, pure_eq_ok, ok_bind,
        Bool.false_and, selects, score_eq h, hreaders, htable, liftM_fault_ok, Bool.not_false,
        if_true]

/-- The hits of an alignment and others: its own, if it is one, and those of the others. -/
theorem hits_cons (retrieval : Retrieval) (rarities : List Float)
    {alignments : List (List Cursor)} (h : List.Forall₂ (Cursor.StandsOn whole) alignment column)
    (hdocId : ∃ first rest, column = first :: rest ∧ first.docId = docId) :
    retrieval.hits rarities (alignment :: alignments) = do
      let found? ← retrieval.hit? rarities docId alignment
      let others ← retrieval.hits rarities alignments
      return found?.toList ++ others := by
  obtain ⟨first, rest, rfl, hfirst⟩ := hdocId
  cases h with
  | @cons cursor _ cursors _ hcursor _ =>
      have hdoc : cursor.docId = .ok docId := by rw [hcursor.docId, hfirst]
      rw [Retrieval.hits, hdoc]
      simp only [liftM_fault_ok, ok_bind]
      congr 1
      funext found?
      cases found? <;> rfl

/-- Where every selected column has the length of its document, each gives its hit. -/
theorem hits_spec (retrieval : Retrieval) (rarities : List Float)
    {alignments : List (List Cursor)} {found : List (UInt32 × List Posting)}
    (h : Aligned whole alignments found)
    (hdocId : ∀ entry ∈ found, ∃ first rest, entry.2 = first :: rest ∧ first.docId = entry.1)
    (hwhole : ∀ entry ∈ found, retrieval.phraseActive entry.2.length = true → whole)
    (hlengths : ∀ entry ∈ found, retrieval.selects entry.2 = true →
      ∃ length, retrieval.lengths.length entry.1 = .ok length) :
    ∃ hits, retrieval.hits rarities alignments = .ok hits ∧
      List.Forall₂ (fun hit entry => hit.docId = entry.1 ∧
          retrieval.Gains whole rarities hit entry.2)
        hits (found.filter fun entry => retrieval.selects entry.2) := by
  induction h with
  | nil => exact ⟨[], rfl, .nil⟩
  | @cons alignment entry alignments found hstands _ ih =>
      rw [List.forall_mem_cons] at hdocId hwhole hlengths
      obtain ⟨hits, hhits, hspec⟩ := ih hdocId.2 hwhole.2 hlengths.2
      obtain ⟨readers, hgives, hhit⟩ := hit?_eq retrieval rarities entry.1 hstands hwhole.1
      rw [hits_cons retrieval rarities hstands hdocId.1, hhit, hhits, List.filter_cons]
      by_cases hselects : retrieval.selects entry.2 = true
      · obtain ⟨length, hlength⟩ := hlengths.1 hselects
        simp only [if_pos hselects, hlength, ok_bind, pure_eq_ok]
        exact ⟨_, rfl, .cons ⟨rfl, ⟨length, hlength, rfl⟩, rfl, rfl, hgives⟩ hspec⟩
      · simp only [if_neg hselects, ok_bind, pure_eq_ok]
        exact ⟨_, rfl, hspec⟩

theorem nodup_of_meets {lefts : List (List Posting)} {found : List (UInt32 × List Posting)}
    (h : Meets lefts found) (p : UInt32 × List Posting → Bool) :
    ((found.filter p).map (·.1)).Nodup := by
  rw [List.nodup_iff_pairwise_ne, List.pairwise_map]
  exact (h.ordered.filter p).imp fun hlt => UInt32.ne_of_lt hlt

/-- A hit is found for each selected column, in the order of the documents, and the best of them
are the hits. -/
theorem run_beside (retrieval : Retrieval) {cursors : List Cursor} {lefts : List (List Posting)}
    (h : List.Forall₂ (Cursor.Shows whole) cursors lefts) (hne : cursors ≠ [])
    (hwhole : retrieval.phraseActive cursors.length = true → whole)
    (hlengths : ∀ docId column, Column docId lefts column → retrieval.selects column = true →
      ∃ length, retrieval.lengths.length docId = .ok length) :
    ∃ columns found, Meets lefts columns ∧
      retrieval.run cursors = .ok (Hit.best retrieval.count found) ∧
      List.Forall₂ (fun hit entry => hit.docId = entry.1 ∧
        retrieval.Gains whole (retrieval.rarities cursors) hit entry.2)
        found (columns.filter fun entry => retrieval.selects entry.2) := by
  obtain ⟨alignments, columns, halign, hmeets, haligned⟩ := alignments_spec h hne
  have hlefts : lefts ≠ [] := (ne_nil_of_forall₂ h).1 hne
  obtain ⟨found, hfound, hspec⟩ := hits_spec retrieval (retrieval.rarities cursors) haligned
    (fun entry hm => hmeets.exists_cons hm hlefts)
    (fun entry hm => by rwa [hmeets.length_eq hm, ← h.length_eq])
    (fun entry hm => hlengths _ _ ((hmeets.mem_iff ..).1 hm))
  refine ⟨columns, found, hmeets, ?_, hspec⟩
  rw [run]
  split
  · next hzero => rw [hzero, Hit.best, Ranking.best_zero]; rfl
  · simp only [halign, liftM_fault_ok, ok_bind, hfound, pure_eq_ok]

/-- The documents of the selected columns are found, each once, and the best of them are the
hits. -/
theorem found_spec (retrieval : Retrieval) {cursors : List Cursor} {lefts : List (List Posting)}
    (h : List.Forall₂ (Cursor.Shows whole) cursors lefts) (hne : cursors ≠ [])
    (hwhole : retrieval.phraseActive cursors.length = true → whole)
    (hlengths : ∀ docId column, Column docId lefts column → retrieval.selects column = true →
      ∃ length, retrieval.lengths.length docId = .ok length) :
    ∃ found, retrieval.run cursors = .ok (Hit.best retrieval.count found) ∧
      (found.map (·.docId)).Nodup ∧
      (∀ docId column, Column docId lefts column → retrieval.selects column = true →
        ∃ hit ∈ found, hit.docId = docId ∧
          retrieval.Gains whole (retrieval.rarities cursors) hit column) ∧
      ∀ hit ∈ found, ∃ column, Column hit.docId lefts column ∧
        retrieval.selects column = true ∧
        retrieval.Gains whole (retrieval.rarities cursors) hit column := by
  obtain ⟨columns, found, hmeets, hrun, hspec⟩ := run_beside retrieval h hne hwhole hlengths
  have hdocIds : found.map (·.docId) =
      (columns.filter fun entry => retrieval.selects entry.2).map (·.1) := by
    rw [← List.forall₂_eq_eq_eq, List.forall₂_map_left_iff, List.forall₂_map_right_iff]
    exact hspec.imp fun hit entry hh => hh.1
  refine ⟨found, hrun, ?_, ?_, ?_⟩
  · rw [hdocIds]
    exact nodup_of_meets hmeets fun entry => retrieval.selects entry.2
  · intro docId column hcolumn hselects
    have hm : (docId, column) ∈ columns.filter fun entry => retrieval.selects entry.2 :=
      List.mem_filter.2 ⟨(hmeets.mem_iff ..).2 hcolumn, hselects⟩
    exact exists_beside hspec.flip hm
  · intro hit hm
    obtain ⟨entry, hentry, hdocId, hgains⟩ := exists_beside hspec hm
    rw [List.mem_filter] at hentry
    exact ⟨entry.2, hdocId ▸ (hmeets.mem_iff ..).1 hentry.1, hentry.2, hgains⟩

/-- With room for every hit, the hits are the documents of the selected columns, each once. -/
theorem run_spec (retrieval : Retrieval) {cursors : List Cursor} {lefts : List (List Posting)}
    (h : List.Forall₂ (Cursor.Shows whole) cursors lefts) (hne : cursors ≠ [])
    (hwhole : retrieval.phraseActive cursors.length = true → whole)
    (hlengths : ∀ docId column, Column docId lefts column → retrieval.selects column = true →
      ∃ length, retrieval.lengths.length docId = .ok length)
    (hcount : ∀ docIds : List UInt32, docIds.Nodup →
      (∀ docId ∈ docIds, ∃ column, Column docId lefts column ∧ retrieval.selects column = true) →
      docIds.length ≤ retrieval.count) :
    ∃ hits, retrieval.run cursors = .ok hits ∧ (hits.map (·.docId)).Nodup ∧
      (∀ docId column, Column docId lefts column → retrieval.selects column = true →
        docId ∈ hits.map (·.docId)) ∧
      ∀ hit ∈ hits, ∃ column, Column hit.docId lefts column ∧
        retrieval.selects column = true ∧
        retrieval.Gains whole (retrieval.rarities cursors) hit column := by
  obtain ⟨found, hrun, hnodup, hall, hgains⟩ := found_spec retrieval h hne hwhole hlengths
  have hroom : found.length ≤ retrieval.count := by
    rw [← List.length_map (f := fun hit : Hit => hit.docId)]
    apply hcount _ hnodup
    intro docId hm
    obtain ⟨hit, hit_mem, rfl⟩ := List.mem_map.1 hm
    obtain ⟨column, hcolumn, hselects, -⟩ := hgains hit hit_mem
    exact ⟨column, hcolumn, hselects⟩
  have hperm : (Hit.best retrieval.count found).Perm found := Ranking.best_perm _ _ hroom
  refine ⟨Hit.best retrieval.count found, hrun, ?_, ?_, ?_⟩
  · exact (hperm.map _).nodup_iff.2 hnodup
  · intro docId column hcolumn hselects
    obtain ⟨hit, hm, hdocId, -⟩ := hall docId column hcolumn hselects
    exact List.mem_map.2 ⟨hit, hperm.mem_iff.2 hm, hdocId⟩
  · intro hit hm
    exact hgains hit (hperm.mem_iff.1 hm)

/-- The document is found: every list has a posting of it left, the column has one from each,
and if a phrase of several terms is asked for, their positions hold one. -/
structure Finds (retrieval : Retrieval) (starts : List Start) (docId : UInt32)
    (column : List Posting) : Prop where
  ne_nil : starts ≠ []
  lefts : Start.Column docId starts column
  phrase : retrieval.isPhrase = true → 1 < starts.length →
    (Phrase.table (column.map (·.positions))).isEmpty = false

/-- The document is found in some column. -/
def Matches (retrieval : Retrieval) (starts : List Start) (docId : UInt32) : Prop :=
  ∃ column, retrieval.Finds starts docId column

theorem phraseActive_iff {terms : Nat} :
    retrieval.phraseActive terms = true ↔ retrieval.isPhrase = true ∧ 1 < terms := by
  rw [phraseActive, Bool.and_eq_true, decide_eq_true_eq]

theorem sized_of_phraseActive {starts : List Start}
    (hsized : retrieval.isPhrase = true → 1 < starts.length → ∀ start ∈ starts, start.Sized)
    (hactive : retrieval.phraseActive (starts.map (·.cursor)).length = true) :
    ∀ start ∈ starts, start.Sized := by
  rw [List.length_map, phraseActive_iff] at hactive
  exact hsized hactive.1 hactive.2

theorem selects_iff : retrieval.selects column = true ↔
    (retrieval.isPhrase = true → 1 < column.length →
      (Phrase.table (column.map (·.positions))).isEmpty = false) := by
  rw [selects, Bool.not_eq_true', Bool.and_eq_false_iff, tableOf]
  by_cases hactive : retrieval.phraseActive column.length = true
  · have hphrase := phraseActive_iff.1 hactive
    simp [hactive, hphrase]
  · have hnot := mt phraseActive_iff.2 hactive
    simp only [hactive, Bool.false_eq_true, if_false, true_or, true_iff]
    intro hphrase hlt
    exact absurd ⟨hphrase, hlt⟩ hnot

theorem finds_iff {starts : List Start} : retrieval.Finds starts docId column ↔
    starts ≠ [] ∧ Conjunction.Column docId (starts.map Start.left) column ∧
      retrieval.selects column = true := by
  rw [selects_iff, Start.column_left_iff]
  constructor
  · rintro ⟨hne, hcolumn, hphrase⟩
    rw [hcolumn.length_eq] at hphrase
    exact ⟨hne, hcolumn, hphrase⟩
  · rintro ⟨hne, hcolumn, hphrase⟩
    rw [← hcolumn.length_eq] at hphrase
    exact ⟨hne, hcolumn, hphrase⟩

theorem scoreOf_starts (retrieval : Retrieval) (starts : List Start) (column : List Posting)
    (length : UInt32) :
    retrieval.scoreOf (retrieval.rarities (starts.map (·.cursor))) column length =
      .ofFloat ((List.zipWith (fun start posting => Similarity.share
        (Similarity.rarity retrieval.docCount start.postings.length)
        posting.termFreq length retrieval.lengths.average.toFloat) starts column).foldl
          (· + ·) (-0.0)) := by
  simp only [scoreOf, rarities, List.map_map, List.zipWith_map_left, Function.comp_apply,
    Start.size_eq]

/-- The hits of a retrieval with room for all of them are the documents that every list has
left, each once, whatever the cursors moved before: one, two or many, of different lists or
the same. Score, offset pairs and phrase matches are those of the document's postings. The size
of a posting has to be a number of 32 bits where a phrase is asked for, and that of the offset
pairs where these are read. -/
theorem run_eq_intersection (retrieval : Retrieval) (starts : List Start) (hne : starts ≠ [])
    (hsized : retrieval.isPhrase = true → 1 < starts.length → ∀ start ∈ starts, start.Sized)
    (hlengths : ∀ docId, retrieval.Matches starts docId →
      ∃ length, retrieval.lengths.length docId = .ok length)
    (hcount : ∀ docIds : List UInt32, docIds.Nodup →
      (∀ docId ∈ docIds, retrieval.Matches starts docId) → docIds.length ≤ retrieval.count) :
    ∃ hits, retrieval.run (starts.map (·.cursor)) = .ok hits ∧
      (hits.map (·.docId)).Nodup ∧
      (∀ docId, docId ∈ hits.map (·.docId) ↔ retrieval.Matches starts docId) ∧
      ∀ hit ∈ hits, ∃ column length, retrieval.Finds starts hit.docId column ∧
        retrieval.lengths.length hit.docId = .ok length ∧
        hit.score = .ofFloat ((List.zipWith (fun start posting => Similarity.share
          (Similarity.rarity retrieval.docCount start.postings.length)
          posting.termFreq length retrieval.lengths.average.toFloat) starts column).foldl
            (· + ·) (-0.0)) ∧
        List.Forall₂ (fun reader posting => posting.OffsetsSized →
          PopStream.toList reader = .ok posting.offsets) hit.offsets column ∧
        hit.table = if retrieval.isPhrase = true ∧ 1 < starts.length then
          Phrase.table (column.map (·.positions)) else .empty := by
  obtain ⟨hits, hhits, hnodup, hall, hgains⟩ := run_spec retrieval
    (Start.shows_all fun hsized => hsized) (by simpa using hne)
    (sized_of_phraseActive hsized)
    (fun docId column hcolumn hselects =>
      hlengths docId ⟨column, finds_iff.2 ⟨hne, hcolumn, hselects⟩⟩)
    (fun docIds hdocIds hm => hcount docIds hdocIds fun docId hd => by
      obtain ⟨column, hcolumn, hselects⟩ := hm docId hd
      exact ⟨column, finds_iff.2 ⟨hne, hcolumn, hselects⟩⟩)
  refine ⟨hits, hhits, hnodup, ?_, ?_⟩
  · intro docId
    constructor
    · intro hm
      obtain ⟨hit, hit_mem, rfl⟩ := List.mem_map.1 hm
      obtain ⟨column, hcolumn, hselects, -⟩ := hgains hit hit_mem
      exact ⟨column, finds_iff.2 ⟨hne, hcolumn, hselects⟩⟩
    · rintro ⟨column, hfinds⟩
      obtain ⟨-, hcolumn, hselects⟩ := finds_iff.1 hfinds
      exact hall docId column hcolumn hselects
  · intro hit hm
    obtain ⟨column, hcolumn, hselects, hgain⟩ := hgains hit hm
    obtain ⟨length, hlength, hscore⟩ := hgain.score
    refine ⟨column, length, finds_iff.2 ⟨hne, hcolumn, hselects⟩, hlength,
      hscore.trans (scoreOf_starts ..), ?_, ?_⟩
    · exact hgain.offsets.imp fun _ _ hgives hoffsets => (hgives (.inr hoffsets)).toList
    · simp only [hgain.table_eq, tableOf, phraseActive_iff,
        (Start.column_left_iff.1 hcolumn).length_eq]

/-- The lengths of two documents. -/
def sampleLengths : DocLengths :=
  ⟨(∅ : Std.ExtTreeMap UInt32 UInt32).insert 42 3 |>.insert 70000 4, .ofFloat 3.5, some 70000⟩

/-- Both documents are wanted, for a phrase. -/
def sampleRetrieval : Retrieval := ⟨sampleLengths, 5, 2, true⟩

/-- The postings of the two documents. -/
def sampleColumns : List (UInt32 × List Posting) :=
  [(42, [⟨42, 1, [⟨2, 5⟩], [1]⟩, ⟨42, 1, [], [2]⟩]),
    (70000, [⟨70000, 1, [⟨6, 6⟩], [2]⟩, ⟨70000, 1, [⟨9, 9⟩], [3]⟩])]

theorem finds_sample_iff {first second : Start}
    (hfirst : first.left = [⟨9, 2, [⟨1, 1⟩, ⟨300, 301⟩], [7, 200]⟩, ⟨10, 1, [], []⟩,
      ⟨42, 1, [⟨2, 5⟩], [1]⟩, ⟨70000, 1, [⟨6, 6⟩], [2]⟩])
    (hsecond : second.left = Start.followers) :
    sampleRetrieval.Finds [first, second] docId column ↔ (docId, column) ∈ sampleColumns := by
  constructor
  · intro hfinds
    have hlefts := hfinds.lefts
    simp only [Start.Column, List.forall₂_cons_left_iff, List.forall₂_nil_left_iff] at hlefts
    obtain ⟨p, _, ⟨hp, hdocId⟩, ⟨q, _, ⟨hq, hdocId'⟩, rfl, rfl⟩, rfl⟩ := hlefts
    have hpairs : ∀ p ∈ first.left, ∀ q ∈ second.left, p.docId = q.docId →
        (p.docId, [p, q]) ∈ sampleColumns := by
      rw [hfirst, hsecond]
      decide
    exact hdocId ▸ hpairs p hp q hq (hdocId.trans hdocId'.symm)
  · intro hm
    simp only [sampleColumns, List.mem_cons, List.not_mem_nil, or_false, Prod.mk.injEq] at hm
    rcases hm with ⟨rfl, rfl⟩ | ⟨rfl, rfl⟩
    all_goals
      refine ⟨List.cons_ne_nil _ _, ?_, fun _ _ => by decide +kernel⟩
      rw [Start.Column, List.forall₂_cons, List.forall₂_cons, hfirst, hsecond]
      simp [Start.followers]

/-- Two documents are hits for a phrase, and the first of them has the score, the offset pairs
and the matches of its postings. -/
theorem run_eq_intersection_two_cursors :
    ∃ first second : Start, first.offered = sampleOffers ∧ second.offered = Start.followers ∧
      (∀ start ∈ [first, second], start.Sized) ∧
      (∀ docId, sampleRetrieval.Matches [first, second] docId →
        ∃ length, sampleRetrieval.lengths.length docId = .ok length) ∧
      (∀ docIds : List UInt32, docIds.Nodup →
        (∀ docId ∈ docIds, sampleRetrieval.Matches [first, second] docId) →
          docIds.length ≤ sampleRetrieval.count) ∧
      ∃ hits, sampleRetrieval.run [first.cursor, second.cursor] = .ok hits ∧
        (∀ docId, docId ∈ hits.map (·.docId) ↔ docId = 42 ∨ docId = 70000) ∧
        ∃ hit ∈ hits, hit.docId = 42 ∧
          hit.score = .ofFloat (-0.0
            + Similarity.share (Similarity.rarity 5 5) 1 3 sampleLengths.average.toFloat
            + Similarity.share (Similarity.rarity 5 2) 1 3 sampleLengths.average.toFloat) ∧
          hit.offsets.mapM PopStream.toList = .ok [[⟨2, 5⟩], []] ∧
          hit.table = ⟨[[⟨1, 0⟩], [⟨2, 0⟩]]⟩ := by
  obtain ⟨first, second, hoffered, hoffered', hsized, hsize, hsize', hleft, hleft'⟩ :=
    Start.exists_sample
  have hfinds (docId : UInt32) (column : List Posting) :
      sampleRetrieval.Finds [first, second] docId column ↔ (docId, column) ∈ sampleColumns :=
    finds_sample_iff hleft hleft'
  have hmatches (docId : UInt32) :
      sampleRetrieval.Matches [first, second] docId ↔ docId = 42 ∨ docId = 70000 := by
    simp [Matches, hfinds, sampleColumns, exists_or]
  have hlength : sampleLengths.length 42 = .ok 3 := by
    simp [DocLengths.length, sampleLengths, Std.ExtTreeMap.getElem_insert]
  have hlengths (docId : UInt32) (h : sampleRetrieval.Matches [first, second] docId) :
      ∃ length, sampleRetrieval.lengths.length docId = .ok length := by
    rcases (hmatches docId).1 h with rfl | rfl
    · exact ⟨3, hlength⟩
    · exact ⟨4, by simp [DocLengths.length, sampleRetrieval, sampleLengths]⟩
  have hcount (docIds : List UInt32) (hnodup : docIds.Nodup)
      (h : ∀ docId ∈ docIds, sampleRetrieval.Matches [first, second] docId) :
      docIds.length ≤ sampleRetrieval.count := by
    have hsubset : docIds ⊆ [42, 70000] := fun docId hm => by
      simpa using (hmatches docId).1 (h docId hm)
    exact (List.subperm_of_subset hnodup hsubset).length_le
  obtain ⟨hits, hrun, -, hdocIds, hhits⟩ := run_eq_intersection sampleRetrieval [first, second]
    (List.cons_ne_nil _ _) (fun _ _ => hsized) hlengths hcount
  refine ⟨first, second, hoffered, hoffered', hsized, hlengths, hcount, hits, hrun, ?_, ?_⟩
  · intro docId
    rw [hdocIds, hmatches]
  · obtain ⟨hit, hm, hdocId⟩ := List.mem_map.1 ((hdocIds 42).2 ((hmatches 42).2 (.inl rfl)))
    obtain ⟨column, length, hcolumn, hlength', hscore, hoffsets, htable⟩ := hhits hit hm
    rw [hdocId] at hcolumn hlength'
    have hcolumn : column = [⟨42, 1, [⟨2, 5⟩], [1]⟩, ⟨42, 1, [], [2]⟩] := by
      simpa [sampleColumns] using (hfinds _ _).1 hcolumn
    have hthree : 3 = length := Except.ok.inj (hlength.symm.trans hlength')
    subst hcolumn hthree
    refine ⟨hit, hm, hdocId, ?_, ?_, ?_⟩
    · simpa [sampleRetrieval, hsize, hsize'] using hscore
    · obtain ⟨reader, _, hreader, hothers, hreaders⟩ := List.forall₂_cons_right_iff.1 hoffsets
      obtain ⟨other, _, hother, hnil, rfl⟩ := List.forall₂_cons_right_iff.1 hothers
      cases hnil
      have hpair : Posting.encodeOffsets 0 [⟨2, 5⟩] = .ok #[2, 3] := by decide +kernel
      have hnone : Posting.encodeOffsets 0 [] = .ok #[] := rfl
      rw [hreaders, mapM_eq_ok_iff]
      exact .cons (hreader (Posting.offsetsSized_of_encodeOffsets hpair (by decide)))
        (.cons (hother (Posting.offsetsSized_of_encodeOffsets hnone (by decide))) .nil)
    · rw [htable, if_pos ⟨rfl, Nat.one_lt_two⟩]
      decide +kernel

/-- The phrase stands in the document of a repeated posting and of the one that follows it. -/
theorem finds_repeated_iff {first second : Start} {count : Nat} (hcount : 0 < count)
    (hfirst : first.Alone (.repeated count)) (hsecond : second.Alone following) :
    retrieval.Finds [first, second] docId column ↔
      docId = 0 ∧ column = [.repeated count, following] := by
  have hlefts : Start.Column docId [first, second] column ↔
      docId = 0 ∧ column = [.repeated count, following] := by
    simp only [Start.Column, List.forall₂_cons_left_iff, List.forall₂_nil_left_iff, hfirst.left,
      hsecond.left, List.mem_singleton]
    constructor
    · rintro ⟨_, _, ⟨rfl, rfl⟩, ⟨_, _, ⟨rfl, -⟩, rfl, rfl⟩, rfl⟩
      exact ⟨rfl, rfl⟩
    · rintro ⟨rfl, rfl⟩
      exact ⟨_, _, ⟨rfl, rfl⟩, ⟨_, _, ⟨rfl, rfl⟩, rfl, rfl⟩, rfl⟩
  constructor
  · exact fun hfinds => hlefts.1 hfinds.lefts
  · intro hcolumn
    refine ⟨List.cons_ne_nil _ _, hlefts.2 hcolumn, fun _ _ => ?_⟩
    rw [hcolumn.2]
    refine (Phrase.table_isEmpty_iff (List.cons_ne_nil _ _) ?_).2 ⟨128, ?_⟩
    · intro stream hm
      rcases List.mem_pair.1 hm with rfl | rfl
      · exact List.pairwise_replicate.2 (.inr (UInt32.le_refl _))
      · exact List.pairwise_singleton ..
    · rintro (_ | _ | i) stream hstream
      · cases hstream
        exact ⟨128, List.mem_replicate.2 ⟨Nat.ne_of_gt hcount, rfl⟩, rfl⟩
      · cases hstream
        exact ⟨129, List.mem_singleton_self _, rfl⟩
      · cases hstream

theorem matches_repeated_iff {first second : Start} {count : Nat} (hcount : 0 < count)
    (hfirst : first.Alone (.repeated count)) (hsecond : second.Alone following) :
    retrieval.Matches [first, second] docId ↔ docId = 0 := by
  simp only [Matches, finds_repeated_iff hcount hfirst hsecond, exists_and_left, exists_eq,
    and_true]

/-- The only document has a length, and only it is wanted. -/
def singleRetrieval (isPhrase : Bool) : Retrieval :=
  ⟨⟨(∅ : Std.ExtTreeMap UInt32 UInt32).insert 0 1, .ofFloat 1.0, some 0⟩, 1, 1, isPhrase⟩

theorem singleRetrieval_length (isPhrase : Bool) :
    (singleRetrieval isPhrase).lengths.length 0 = .ok 1 := by
  simp [singleRetrieval, DocLengths.length]

/-- Postings whose size takes more than 32 bits have to be left out for a phrase, and offset pairs
whose size does if these are read. The only document matches the phrase, has a length and has
room, but the run ends with a fault. The hit of a posting with offset pairs reads none. -/
theorem run_eq_intersection_oversize :
    (∃ first second : Start, first.Alone (.repeated UInt32.size) ∧ second.Alone following ∧
      (∀ docId, (singleRetrieval true).Matches [first, second] docId ↔ docId = 0) ∧
      (singleRetrieval true).lengths.length 0 = .ok 1 ∧ (singleRetrieval true).count = 1 ∧
      (singleRetrieval true).run [first.cursor, second.cursor] =
        .error (.fault .outOfBounds)) ∧
    ∃ start : Start, start.Alone (.hollow 2147483648) ∧
      (Posting.hollow 2147483648).offsets ≠ [] ∧
      ∃ hit reader, (singleRetrieval false).run [start.cursor] = .ok [hit] ∧ hit.docId = 0 ∧
        hit.offsets = [reader] ∧ PopStream.toList reader = .ok [] := by
  constructor
  · obtain ⟨first, second, hfirst, hsecond, hrun⟩ := exists_run_repeated
    exact ⟨first, second, hfirst, hsecond,
      fun _ => matches_repeated_iff (by decide) hfirst hsecond, singleRetrieval_length true,
      rfl, hrun (singleRetrieval true) rfl Nat.one_pos⟩
  · obtain ⟨start, halone, hrun⟩ := exists_run_hollow (by decide : 2 * 2147483648 = UInt32.size)
    exact ⟨start, halone, Posting.offsets_hollow_ne_nil (by decide),
      hrun (singleRetrieval false) 1 Nat.one_pos (singleRetrieval_length false)⟩

end Retrieval

end Concordance
