import Concordance.Proofs.Retrieval

/-!
# Retrieval fails for want of a length only

A retrieval looks at the columns of its lists in the order of their documents. Each
column that is selected needs the length of its document, whether or not its score
will be among the best, and no other does. So the first selected column whose
document has no length ends the run, and nothing else does, unless a phrase is sought
in a posting whose size takes more than 32 bits.
-/

namespace Concordance

open Sequences Result PostingList Conjunction

namespace Retrieval
variable {whole : Prop} {retrieval : Retrieval} {alignment : List Cursor}
  {alignments : List (List Cursor)}
  {entry : UInt32 × List Posting} {found : List (UInt32 × List Posting)}
  {lefts : List (List Posting)} {cursors : List Cursor}

/-- The document of a column is a hit without a length. -/
def lacks (retrieval : Retrieval) (entry : UInt32 × List Posting) : Bool :=
  retrieval.selects entry.2 && (retrieval.lengths.lengths[entry.1]?).isNone

theorem hit?_of_lacks (rarities : List Float)
    (h : List.Forall₂ (Cursor.StandsOn whole) alignment entry.2)
    (hwhole : retrieval.phraseActive entry.2.length = true → whole)
    (hlacks : retrieval.lacks entry = true) :
    retrieval.hit? rarities entry.1 alignment = .error (.unknownDocument entry.1) := by
  rw [lacks, Bool.and_eq_true, Option.isNone_iff_eq_none] at hlacks
  obtain ⟨readers, -, hhit⟩ := hit?_eq retrieval rarities entry.1 h hwhole
  rw [hhit, if_pos hlacks.1, DocLengths.length, hlacks.2]
  rfl

theorem exists_hit?_of_not_lacks (rarities : List Float)
    (h : List.Forall₂ (Cursor.StandsOn whole) alignment entry.2)
    (hwhole : retrieval.phraseActive entry.2.length = true → whole)
    (hlacks : ¬ retrieval.lacks entry = true) :
    ∃ hit?, retrieval.hit? rarities entry.1 alignment = .ok hit? := by
  obtain ⟨readers, -, hhit⟩ := hit?_eq retrieval rarities entry.1 h hwhole
  rw [hhit]
  by_cases hselects : retrieval.selects entry.2 = true
  · rw [if_pos hselects, DocLengths.length]
    cases hlength : retrieval.lengths.lengths[entry.1]? with
    | none => exact absurd (by rw [lacks, hselects, hlength]; rfl) hlacks
    | some length => exact ⟨_, rfl⟩
  · rw [if_neg hselects]
    exact ⟨none, rfl⟩

/-- The hits fail where the first alignment does, and else where the others do. -/
theorem hits_cons_eq_error_iff {rarities : List Float} {error : SearchError}
    (h : List.Forall₂ (Cursor.StandsOn whole) alignment entry.2)
    (hdocId : ∃ first rest, entry.2 = first :: rest ∧ first.docId = entry.1) :
    retrieval.hits rarities (alignment :: alignments) = .error error ↔
      retrieval.hit? rarities entry.1 alignment = .error error ∨
        (∃ hit?, retrieval.hit? rarities entry.1 alignment = .ok hit?) ∧
          retrieval.hits rarities alignments = .error error := by
  rw [hits_cons retrieval rarities h hdocId]
  cases retrieval.hit? rarities entry.1 alignment with
  | error other => simp
  | ok hit? => cases retrieval.hits rarities alignments <;> simp

/-- The first column without a length ends the run, and no other. -/
theorem hits_eq_error_iff (rarities : List Float) (h : Aligned whole alignments found)
    (hwhole : ∀ entry ∈ found, retrieval.phraseActive entry.2.length = true → whole)
    (hdocId : ∀ entry ∈ found, ∃ first rest, entry.2 = first :: rest ∧ first.docId = entry.1)
    (error : SearchError) :
    retrieval.hits rarities alignments = .error error ↔
      ∃ entry, found.find? retrieval.lacks = some entry ∧ error = .unknownDocument entry.1 := by
  induction h with
  | nil => simp [Retrieval.hits]
  | @cons alignment entry alignments found hstands _ ih =>
      rw [List.forall_mem_cons] at hwhole hdocId
      rw [hits_cons_eq_error_iff hstands hdocId.1, ih hwhole.2 hdocId.2]
      by_cases hlacks : retrieval.lacks entry = true
      · rw [hit?_of_lacks rarities hstands hwhole.1 hlacks, List.find?_cons_of_pos hlacks]
        simp [eq_comm]
      · obtain ⟨hit?, hok⟩ := exists_hit?_of_not_lacks rarities hstands hwhole.1 hlacks
        rw [hok, List.find?_cons_of_neg hlacks]
        simp

/-- The first of all columns that lacks its length is that of the least such document. -/
theorem exists_find?_lacks_iff (h : Meets lefts found) (docId : UInt32) :
    (∃ entry, found.find? retrieval.lacks = some entry ∧ entry.1 = docId) ↔
      (∃ column, Column docId lefts column ∧ retrieval.lacks (docId, column) = true) ∧
        ∀ other column, Column other lefts column → retrieval.lacks (other, column) = true →
          docId ≤ other := by
  simp only [find?_eq_some_iff_least h.ordered]
  constructor
  · rintro ⟨⟨_, column⟩, ⟨hm, hlacks, hleast⟩, rfl⟩
    refine ⟨⟨column, (h.mem_iff ..).1 hm, hlacks⟩, ?_⟩
    intro other column' hcolumn hother
    exact hleast (other, column') ((h.mem_iff ..).2 hcolumn) hother
  · rintro ⟨⟨column, hcolumn, hlacks⟩, hleast⟩
    refine ⟨(docId, column), ⟨(h.mem_iff ..).2 hcolumn, hlacks, ?_⟩, rfl⟩
    rintro ⟨other, column'⟩ hm hother
    exact hleast other column' ((h.mem_iff ..).1 hm) hother

/-- A run fails where hits are wanted and a column lacks its length, with the first of them. -/
theorem run_eq_error_iff_find? (retrieval : Retrieval)
    (h : List.Forall₂ (Cursor.Shows whole) cursors lefts) (hne : cursors ≠ [])
    (hwhole : retrieval.phraseActive cursors.length = true → whole) :
    ∃ columns, Meets lefts columns ∧ ∀ error, retrieval.run cursors = .error error ↔
      0 < retrieval.count ∧ ∃ entry, columns.find? retrieval.lacks = some entry ∧
        error = .unknownDocument entry.1 := by
  obtain ⟨alignments, columns, halign, hmeets, haligned⟩ := alignments_spec h hne
  have hlefts : lefts ≠ [] := (ne_nil_of_forall₂ h).1 hne
  refine ⟨columns, hmeets, ?_⟩
  intro error
  rw [← hits_eq_error_iff (retrieval.rarities cursors) haligned
    (fun entry hm => by rwa [hmeets.length_eq hm, ← h.length_eq])
    (fun entry hm => hmeets.exists_cons hm hlefts) error, run]
  split
  · next hzero => simp [hzero]
  · next hpos =>
      simp only [halign, liftM_fault_ok, ok_bind, Nat.pos_of_ne_zero hpos, true_and]
      cases retrieval.hits (retrieval.rarities cursors) alignments <;> simp

/-- The document would be found, but its length is not known. -/
def Lacks (retrieval : Retrieval) (starts : List Start) (docId : UInt32) : Prop :=
  retrieval.Matches starts docId ∧ retrieval.lengths.lengths[docId]? = none

theorem lacks_iff {starts : List Start} (hne : starts ≠ []) {docId : UInt32} :
    retrieval.Lacks starts docId ↔ ∃ column, Column docId (starts.map Start.left) column ∧
      retrieval.lacks (docId, column) = true := by
  simp only [Lacks, Matches, finds_iff, lacks, Bool.and_eq_true, Option.isNone_iff_eq_none]
  constructor
  · rintro ⟨⟨column, -, hcolumn, hselects⟩, hlength⟩
    exact ⟨column, hcolumn, hselects, hlength⟩
  · rintro ⟨column, hcolumn, hselects, hlength⟩
    exact ⟨⟨column, hne, hcolumn, hselects⟩, hlength⟩

/-- A retrieval over one list or more fails just where hits are wanted and one of the documents
that it would find lacks its length: neither how many are wanted nor what any document scores
comes into it. It fails with the least of these documents. The size of a posting has to be a
number of 32 bits where a phrase is asked for. -/
theorem run_eq_error_iff (retrieval : Retrieval) (starts : List Start) (hne : starts ≠ [])
    (hsized : retrieval.isPhrase = true → 1 < starts.length → ∀ start ∈ starts, start.Sized) :
    ((∃ error, retrieval.run (starts.map (·.cursor)) = .error error) ↔
      0 < retrieval.count ∧ ∃ docId, retrieval.Lacks starts docId) ∧
    ∀ error, retrieval.run (starts.map (·.cursor)) = .error error ↔
      0 < retrieval.count ∧ ∃ docId, error = .unknownDocument docId ∧
        retrieval.Lacks starts docId ∧
          ∀ other, retrieval.Lacks starts other → docId ≤ other := by
  obtain ⟨columns, hmeets, hrun⟩ := run_eq_error_iff_find? retrieval
    (Start.shows_all fun hsized => hsized) (by simpa using hne) (sized_of_phraseActive hsized)
  constructor
  · have hfind : (∃ entry, columns.find? retrieval.lacks = some entry) ↔
        ∃ docId, retrieval.Lacks starts docId := by
      rw [← Option.isSome_iff_exists, List.find?_isSome]
      simp only [lacks_iff hne, Prod.exists, hmeets.mem_iff]
    rw [← hfind]
    constructor
    · rintro ⟨error, herror⟩
      obtain ⟨hcount, entry, hentry, -⟩ := (hrun error).1 herror
      exact ⟨hcount, entry, hentry⟩
    · rintro ⟨hcount, entry, hentry⟩
      exact ⟨_, (hrun _).2 ⟨hcount, entry, hentry, rfl⟩⟩
  · intro error
    rw [hrun, and_congr_right_iff]
    intro _
    simp only [lacks_iff hne, forall_exists_index, and_imp]
    constructor
    · rintro ⟨entry, hentry, rfl⟩
      exact ⟨entry.1, rfl, (exists_find?_lacks_iff hmeets _).1 ⟨entry, hentry, rfl⟩⟩
    · rintro ⟨docId, rfl, hleast⟩
      obtain ⟨entry, hentry, rfl⟩ := (exists_find?_lacks_iff hmeets docId).2 hleast
      exact ⟨entry, hentry, rfl⟩

/-- Without any lengths, a phrase that two documents hold fails with the first of them, though
just one hit is wanted. -/
theorem run_eq_error_iff_two_cursors :
    ∃ first second : Start, first.offered = sampleOffers ∧
      second.offered = Start.followers ∧ (∀ start ∈ [first, second], start.Sized) ∧
      run ⟨.empty, 5, 1, true⟩ [first.cursor, second.cursor] = .error (.unknownDocument 42) := by
  obtain ⟨first, second, hoffered, hoffered', hsized, -, -, hleft, hleft'⟩ := Start.exists_sample
  refine ⟨first, second, hoffered, hoffered', hsized, ?_⟩
  apply ((run_eq_error_iff ⟨.empty, 5, 1, true⟩ [first, second] (List.cons_ne_nil _ _)
    fun _ _ => hsized).2 _).2
  refine ⟨Nat.one_pos, 42, rfl, ⟨⟨[⟨42, 1, [⟨2, 5⟩], [1]⟩, ⟨42, 1, [], [2]⟩],
    List.cons_ne_nil _ _, ?_, ?_⟩, ?_⟩, ?_⟩
  · rw [Start.Column, List.forall₂_cons, List.forall₂_cons, hleft, hleft']
    simp
  · intro _ _
    decide +kernel
  · simp [DocLengths.empty]
  · rintro other ⟨⟨column, hfinds⟩, -⟩
    obtain ⟨posting, hm, hdocId⟩ := (Start.column_left_iff.2 hfinds.lefts).exists_mem
      (List.mem_map_of_mem (f := Start.left) (List.mem_cons_of_mem _ (List.mem_singleton_self _)))
    rw [hleft'] at hm
    have hle : ∀ posting ∈ [(⟨42, 1, [], [2]⟩ : Posting), ⟨70000, 1, [⟨9, 9⟩], [3]⟩],
        42 ≤ posting.docId := by decide
    exact hdocId ▸ hle posting hm

/-- Postings whose size takes more than 32 bits have to be left out for a phrase: the first
document that matches has no length, but it is with a fault that the run ends. -/
theorem run_eq_error_iff_oversize :
    ∃ first second : Start, first.Alone (.repeated UInt32.size) ∧ second.Alone following ∧
      Lacks ⟨.empty, 1, 1, true⟩ [first, second] 0 ∧
      (∀ other, Lacks ⟨.empty, 1, 1, true⟩ [first, second] other → 0 ≤ other) ∧
      run ⟨.empty, 1, 1, true⟩ [first.cursor, second.cursor] =
        .error (.fault .outOfBounds) := by
  obtain ⟨first, second, hfirst, hsecond, hrun⟩ := exists_run_repeated
  refine ⟨first, second, hfirst, hsecond, ⟨?_, ?_⟩, fun other _ => UInt32.zero_le ..,
    hrun _ rfl Nat.one_pos⟩
  · exact (matches_repeated_iff (by decide) hfirst hsecond).2 rfl
  · simp [DocLengths.empty]

end Retrieval

end Concordance
