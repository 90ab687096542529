import Concordance.Proofs.Hit

/-!
# Offset pairs by occurrence

The rows of a phrase's table name occurrences by their numbers, and the readers of a hit give the
offset pairs of each term one after the other. Where the numbers of a row go up, the row is
answered with just the pairs it names, as often as it names them. The first row that has no reader,
or names an occurrence beyond the pairs of its reader, ends the answer with its error.
-/

namespace Concordance.Hit

open Sequences Result PopStream

variable {reader : OffsetReader} {readers : List OffsetReader} {pairs : List Span}
  {offsets : List (List Span)} {row : List Occurrence} {rows : List (List Occurrence)}

/-- A row of which an occurrence has no pair is short of it. -/
theorem selectPairs_eq_shortage (shortage : SearchError) (h : Gives reader pairs)
    (hrow : ¬ Paired row pairs) (last : Span) :
    selectPairs shortage 0 last reader row = .error shortage := by
  have hall : Gives reader (pairs.drop 0) := h
  cases hresult : selectPairs shortage 0 last reader row with
  | error error => rw [fails_selectPairs shortage hall row last error hresult]
  | ok found => exact absurd (paired_of_selectPairs shortage (Nat.zero_le _) hall hresult) hrow

/-- The row has a reader, and each of its occurrences a pair there. -/
def Finds (offsets : List (List Span)) (term : Nat) (row : List Occurrence) : Prop :=
  ∃ pairs, offsets[term]? = some pairs ∧ Paired row pairs

/-- What keeps a row from finding its pairs among these, if there are any. -/
inductive Lacks (docId : UInt32) (term : Nat) (row : List Occurrence) :
    Option (List Span) → SearchError → Prop
  | reader : Lacks docId term row none (.invalidData (.rowWithoutReader term))
  | pair {pairs : List Span} (h : ¬ Paired row pairs) :
      Lacks docId term row (some pairs) (.corruption (.fewerOffsets docId term))

theorem selectRows_cons_of_not_paired (hreader : Gives reader pairs) (hrow : ¬ Paired row pairs)
    (docId : UInt32) (term : Nat) :
    selectRows docId term (row :: rows) (reader :: readers) =
      .error (.corruption (.fewerOffsets docId term)) := by
  rw [selectRows, selectPairs_eq_shortage _ hreader hrow, error_bind]

theorem finds_cons_zero_iff : Finds (pairs :: offsets) 0 row ↔ Paired row pairs := by
  simp [Finds]

/-- All rows are answered exactly if each of them finds its pairs, and then with these. -/
theorem selectRows_eq_ok_iff (hreaders : List.Forall₂ Gives readers offsets)
    (hrising : ∀ row ∈ rows, Rising row) (docId : UInt32) (term : Nat) {found : List (List Span)} :
    selectRows docId term rows readers = .ok found ↔
      (∀ i row, rows[i]? = some row → Finds offsets i row) ∧
        found = List.zipWith pick rows offsets := by
  induction rows generalizing readers offsets term found with
  | nil => simp [selectRows, eq_comm]
  | cons row rows ih =>
      rw [List.forall_mem_cons] at hrising
      rw [forall_getElem?_cons_iff]
      cases hreaders with
      | nil => simp [selectRows, Finds]
      | @cons reader pairs readers offsets hreader hrest =>
          rw [finds_cons_zero_iff]
          by_cases hrow : Paired row pairs
          · rw [selectRows_cons_of_paired hreader hrow hrising.1, map_eq_ok_iff]
            simp only [ih hrest hrising.2, hrow, true_and, List.zipWith_cons_cons, and_assoc,
              exists_and_left, exists_eq_left, eq_comm (a := found)]
            rfl
          · rw [selectRows_cons_of_not_paired hreader hrow]
            simp [hrow]

theorem lacks_none_iff {docId : UInt32} {term : Nat} {error : SearchError} :
    Lacks docId term row none error ↔ error = .invalidData (.rowWithoutReader term) :=
  ⟨fun h => by cases h; rfl, fun h => h ▸ .reader⟩

theorem lacks_some_iff {docId : UInt32} {term : Nat} {error : SearchError} :
    Lacks docId term row (some pairs) error ↔
      ¬ Paired row pairs ∧ error = .corruption (.fewerOffsets docId term) :=
  ⟨fun h => by cases h with | pair h => exact ⟨h, rfl⟩, fun h => h.2 ▸ .pair h.1⟩

/-- The first row that does not find its pairs is what keeps the rows from being answered. -/
theorem selectRows_eq_error_iff (hreaders : List.Forall₂ Gives readers offsets)
    (hrising : ∀ row ∈ rows, Rising row) (docId : UInt32) (term : Nat) {error : SearchError} :
    selectRows docId term rows readers = .error error ↔
      ∃ i row, rows[i]? = some row ∧ Lacks docId (term + i) row offsets[i]? error ∧
        ∀ j earlier, rows[j]? = some earlier → j < i → Finds offsets j earlier := by
  induction rows generalizing readers offsets term with
  | nil => simp [selectRows]
  | cons row rows ih =>
      rw [List.forall_mem_cons] at hrising
      simp only [exists_getElem?_cons_iff, forall_getElem?_cons_iff, Nat.lt_irrefl, Nat.not_lt_zero,
        Nat.zero_lt_succ, Nat.succ_lt_succ_iff, false_imp_iff, true_imp_iff, implies_true, and_true,
        Nat.add_zero]
      cases hreaders with
      | nil => simp [selectRows, Finds, lacks_none_iff, eq_comm]
      | @cons reader pairs readers offsets hreader hrest =>
          simp only [finds_cons_zero_iff, List.getElem?_cons_zero, lacks_some_iff]
          by_cases hrow : Paired row pairs
          · rw [selectRows_cons_of_paired hreader hrow hrising.1, map_eq_error_iff,
              ih hrest hrising.2]
            simp only [hrow, not_true, false_and, false_or, true_and, Nat.add_right_comm _ 1,
              Nat.add_assoc, List.getElem?_cons_succ]
            rfl
          · rw [selectRows_cons_of_not_paired hreader hrow]
            simp [hrow, eq_comm]

theorem forall_finds_iff :
    (∀ i row, rows[i]? = some row → Finds offsets i row) ↔
      rows.length ≤ offsets.length ∧
        ∀ (i : Nat) (row : List Occurrence) (pairs : List Span),
          rows[i]? = some row → offsets[i]? = some pairs → Paired row pairs := by
  constructor
  · intro h
    constructor
    · by_contra hlength
      obtain ⟨pairs, hpairs, -⟩ := h _ _ (List.getElem?_eq_getElem (Nat.not_le.1 hlength))
      exact absurd (List.getElem?_eq_some_iff.1 hpairs).1 (Nat.lt_irrefl _)
    · intro i row pairs hrow hpairs
      obtain ⟨found, hfound, hpaired⟩ := h i row hrow
      rw [hpairs, Option.some.injEq] at hfound
      exact hfound ▸ hpaired
  · rintro ⟨hlength, h⟩ i row hrow
    have hi : i < offsets.length :=
      Nat.lt_of_lt_of_le (List.getElem?_eq_some_iff.1 hrow).1 hlength
    have hpairs := List.getElem?_eq_getElem hi
    exact ⟨_, hpairs, h i row _ hrow hpairs⟩

/-- A phrase is shown by the pairs of its occurrences, row by row and in order, if each row has a
reader that gives all of them. Otherwise the first row that lacks its reader or a pair says so. -/
theorem highlights_exact {hit : Hit} (hphrase : hit.isPhrase = true)
    (hreaders : List.Forall₂ Gives hit.offsets offsets)
    (hrising : ∀ row ∈ hit.table.rows, Rising row) :
    ((∃ found, hit.highlights = .ok found) ↔
        hit.table.rowCount ≤ offsets.length ∧
          ∀ (i : Nat) (row : List Occurrence) (pairs : List Span),
            hit.table.rows[i]? = some row → offsets[i]? = some pairs → Paired row pairs) ∧
      (∀ found, hit.highlights = .ok found →
        found.length = hit.table.rowCount ∧
          ∀ (i : Nat) (row : List Occurrence) (pairs : List Span),
            hit.table.rows[i]? = some row → offsets[i]? = some pairs →
              ∃ picked, found[i]? = some picked ∧
                picked.map some = row.map fun occurrence => pairs[occurrence.index.toNat]?) ∧
      ∀ error, hit.highlights = .error error ↔
        ∃ i row, hit.table.rows[i]? = some row ∧ Lacks hit.docId i row offsets[i]? error ∧
          ∀ j earlier, hit.table.rows[j]? = some earlier → j < i → Finds offsets j earlier := by
  have hrows : hit.highlights = selectRows hit.docId 0 hit.table.rows hit.offsets := by
    rw [highlights, if_pos hphrase]
  rw [hrows, PositionTable.rowCount, ← forall_finds_iff]
  refine ⟨?succeeds, ?answer, ?fails⟩
  case succeeds =>
      simp only [selectRows_eq_ok_iff hreaders hrising, exists_and_left, exists_eq, and_true]
  case answer =>
      intro found hfound
      obtain ⟨hfinds, rfl⟩ := (selectRows_eq_ok_iff hreaders hrising hit.docId 0).1 hfound
      obtain ⟨hlength, hpaired⟩ := forall_finds_iff.1 hfinds
      refine ⟨by rw [List.length_zipWith, Nat.min_eq_left hlength], ?_⟩
      intro i row pairs hrow hpairs
      refine ⟨pick row pairs, ?_, map_some_pick (hpaired i row pairs hrow hpairs)⟩
      rw [List.getElem?_zipWith, hrow, hpairs]
  case fails =>
      intro error
      rw [selectRows_eq_error_iff hreaders hrising]
      simp only [Nat.zero_add]

/-- Pairs in order can be written, and a reader gives them again. -/
theorem exists_gives_offsets (pairs : List Span) (h : Posting.checkOffsets 0 0 pairs = .ok ()) :
    ∃ reader : OffsetReader, Gives reader pairs := by
  obtain ⟨written, hw⟩ := Posting.exists_encodeOffsets h
  have hat : written.At 0 written := by
    intro i _
    rw [Nat.zero_add]
  exact ⟨_, (OffsetRegion.of_at hw hat (Nat.zero_add _)).gives (Nat.le_refl _)⟩

def samplePhrase (rows : List (List Occurrence)) (readers : List OffsetReader) : Hit :=
  ⟨7, ⟨0⟩, true, ⟨rows⟩, readers⟩

/-- The first row asks for its first pair twice, the second row for a second pair. -/
def sampleRows : List (List Occurrence) := [[⟨3, 0⟩, ⟨3, 0⟩, ⟨8, 1⟩], [⟨4, 0⟩, ⟨9, 1⟩], [⟨5, 0⟩]]

/-- The second row has one pair only, and the third row has no reader. -/
def samplePairs : List (List Span) := [[⟨0, 4⟩, ⟨10, 14⟩], [⟨6, 8⟩]]

/-- The second row is short of a pair, and the first row alone is answered. -/
theorem highlights_exact_rows :
    ∃ readers : List OffsetReader,
      List.Forall₂ Gives readers samplePairs ∧ (∀ row ∈ sampleRows, Rising row) ∧
      (samplePhrase sampleRows readers).highlights = .error (.corruption (.fewerOffsets 7 1)) ∧
      ∃ found, (samplePhrase (sampleRows.take 1) readers).highlights = .ok found ∧
        ∃ picked, found[0]? = some picked ∧
          picked.map some = [some ⟨0, 4⟩, some ⟨0, 4⟩, some ⟨10, 14⟩] := by
  obtain ⟨first, hfirst⟩ := exists_gives_offsets [⟨0, 4⟩, ⟨10, 14⟩] rfl
  obtain ⟨second, hsecond⟩ := exists_gives_offsets [⟨6, 8⟩] rfl
  have hreaders (rows : List (List Occurrence)) :
      List.Forall₂ Gives (samplePhrase rows [first, second]).offsets samplePairs :=
    .cons hfirst (.cons hsecond .nil)
  have hrising : ∀ row ∈ sampleRows, Rising row := by simp [sampleRows, Rising]
  have hfinds : ∀ i row, (sampleRows.take 1)[i]? = some row → Finds samplePairs i row :=
    forall_getElem?_cons_iff.2 ⟨⟨_, rfl, by simp [Paired]⟩, by simp⟩
  refine ⟨[first, second], hreaders sampleRows, hrising, ?_, ?_⟩
  · obtain ⟨-, -, hfails⟩ := highlights_exact rfl (hreaders sampleRows) hrising
    rw [hfails]
    refine ⟨1, _, rfl, .pair (by simp [Paired]), ?_⟩
    intro j earlier hrow hj
    obtain rfl : j = 0 := by omega
    exact hfinds 0 earlier hrow
  · obtain ⟨hsucceeds, hanswer, -⟩ := highlights_exact rfl (hreaders (sampleRows.take 1))
      fun row hm => hrising row (List.mem_of_mem_take hm)
    obtain ⟨found, hfound⟩ := hsucceeds.2 (forall_finds_iff.1 hfinds)
    exact ⟨found, hfound, (hanswer found hfound).2 0 _ _ rfl rfl⟩

end Concordance.Hit
