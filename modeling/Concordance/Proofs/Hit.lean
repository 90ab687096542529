import Concordance.Proofs.Phrase
import Concordance.Proofs.Retrieval

/-!
# Hits can be highlighted

The occurrences of a match are occurrences of the phrase's terms, each of which has
an offset pair. Where a posting has an offset pair for each position, no hit is short
of them.
-/

namespace Concordance.Hit

open Sequences Result PopStream

variable {reader : OffsetReader} {pairs : List Span}

/-- Each occurrence of a row has an offset pair among these. -/
def Paired (row : List Occurrence) (pairs : List Span) : Prop :=
  ∀ occurrence ∈ row, occurrence.index.toNat < pairs.length

/-- Reading takes pairs off the front of those that are left, up to the last one asked for. -/
theorem exists_readPairs (shortage : SearchError) (h : Gives reader pairs) {count : Nat}
    (hcount : count ≤ pairs.length) (last : Span) :
    ∃ pair rest, readPairs shortage count last reader = .ok (pair, rest) ∧
      Gives rest (pairs.drop count) ∧ (last :: pairs)[count]? = some pair := by
  induction count generalizing reader pairs last with
  | zero => exact ⟨last, reader, rfl, h, rfl⟩
  | succ count ih =>
      cases pairs with
      | nil => simp at hcount
      | cons pair pairs =>
          have hend : atEnd reader = false := h.atEnd_eq
          obtain ⟨next, hpop, hnext⟩ := h
          obtain ⟨found, rest, hread, hrest, hfound⟩ :=
            ih hnext (by simpa using hcount) pair
          refine ⟨found, rest, ?_, hrest, hfound⟩
          simp only [readPairs, hend, Bool.false_eq_true, if_false, hpop, hread]

/-- A row whose occurrences all have a pair finds them. -/
theorem exists_selectPairs (shortage : SearchError) {done : Nat}
    (h : Gives reader (pairs.drop done)) {row : List Occurrence} (hrow : Paired row pairs)
    (last : Span) :
    ∃ found, selectPairs shortage done last reader row = .ok found := by
  induction row generalizing done reader last with
  | nil => exact ⟨[], rfl⟩
  | cons occurrence row ih =>
      rw [Paired, List.forall_mem_cons] at hrow
      have hcount : occurrence.index.toNat + 1 - done ≤ (pairs.drop done).length := by
        rw [List.length_drop]
        omega
      obtain ⟨pair, rest, hread, hrest, -⟩ := exists_readPairs shortage h hcount last
      rw [List.drop_drop, show done + (occurrence.index.toNat + 1 - done) =
        max done (occurrence.index.toNat + 1) by omega] at hrest
      obtain ⟨found, hfound⟩ := ih hrest hrow.2 pair
      exact ⟨pair :: found, by rw [selectPairs, hread]; simp only [ok_bind, hfound, pure_eq_ok]⟩

/-- A table whose rows have readers of enough pairs finds all of them. -/
theorem exists_selectRows {rows : List (List Occurrence)} {readers : List OffsetReader}
    {offsets : List (List Span)} (hreaders : List.Forall₂ Gives readers offsets)
    (hrows : List.Forall₂ Paired rows offsets) (docId : UInt32) (term : Nat) :
    ∃ found, selectRows docId term rows readers = .ok found := by
  induction hreaders generalizing rows term with
  | nil =>
      cases hrows
      exact ⟨[], rfl⟩
  | @cons reader pairs readers offsets hgives _ ih =>
      obtain ⟨row, rows, hrow, hrest, rfl⟩ := List.forall₂_cons_right_iff.1 hrows
      have hall : Gives reader (pairs.drop 0) := hgives
      obtain ⟨found, hfound⟩ :=
        exists_selectPairs (.corruption (.fewerOffsets docId term)) hall hrow ⟨0, 0⟩
      obtain ⟨others, hothers⟩ := ih hrest (term + 1)
      exact ⟨found :: others, by
        rw [selectRows, hfound]; simp only [ok_bind, hothers, pure_eq_ok]⟩

theorem index_lt_of_mem_occurrences {stream : List UInt32} {occurrence : Occurrence}
    (h : occurrence ∈ Phrase.occurrences stream) : occurrence.index.toNat < stream.length := by
  obtain ⟨number, hnumber, hindex⟩ := Phrase.mem_occurrences.1 h
  have hlt := (List.getElem?_eq_some_iff.1 hnumber).1
  rw [← hindex]
  exact Nat.lt_of_le_of_lt (Nat.mod_le ..) hlt

/-- Reading more pairs than there are ends with the shortage. -/
theorem readPairs_eq_shortage (shortage : SearchError) (h : Gives reader pairs) {count : Nat}
    (hcount : pairs.length < count) (last : Span) :
    readPairs shortage count last reader = .error shortage := by
  induction count generalizing reader pairs last with
  | zero => exact absurd hcount (Nat.not_lt_zero _)
  | succ count ih =>
      cases pairs with
      | nil =>
          have hend : atEnd reader = true := h.atEnd_eq
          rw [readPairs, if_pos hend]
      | cons pair pairs =>
          have hend : atEnd reader = false := h.atEnd_eq
          obtain ⟨next, hpop, hnext⟩ := h
          rw [readPairs, hend]
          simp only [Bool.false_eq_true, if_false, hpop]
          exact ih hnext (by simpa using hcount) pair

/-- A row finds its pairs only if all of its occurrences have one. -/
theorem paired_of_selectPairs (shortage : SearchError) {done : Nat} (hdone : done ≤ pairs.length)
    (h : Gives reader (pairs.drop done)) {row : List Occurrence} {last : Span} {found : List Span}
    (hfound : selectPairs shortage done last reader row = .ok found) : Paired row pairs := by
  induction row generalizing done reader last found with
  | nil => exact nofun
  | cons occurrence row ih =>
      rw [selectPairs] at hfound
      obtain ⟨⟨pair, rest⟩, hread, hfound⟩ := bind_eq_ok_iff.1 hfound
      obtain ⟨others, hothers, -⟩ := bind_eq_ok_iff.1 hfound
      have hcount : occurrence.index.toNat + 1 - done ≤ (pairs.drop done).length := by
        by_contra hshort
        rw [readPairs_eq_shortage shortage h (Nat.not_le.1 hshort)] at hread
        cases hread
      obtain ⟨_, _, hsame, hrest, -⟩ := exists_readPairs shortage h hcount last
      rw [hread, Except.ok.injEq, Prod.mk.injEq] at hsame
      rw [← hsame.2, List.drop_drop, show done + (occurrence.index.toNat + 1 - done) =
        max done (occurrence.index.toNat + 1) by omega] at hrest
      rw [List.length_drop] at hcount
      rw [Paired, List.forall_mem_cons]
      exact ⟨by omega, ih (by omega) hrest hothers⟩

theorem paired_of_selectRows {rows : List (List Occurrence)} {readers : List OffsetReader}
    {offsets : List (List Span)} (hreaders : List.Forall₂ Gives readers offsets)
    (hlength : rows.length = readers.length) {docId : UInt32} {term : Nat}
    {found : List (List Span)} (hfound : selectRows docId term rows readers = .ok found) :
    List.Forall₂ Paired rows offsets := by
  induction hreaders generalizing rows term found with
  | nil =>
      rw [List.length_nil, List.length_eq_zero_iff] at hlength
      rw [hlength]
      exact .nil
  | @cons reader pairs readers offsets hgives _ ih =>
      cases rows with
      | nil => cases hlength
      | cons row rows =>
          rw [selectRows] at hfound
          obtain ⟨first, hfirst, hfound⟩ := bind_eq_ok_iff.1 hfound
          obtain ⟨others, hothers, -⟩ := bind_eq_ok_iff.1 hfound
          have hall : Gives reader (pairs.drop 0) := hgives
          exact .cons (paired_of_selectPairs _ (Nat.zero_le _) hall hfirst)
            (ih (Nat.succ.inj hlength) hothers)

/-- A hit can be highlighted exactly if no phrase was asked for or each occurrence of a match
has its offset pair. -/
theorem exists_highlights_iff {retrieval : Retrieval} {rarities : List Float} {hit : Hit}
    {column : List Posting} (h : retrieval.Gains True rarities hit column) :
    (∃ rows, hit.highlights = .ok rows) ↔
      (retrieval.phraseActive column.length = true →
        List.Forall₂ Paired (Phrase.table (column.map (·.positions))).rows
          (column.map (·.offsets))) := by
  have hreaders : List.Forall₂ Gives hit.offsets (column.map (·.offsets)) :=
    List.forall₂_map_right_iff.2 h.gives
  rw [highlights, h.isPhrase_eq]
  split
  · next hphrase =>
      rw [h.table_eq, Retrieval.tableOf, if_pos hphrase]
      constructor
      · rintro ⟨rows, hrows⟩ -
        apply paired_of_selectRows hreaders _ hrows
        rw [hreaders.length_eq, (Phrase.table_rows _).length_eq, List.length_map, List.length_map]
      · exact fun hpaired => exists_selectRows hreaders (hpaired hphrase) hit.docId 0
  · next hinactive =>
      refine iff_of_true ⟨column.map (·.offsets), ?_⟩ fun hphrase => absurd hphrase hinactive
      rw [mapM_eq_ok_iff]
      apply hreaders.imp
      intro reader pairs hgives
      rw [hgives.toList]
      rfl

/-- A hit of postings with an offset pair for each position can be highlighted. -/
theorem exists_highlights {retrieval : Retrieval} {rarities : List Float} {hit : Hit}
    {column : List Posting} (h : retrieval.Gains True rarities hit column)
    (hlengths : ∀ posting ∈ column, posting.positions.length ≤ posting.offsets.length) :
    ∃ rows, hit.highlights = .ok rows := by
  rw [exists_highlights_iff h]
  intro _
  have hrows := Phrase.table_rows (column.map (·.positions))
  rw [List.forall₂_map_right_iff] at hrows ⊢
  have hboth := ((List.forall₂_and_left _ _).2 ⟨hlengths, hrows.flip⟩).flip
  apply hboth.imp
  intro row posting hp occurrence hm
  have hlt := index_lt_of_mem_occurrences (hp.2 occurrence hm)
  have hle := hp.1
  omega

/-! Occurrences that come in order are highlighted with just their pairs. -/

/-- The pairs of a row's occurrences. -/
def pick (row : List Occurrence) (pairs : List Span) : List Span :=
  row.filterMap fun occurrence => pairs[occurrence.index.toNat]?

/-- The numbers of the occurrences do not go down. -/
def Rising (row : List Occurrence) : Prop := row.Pairwise fun a b => a.index ≤ b.index

/-- A row in order finds the pairs of its occurrences. The pair read last is that of the number
before `done`; the one it starts with stands before all pairs. -/
theorem selectPairs_eq_pick (shortage : SearchError) {done : Nat}
    (h : Gives reader (pairs.drop done)) {first last : Span}
    (hlast : (first :: pairs)[done]? = some last) {row : List Occurrence}
    (hrow : Paired row pairs) (hdone : ∀ occurrence ∈ row, done ≤ occurrence.index.toNat + 1)
    (hrising : Rising row) :
    selectPairs shortage done last reader row = .ok (pick row pairs) := by
  induction row generalizing done reader last with
  | nil => rfl
  | cons occurrence row ih =>
      rw [Paired, List.forall_mem_cons] at hrow
      rw [List.forall_mem_cons] at hdone
      rw [Rising, List.pairwise_cons] at hrising
      have hcount : occurrence.index.toNat + 1 - done ≤ (pairs.drop done).length := by
        rw [List.length_drop]
        omega
      obtain ⟨pair, rest, hread, hrest, hpair⟩ := exists_readPairs shortage h hcount last
      have hleft : last :: pairs.drop done = (first :: pairs).drop done := by
        obtain ⟨hlt, rfl⟩ := List.getElem?_eq_some_iff.1 hlast
        rw [List.drop_eq_getElem_cons hlt, List.drop_succ_cons]
      rw [hleft, List.getElem?_drop, Nat.add_sub_cancel' hdone.1] at hpair
      rw [List.drop_drop, Nat.add_sub_cancel' hdone.1] at hrest
      have hrestPairs := ih hrest hpair hrow.2
        (fun other hm => Nat.add_le_add_right (UInt32.le_iff_toNat_le.1 (hrising.1 other hm)) 1)
        hrising.2
      have hmax : max done (occurrence.index.toNat + 1) = occurrence.index.toNat + 1 :=
        Nat.max_eq_right hdone.1
      rw [List.getElem?_cons_succ] at hpair
      rw [selectPairs, hread]
      simp only [ok_bind, hmax, hrestPairs, pure_eq_ok, pick, List.filterMap_cons, hpair]

/-- What is picked where nothing is missing. -/
theorem map_some_pick {row : List Occurrence} {pairs : List Span} (h : Paired row pairs) :
    (pick row pairs).map some = row.map fun occurrence => pairs[occurrence.index.toNat]? := by
  induction row with
  | nil => rfl
  | cons occurrence row ih =>
      rw [Paired, List.forall_mem_cons] at h
      have hpair : pairs[occurrence.index.toNat]? = some pairs[occurrence.index.toNat] :=
        List.getElem?_eq_getElem h.1
      rw [List.map_cons, ← ih h.2, hpair, pick, List.filterMap_cons, hpair]
      rfl

/-- A first row that finds its pairs is answered with them, and the other rows are looked at. -/
theorem selectRows_cons_of_paired {row : List Occurrence} {rows : List (List Occurrence)}
    {readers : List OffsetReader} (hreader : Gives reader pairs) (hrow : Paired row pairs)
    (hrising : Rising row) (docId : UInt32) (term : Nat) :
    selectRows docId term (row :: rows) (reader :: readers) =
      (selectRows docId (term + 1) rows readers).map (pick row pairs :: ·) := by
  have hall : Gives reader (pairs.drop 0) := hreader
  have hfirst : (⟨0, 0⟩ :: pairs)[0]? = some (⟨0, 0⟩ : Span) := rfl
  rw [selectRows, selectPairs_eq_pick (.corruption (.fewerOffsets docId term)) hall hfirst hrow
    (fun occurrence _ => Nat.zero_le _) hrising, ok_bind]
  cases selectRows docId (term + 1) rows readers <;> rfl

/-- A table of rows in order finds the pairs of its occurrences, row by row. -/
theorem selectRows_eq_pick {rows : List (List Occurrence)} {readers : List OffsetReader}
    {offsets : List (List Span)} (hreaders : List.Forall₂ Gives readers offsets)
    (hrows : List.Forall₂ Paired rows offsets) (hrising : ∀ row ∈ rows, Rising row)
    (docId : UInt32) (term : Nat) :
    selectRows docId term rows readers = .ok (List.zipWith pick rows offsets) := by
  induction hreaders generalizing rows term with
  | nil =>
      cases hrows
      rfl
  | @cons reader pairs readers offsets hgives _ ih =>
      obtain ⟨row, rows, hrow, hrest, rfl⟩ := List.forall₂_cons_right_iff.1 hrows
      rw [List.forall_mem_cons] at hrising
      rw [selectRows_cons_of_paired hgives hrow hrising.1, ih hrest hrising.2]
      rfl

/-- A hit is highlighted with all pairs of its terms, or for a phrase with those of its
matches. -/
theorem highlights_eq_pick {retrieval : Retrieval} {rarities : List Float} {hit : Hit}
    {column : List Posting} (h : retrieval.Gains True rarities hit column)
    (hlengths : ∀ posting ∈ column, posting.positions.length ≤ posting.offsets.length)
    (hrising : ∀ row ∈ (Phrase.table (column.map (·.positions))).rows, Rising row) :
    hit.highlights = .ok (if retrieval.phraseActive column.length then
      List.zipWith pick (Phrase.table (column.map (·.positions))).rows (column.map (·.offsets))
      else column.map (·.offsets)) := by
  have hreaders : List.Forall₂ Gives hit.offsets (column.map (·.offsets)) :=
    List.forall₂_map_right_iff.2 h.gives
  rw [highlights, h.isPhrase_eq]
  split
  · next hphrase =>
      rw [h.table_eq, Retrieval.tableOf, if_pos hphrase]
      have hpaired := (exists_highlights_iff h).1 (exists_highlights h hlengths) hphrase
      exact selectRows_eq_pick hreaders hpaired hrising hit.docId 0
  · rw [mapM_eq_ok_iff]
    apply hreaders.imp
    intro reader pairs hgives
    rw [hgives.toList]
    rfl

/-! A hit can lack offset pairs, but nothing else can keep it from being highlighted. -/

/-- The error of a document with fewer offset pairs than positions of a term. -/
def OffsetShortage (error : SearchError) : Prop :=
  ∃ docId term, error = .corruption (.fewerOffsets docId term)

theorem fails_selectPairs (shortage : SearchError) {done : Nat}
    (h : Gives reader (pairs.drop done)) (row : List Occurrence) (last : Span) :
    Fails (· = shortage) (selectPairs shortage done last reader row) := by
  induction row generalizing done reader last with
  | nil => exact .ok []
  | cons occurrence row ih =>
      rw [selectPairs]
      by_cases hcount : occurrence.index.toNat + 1 - done ≤ (pairs.drop done).length
      · obtain ⟨pair, rest, hread, hrest, -⟩ := exists_readPairs shortage h hcount last
        rw [List.drop_drop, show done + (occurrence.index.toNat + 1 - done) =
          max done (occurrence.index.toNat + 1) by omega] at hrest
        rw [hread, ok_bind]
        apply (ih hrest pair).bind
        intro found
        exact .ok (pair :: found)
      · rw [readPairs_eq_shortage shortage h (Nat.not_le.1 hcount), error_bind]
        exact .error rfl

theorem fails_selectRows {rows : List (List Occurrence)} {readers : List OffsetReader}
    {offsets : List (List Span)} (hreaders : List.Forall₂ Gives readers offsets)
    (hrows : rows.length ≤ readers.length) (docId : UInt32) (term : Nat) :
    Fails OffsetShortage (selectRows docId term rows readers) := by
  induction rows generalizing readers offsets term with
  | nil => exact .ok []
  | cons row rows ih =>
      cases hreaders with
      | nil => exact absurd hrows (Nat.not_succ_le_zero _)
      | @cons reader pairs readers offsets hgives hrest =>
          have hall : Gives reader (pairs.drop 0) := hgives
          rw [selectRows]
          apply Fails.bind
          · have hpairs :=
              fails_selectPairs (.corruption (.fewerOffsets docId term)) hall row ⟨0, 0⟩
            exact hpairs.imp fun error herror => ⟨docId, term, herror⟩
          · intro found
            apply (ih hrest (Nat.le_of_succ_le_succ hrows) (term + 1)).bind
            intro others
            exact .ok (found :: others)

/-- A hit of postings cannot be highlighted only where it lacks offset pairs. -/
theorem fails_highlights {retrieval : Retrieval} {rarities : List Float} {hit : Hit}
    {column : List Posting} (h : retrieval.Gains True rarities hit column) :
    Fails OffsetShortage hit.highlights := by
  have hreaders : List.Forall₂ Gives hit.offsets (column.map (·.offsets)) :=
    List.forall₂_map_right_iff.2 h.gives
  rw [highlights]
  split
  · next hphrase =>
      rw [h.isPhrase_eq] at hphrase
      apply fails_selectRows hreaders
      rw [h.table_eq, Retrieval.tableOf, if_pos hphrase, hreaders.length_eq,
        (Phrase.table_rows _).length_eq, List.length_map, List.length_map]
  · apply Fails.mapM
    intro reader hm
    obtain ⟨pairs, -, hgives⟩ := exists_beside hreaders hm
    rw [hgives.toList]
    exact .ok pairs

end Concordance.Hit
