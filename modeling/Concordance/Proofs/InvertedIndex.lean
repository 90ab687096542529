import Concordance.InvertedIndex
import Concordance.Proofs.Conjunction
import Concordance.Proofs.Document

/-!
# What an index holds

An index holds a list of postings for each term that has any, and adding a document
appends one posting for each of its rows. `Holds` follows the postings through the
additions, for as long as no list outgrows the 32-bit offsets.
-/

namespace Concordance

open Sequences Result PostingList

/-- The last document of a list is that of one of its postings. -/
theorem PostingList.Layout.exists_lastDocId {list : PostingList} {postings : List Posting}
    {headers : List Header} (h : list.Layout postings headers) (hne : postings ≠ []) :
    ∃ posting ∈ postings, posting.docId = list.lastDocId := by
  have hpos := List.length_pos_iff.2 hne
  refine ⟨postings[postings.length - 1], List.getElem_mem .., ?_⟩
  rw [h.lastDocId_eq hne, baseOf, List.getElem?_eq_getElem (by omega)]
  rfl

theorem PostingList.Layout.docId_le_last {list : PostingList} {postings : List Posting}
    {headers : List Header} (h : list.Layout postings headers) {posting : Posting}
    (hm : posting ∈ postings) : posting.docId ≤ list.lastDocId := by
  rw [h.lastDocId_eq (List.ne_nil_of_mem hm)]
  exact docId_le_baseOf_length h.ordered hm

namespace InvertedIndex
variable {index next : InvertedIndex} {contents : String → List Posting} {docId : UInt32}
  {document : Document} {term : String} {postings : List (String × Posting)}

theorem get?_insert (index : InvertedIndex) (term other : String) (list : PostingList) :
    ({ index with lists := index.lists.insert term list } : InvertedIndex).get? other =
      if term = other then some list else index.get? other := by
  simp only [get?, Std.ExtTreeMap.getElem?_insert, Std.compare_eq_iff_eq]

/-- The lists hold these postings, term by term. A term without postings has no list. -/
structure Holds (index : InvertedIndex) (contents : String → List Posting) : Prop where
  get?_eq_none_iff : ∀ term, index.get? term = none ↔ contents term = []
  layout : ∀ {term list}, index.get? term = some list →
    list.span = index.span ∧ ∃ headers, list.Layout (contents term) headers

/-- No list has outgrown the 32-bit offsets. -/
def Fits (index : InvertedIndex) : Prop :=
  ∀ term list, index.get? term = some list → list.data.size < UInt32.size

theorem forall_get?_of_all (p : PostingList → Bool)
    (h : index.lists.toList.all (fun entry => p entry.2) = true) {term : String}
    {list : PostingList} (hget : index.get? term = some list) : p list = true := by
  rw [List.all_eq_true] at h
  exact h (term, list) (Std.ExtTreeMap.mem_toList_iff_getElem?_eq_some.2 hget)

theorem fits_of_all
    (h : index.lists.toList.all (fun entry => entry.2.data.size < UInt32.size) = true) :
    index.Fits := by
  intro term list hget
  exact of_decide_eq_true (forall_get?_of_all (·.data.size < UInt32.size) h hget)

/-- The postings of each term, with those that come behind. -/
def extend (contents : String → List Posting) (postings : List (String × Posting))
    (term : String) : List Posting :=
  contents term ++ (postings.filter (·.1 = term)).map (·.2)

theorem holds_empty (span : SkipSpan) : (empty span).Holds fun _ => [] where
  get?_eq_none_iff := by simp [get?, empty]
  layout := by simp [get?, empty]

theorem extend_cons (entry : String × Posting) (postings : List (String × Posting)) :
    extend contents (entry :: postings) = extend (extend contents [entry]) postings := by
  ext term : 1
  by_cases h : entry.1 = term
  · simp [extend, h]
  · simp [extend, h]

/-- Lists only grow. -/
theorem exists_get?_appendAll {list : PostingList} (h : index.get? term = some list)
    (postings : List (String × Posting)) :
    ∃ list', (index.appendAll postings).2.get? term = some list' ∧
      list.data.size ≤ list'.data.size := by
  fun_induction appendAll index postings generalizing list with
  | case1 index => exact ⟨list, h, Nat.le_refl _⟩
  | case2 index other posting rest longer happend ih =>
      by_cases heq : other = term
      · subst heq
        rw [h, Option.getD_some] at happend
        have hlonger : ({ index with lists := index.lists.insert other longer } :
            InvertedIndex).get? other = some longer := by
          rw [get?_insert, if_pos rfl]
        obtain ⟨list', hlist', hle⟩ := ih hlonger
        refine ⟨list', hlist', ?_⟩
        calc
          list.data.size ≤ longer.data.size := size_data_le_of_append happend
          _ ≤ list'.data.size := hle
      · exact ih (by rw [get?_insert, if_neg heq, h])
  | case3 index other posting rest error happend => exact ⟨list, h, Nat.le_refl _⟩

theorem Fits.of_appendAll (h : (index.appendAll postings).2.Fits) : index.Fits := by
  intro term list hlist
  obtain ⟨list', hlist', hle⟩ := exists_get?_appendAll hlist postings
  have := h term list' hlist'
  omega

/-- The list of a term, empty where there is none, holds its postings. -/
theorem Holds.layout_getD (h : index.Holds contents) (term : String) :
    ∃ headers, ((index.get? term).getD (.empty index.span)).Layout (contents term) headers := by
  cases hget : index.get? term with
  | none =>
      rw [(h.get?_eq_none_iff term).1 hget]
      exact ⟨[], layout_empty _⟩
  | some list => exact (h.layout hget).2

theorem Holds.span_getD (h : index.Holds contents) (term : String) :
    ((index.get? term).getD (.empty index.span)).span = index.span := by
  cases hget : index.get? term with
  | none => rfl
  | some list => exact (h.layout hget).1

theorem Fits.size_getD (h : index.Fits) (term : String) :
    ((index.get? term).getD (.empty index.span)).data.size < UInt32.size := by
  cases hget : index.get? term with
  | none =>
      change 0 < UInt32.size
      decide
  | some list => exact h term list hget

/-- The list of a term takes a posting in order above its documents. -/
theorem Holds.accepts (h : index.Holds contents) (hfits : index.Fits) {posting : Posting}
    (hcheck : posting.check = .ok ()) (habove : ∀ p ∈ contents term, p.docId < posting.docId) :
    ((index.get? term).getD (.empty index.span)).Accepts posting where
  lastDocId_lt := by
    intro hpos
    obtain ⟨headers, hlayout⟩ := h.layout_getD term
    rw [hlayout.size_eq] at hpos
    obtain ⟨last, hm, hlast⟩ := hlayout.exists_lastDocId (List.ne_nil_of_length_pos hpos)
    exact hlast ▸ habove last hm
  check := hcheck
  room := hfits.size_getD term

/-- The index with a posting at the end of the list of its term. -/
theorem Holds.insert (h : index.Holds contents) {list : PostingList} {posting : Posting}
    (happend : ((index.get? term).getD (.empty index.span)).append posting = .ok list)
    (hsize : list.data.size < UInt32.size) :
    ({ index with lists := index.lists.insert term list } : InvertedIndex).Holds
      (extend contents [(term, posting)]) := by
  constructor
  · intro other
    rw [get?_insert]
    by_cases heq : term = other
    · simp [extend, heq]
    · simp [extend, heq, h.get?_eq_none_iff]
  · intro other list' hget
    rw [get?_insert] at hget
    split at hget
    · next heq =>
        cases heq
        cases hget
        obtain ⟨headers, hlayout⟩ := h.layout_getD term
        obtain ⟨header, hlayout⟩ :=
          hlayout.append happend (sized_of_append happend (Nat.lt_add_left _ hsize))
        refine ⟨(span_eq_of_append happend).trans (h.span_getD term), headers ++ [header], ?_⟩
        simpa [extend] using hlayout
    · next hne =>
        obtain ⟨hspan, headers, hlayout⟩ := h.layout hget
        exact ⟨hspan, headers, by simpa [extend, hne] using hlayout⟩

/-- Postings in order above the documents of their terms are all appended. -/
theorem Holds.appendAll (h : index.Holds contents)
    (hcheck : ∀ entry ∈ postings, entry.2.check = .ok ())
    (habove : ∀ entry ∈ postings, ∀ p ∈ contents entry.1, p.docId < entry.2.docId)
    (hnodup : (postings.map (·.1)).Nodup) (hfits : (index.appendAll postings).2.Fits) :
    (index.appendAll postings).1 = .ok () ∧
      (index.appendAll postings).2.Holds (extend contents postings) := by
  have hroom := hfits.of_appendAll
  fun_induction InvertedIndex.appendAll index postings generalizing contents with
  | case1 index =>
      refine ⟨rfl, ?_⟩
      have hsame : extend contents [] = contents := by
        ext term : 1
        simp [extend]
      rwa [hsame]
  | case2 index term posting rest list happend ih =>
      rw [List.forall_mem_cons] at hcheck habove
      rw [List.map_cons, List.nodup_cons] at hnodup
      have hnext := hfits.of_appendAll
      have hsize := hnext term list (by rw [get?_insert, if_pos rfl])
      rw [extend_cons]
      apply ih (h.insert happend hsize) hcheck.2 _ hnodup.2 hfits hnext
      intro entry hm p hp
      have hne : term ≠ entry.1 := by
        rintro rfl
        exact hnodup.1 (List.mem_map.2 ⟨entry, hm, rfl⟩)
      exact habove.2 entry hm p (by simpa [extend, hne] using hp)
  | case3 index term posting rest error happend =>
      rw [List.forall_mem_cons] at hcheck habove
      obtain ⟨delta, written, -, -, hok⟩ :=
        append_of_accepts (h.accepts hroom hcheck.1 habove.1)
      rw [happend] at hok
      cases hok

/-- The posting of a row. -/
def rowPosting (docId : UInt32) (row : String × List Span × List UInt32) : String × Posting :=
  (row.1, ⟨docId, row.2.1.length.toUInt32, row.2.1, row.2.2⟩)

theorem not_mem_insert_iff {seen : Std.ExtTreeSet String} {other : String} :
    other ∉ seen.insert term ↔ term ≠ other ∧ other ∉ seen := by
  rw [Std.ExtTreeSet.mem_insert, Std.compare_eq_iff_eq, not_or]

/-- Rows are taken if each is in order, no term comes twice and none has the document. -/
theorem rowPostings_eq_ok_iff {seen : Std.ExtTreeSet String}
    {rows : List (String × List Span × List UInt32)} :
    index.rowPostings docId seen rows = .ok postings ↔
      postings = rows.map (rowPosting docId) ∧ (rows.map (·.1)).Nodup ∧
        ∀ row ∈ rows, (rowPosting docId row).2.check = .ok () ∧ row.1 ∉ seen ∧
          index.checkOrder docId row.1 = .ok () := by
  induction rows generalizing seen postings with
  | nil => simp [rowPostings, eq_comm]
  | cons row rows ih =>
      obtain ⟨term, offsets, positions⟩ := row
      rw [List.map_cons, List.map_cons, List.nodup_cons, List.forall_mem_cons, rowPostings]
      constructor
      · intro h
        obtain ⟨_, hcheck, h⟩ := bind_eq_ok_iff.1 h
        by_cases hseen : seen.contains term = true
        · rw [if_pos hseen] at h
          cases h
        rw [if_neg hseen] at h
        obtain ⟨_, horder, h⟩ := bind_eq_ok_iff.1 h
        obtain ⟨rest, hrest, h⟩ := bind_eq_ok_iff.1 h
        cases h
        obtain ⟨rfl, hnodup, hrows⟩ := ih.1 hrest
        simp only [not_mem_insert_iff] at hrows
        refine ⟨rfl, ⟨?_, hnodup⟩, ⟨hcheck, hseen, horder⟩, ?_⟩
        · intro hm
          obtain ⟨row, hrow, hterm⟩ := List.mem_map.1 hm
          exact (hrows row hrow).2.1.1 hterm.symm
        · intro row hm
          obtain ⟨hcheck, ⟨-, hnot⟩, horder⟩ := hrows row hm
          exact ⟨hcheck, hnot, horder⟩
      · rintro ⟨rfl, ⟨hnot, hnodup⟩, ⟨hcheck, hseen, horder⟩, hrows⟩
        have hrest : index.rowPostings docId (seen.insert term) rows =
            .ok (rows.map (rowPosting docId)) := by
          apply ih.2
          refine ⟨rfl, hnodup, ?_⟩
          intro row hm
          obtain ⟨hcheck, hnotSeen, horder⟩ := hrows row hm
          refine ⟨hcheck, not_mem_insert_iff.2 ⟨?_, hnotSeen⟩, horder⟩
          rintro rfl
          exact hnot (List.mem_map.2 ⟨row, hm, rfl⟩)
        have hnotSeen : ¬ seen.contains term = true := hseen
        apply bind_eq_ok_iff.mpr
        refine ⟨(), hcheck, ?_⟩
        rw [if_neg hnotSeen]
        apply bind_eq_ok_iff.mpr
        refine ⟨(), horder, ?_⟩
        apply bind_eq_ok_iff.mpr
        exact ⟨_, hrest, rfl⟩

theorem checkOrder_eq_ok_iff : index.checkOrder docId term = .ok () ↔
    ∀ list, index.get? term = some list → 0 < list.size → list.lastDocId < docId := by
  rw [checkOrder]
  cases index.get? term with
  | none => simp
  | some list =>
      simp only [ite_error_eq_ok_iff, not_and, UInt32.not_le, and_true, Option.some.injEq,
        forall_eq']

/-- A document is above all documents of a term exactly if it is above the last. -/
theorem Holds.checkOrder_eq_ok_iff (h : index.Holds contents) :
    index.checkOrder docId term = .ok () ↔ ∀ p ∈ contents term, p.docId < docId := by
  rw [InvertedIndex.checkOrder_eq_ok_iff]
  cases hget : index.get? term with
  | none => simp [(h.get?_eq_none_iff term).1 hget]
  | some list =>
      obtain ⟨-, headers, hlayout⟩ := h.layout hget
      have hne : contents term ≠ [] := by
        rw [Ne, ← h.get?_eq_none_iff, hget]
        exact nofun
      obtain ⟨last, hm, hlast⟩ := hlayout.exists_lastDocId hne
      have hpos : 0 < list.size := by
        rw [hlayout.size_eq]
        exact List.length_pos_iff.2 hne
      simp only [Option.some.injEq, forall_eq', hpos, true_implies]
      constructor
      · intro hbelow p hp
        exact UInt32.lt_of_le_of_lt (hlayout.docId_le_last hp) hbelow
      · intro habove
        exact hlast ▸ habove last hm

/-- The postings of a document, if its rows agree, no term comes twice and each can be
appended. -/
theorem postings_eq_ok_iff :
    index.postings docId document = .ok postings ↔
      (document.terms.length = document.offsets.length ∧
        document.terms.length = document.positions.length) ∧
      postings = document.rows.map (rowPosting docId) ∧ (document.rows.map (·.1)).Nodup ∧
        ∀ row ∈ document.rows, (rowPosting docId row).2.check = .ok () ∧
          index.checkOrder docId row.1 = .ok () := by
  rw [InvertedIndex.postings]
  by_cases hcounts : document.terms.length ≠ document.offsets.length ∨
      document.terms.length ≠ document.positions.length
  · rw [if_pos hcounts]
    constructor
    · intro hok
      cases hok
    · rintro ⟨⟨hoffsets, hpositions⟩, -⟩
      rcases hcounts with hne | hne
      · exact absurd hoffsets hne
      · exact absurd hpositions hne
  · rw [if_neg hcounts]
    simp only [not_or, not_not] at hcounts
    change index.rowPostings docId ∅ document.rows = .ok postings ↔ _
    refine rowPostings_eq_ok_iff.trans ?_
    constructor
    · rintro ⟨hpostings, hnodup, hrows⟩
      refine ⟨hcounts, hpostings, hnodup, ?_⟩
      intro row hm
      obtain ⟨hcheck, -, horder⟩ := hrows row hm
      exact ⟨hcheck, horder⟩
    · rintro ⟨-, hpostings, hnodup, hrows⟩
      refine ⟨hpostings, hnodup, ?_⟩
      intro row hm
      obtain ⟨hcheck, horder⟩ := hrows row hm
      exact ⟨hcheck, Std.ExtTreeSet.not_mem_empty, horder⟩

theorem Holds.postings_eq_ok_iff (h : index.Holds contents) :
    index.postings docId document = .ok postings ↔
      (document.terms.length = document.offsets.length ∧
        document.terms.length = document.positions.length) ∧
      postings = document.rows.map (rowPosting docId) ∧ (document.rows.map (·.1)).Nodup ∧
        ∀ row ∈ document.rows, (rowPosting docId row).2.check = .ok () ∧
          ∀ p ∈ contents row.1, p.docId < docId := by
  simp only [← h.checkOrder_eq_ok_iff]
  exact InvertedIndex.postings_eq_ok_iff

/-- A document whose rows can be appended is added: a posting for each row. -/
theorem Holds.add (h : index.Holds contents)
    (hpostings : index.postings docId document = .ok postings)
    (hfits : (index.add docId document).2.Fits) :
    (index.add docId document).1 = .ok () ∧
      (index.add docId document).2.Holds (extend contents postings) := by
  obtain ⟨-, hrows, hnodup, hall⟩ := h.postings_eq_ok_iff.1 hpostings
  rw [InvertedIndex.add, hpostings] at hfits ⊢
  refine h.appendAll ?_ ?_ ?_ hfits
  · rw [hrows]
    intro entry hm
    obtain ⟨row, hrow, rfl⟩ := List.mem_map.1 hm
    exact (hall row hrow).1
  · rw [hrows]
    intro entry hm
    obtain ⟨row, hrow, rfl⟩ := List.mem_map.1 hm
    exact (hall row hrow).2
  · rw [hrows, List.map_map]
    exact hnodup

theorem Fits.of_add (h : (index.add docId document).2.Fits) : index.Fits := by
  rw [InvertedIndex.add] at h
  split at h
  · exact h.of_appendAll
  · exact h

/-- Each list there is holds the postings of its term; a term without a list has none. -/
structure Presents (index : InvertedIndex) (contents : String → List Posting) : Prop where
  eq_nil : ∀ term, index.get? term = none → contents term = []
  layout : ∀ term list, index.get? term = some list →
    ∃ headers, list.Layout (contents term) headers

theorem Holds.presents (h : index.Holds contents) : index.Presents contents where
  eq_nil := fun term hget => (h.get?_eq_none_iff term).1 hget
  layout := fun _ _ hget => (h.layout hget).2

namespace Presents

theorem exists_list (h : index.Presents contents) (hne : contents term ≠ []) :
    ∃ list, index.get? term = some list ∧ list.isEmpty = false ∧
      ∃ headers, list.Layout (contents term) headers := by
  cases hget : index.get? term with
  | none => exact absurd (h.eq_nil term hget) hne
  | some list =>
      obtain ⟨headers, hlayout⟩ := h.layout term list hget
      refine ⟨list, rfl, ?_, headers, hlayout⟩
      rw [PostingList.isEmpty, beq_eq_false_iff_ne, hlayout.size_eq, Ne, List.length_eq_zero_iff]
      exact hne

theorem isEmpty_eq (h : index.Presents contents) {list : PostingList}
    (hget : index.get? term = some list) (hnil : contents term = []) : list.isEmpty = true := by
  obtain ⟨headers, hlayout⟩ := h.layout term list hget
  rw [PostingList.isEmpty, hlayout.size_eq, hnil]
  rfl

theorem lists?_eq_none (h : index.Presents contents) {terms : List String}
    (hterm : term ∈ terms) (hnil : contents term = []) : index.lists? terms = none := by
  induction terms with
  | nil => cases hterm
  | cons first terms ih =>
      rw [lists?]
      rcases List.mem_cons.1 hterm with rfl | hterm
      · split
        · rfl
        · next list hget => rw [if_pos (h.isEmpty_eq hget hnil)]
      · rw [ih hterm]
        split
        · rfl
        · split <;> rfl

/-- The lists of terms that have postings. -/
theorem exists_lists? (h : index.Presents contents) {terms : List String}
    (hne : ∀ term ∈ terms, contents term ≠ []) :
    ∃ lists, index.lists? terms = some lists ∧
      List.Forall₂ (fun list term => ∃ headers, list.Layout (contents term) headers) lists
        terms := by
  induction terms with
  | nil => exact ⟨[], rfl, .nil⟩
  | cons term terms ih =>
      rw [List.forall_mem_cons] at hne
      obtain ⟨lists, hlists, hlayouts⟩ := ih hne.2
      obtain ⟨list, hget, hempty, hlayout⟩ := h.exists_list hne.1
      refine ⟨list :: lists, ?_, .cons hlayout hlayouts⟩
      rw [lists?, hget, hlists]
      simp [hempty]

/-- A term without postings leaves a query without cursors. -/
theorem cursors?_eq_none (h : index.Presents contents) {terms : List String}
    (hterm : term ∈ terms) (hnil : contents term = []) : index.cursors? terms = .ok none := by
  rw [cursors?, h.lists?_eq_none hterm hnil]

/-- The cursors of a query are on the first postings of their terms. -/
theorem exists_opened (h : index.Presents contents) {terms : List String}
    (hne : ∀ term ∈ terms, contents term ≠ []) :
    ∃ cursors, index.cursors? terms = .ok (some cursors) ∧
      List.Forall₂ Cursor.Opens cursors (terms.map contents) := by
  obtain ⟨lists, hlists, hlayouts⟩ := h.exists_lists? hne
  have hplaces := ((List.forall₂_and_left _ _).2 ⟨hne, hlayouts.flip⟩).flip
  obtain ⟨cursors, hcursors, hopens⟩ := exists_mapM (f := PostingList.cursor)
    (S := fun cursor term => cursor.Opens (contents term)) hplaces (by
      rintro list term ⟨hne, headers, hlayout⟩
      obtain ⟨first, hfirst, hstands, hindex⟩ := hlayout.cursor hne
      exact ⟨first, hfirst, headers, hstands, hindex⟩)
  refine ⟨cursors, ?_, List.forall₂_map_right_iff.2 hopens⟩
  rw [cursors?, hlists]
  simp only [hcursors, ok_bind, pure_eq_ok]

/-- The cursors of a query have all postings of their terms left. -/
theorem exists_cursors? (h : index.Presents contents) {terms : List String}
    (hne : ∀ term ∈ terms, contents term ≠ []) :
    ∃ cursors, index.cursors? terms = .ok (some cursors) ∧
      List.Forall₂ (Cursor.Shows True) cursors (terms.map contents) := by
  obtain ⟨cursors, hcursors, hopens⟩ := h.exists_opened hne
  exact ⟨cursors, hcursors, hopens.imp fun _ _ => Cursor.Opens.shows⟩

end Presents

end InvertedIndex

end Concordance
