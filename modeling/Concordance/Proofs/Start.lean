import Concordance.Proofs.Conjunction
import Concordance.Proofs.Safety

/-!
# Where a query starts

A query gets a cursor for each of its terms. `Start` is such a cursor with all that led to it:
a list that was empty or decoded, the postings offered to it, and the moves from its first
posting on. Whatever these were, the cursor shows the documents and frequencies of the postings
from its place on. It shows their occurrences too if 32 bits hold the size of every posting,
`Start.Sized`.
-/

namespace Concordance

open Result PostingList

/-- A list to which nothing was offered so far, and the postings it holds. -/
inductive PostingList.Origin : PostingList → List Posting → Prop
  | empty (span : SkipSpan) : Origin (.empty span) []
  | decoded {bytes : Bytes} {offset stop : Nat} {list : PostingList} {postings : List Posting}
      (hdecode : decode bytes offset = .ok (list, stop))
      (hpostings : list.postings = .ok postings) : Origin list postings

theorem PostingList.Origin.exists_layout {list : PostingList} {postings : List Posting}
    (h : list.Origin postings) : ∃ headers, list.Layout postings headers := by
  cases h with
  | empty span => exact ⟨[], layout_empty span⟩
  | decoded hdecode hpostings =>
      obtain ⟨found, headers, hchecked⟩ := exists_checked_of_decode hdecode
      rw [hchecked.postings_eq, Except.ok.injEq] at hpostings
      exact ⟨headers, hpostings ▸ hchecked.toLayout⟩

/-- A cursor that moves took over a list from its first posting, after postings were offered to
the list. -/
structure Start where
  origin : PostingList
  held : List Posting
  holds : origin.Origin held
  offered : List Posting
  run : List Cursor.Move
  cursor : Cursor
  reached : (origin.offerAll offered).cursor >>= (·.moves run) = .ok cursor

namespace Start
variable {whole : Prop} {docId : UInt32} {column : List Posting}

/-- The postings of the list. -/
def postings (start : Start) : List Posting := start.held ++ start.origin.accepted start.offered

/-- The postings from the cursor on. -/
def left (start : Start) : List Posting := start.postings.drop start.cursor.index

/-- The size of every posting that the list took is a number of 32 bits. -/
def Sized (start : Start) : Prop := start.origin.Sized start.offered

theorem exists_stands (start : Start) (hsized : whole → start.Sized) :
    ∃ headers, start.cursor.Stands whole start.postings headers := by
  obtain ⟨headers, hlayout⟩ := start.holds.exists_layout
  obtain ⟨headers, houtline, hlayout⟩ := hlayout.exists_outline start.offered
  exact ⟨headers, houtline.stands_of_moves (fun hwhole => hlayout (hsized hwhole)) start.reached⟩

theorem shows (start : Start) (hsized : whole → start.Sized) :
    start.cursor.Shows whole start.left := by
  obtain ⟨headers, hstands⟩ := start.exists_stands hsized
  exact ⟨start.postings, headers, hstands, rfl⟩

theorem size_eq (start : Start) : start.cursor.list.size = start.postings.length := by
  obtain ⟨headers, hstands⟩ := start.exists_stands False.elim
  exact hstands.outline.size_eq

theorem shows_all {starts : List Start} (hsized : whole → ∀ start ∈ starts, start.Sized) :
    List.Forall₂ (Cursor.Shows whole) (starts.map (·.cursor)) (starts.map left) := by
  rw [List.forall₂_map_left_iff, List.forall₂_map_right_iff, List.forall₂_same]
  exact fun start hm => start.shows fun hwhole => hsized hwhole start hm

/-- Where moves lead over a list of small postings. -/
theorem exists_of_offers (span : SkipSpan) (offered : List Posting) (run : List Cursor.Move)
    (index : Nat) (hroom : ((PostingList.empty span).offerAll offered).data.size < UInt32.size)
    (hindex : (((PostingList.empty span).offerAll offered).cursor >>=
      (·.moves run)).toOption.map Cursor.index = some index) :
    ∃ start : Start, start.offered = offered ∧ start.Sized ∧
      start.postings = (PostingList.empty span).accepted offered ∧
      start.left = ((PostingList.empty span).accepted offered).drop index := by
  cases hreached : ((PostingList.empty span).offerAll offered).cursor >>= (·.moves run) with
  | error fault =>
      rw [hreached] at hindex
      cases hindex
  | ok cursor =>
      rw [hreached] at hindex
      cases hindex
      exact ⟨⟨.empty span, [], .empty span, offered, run, cursor, hreached⟩, rfl,
        sized_of_room hroom, rfl, rfl⟩

/-- The postings of a document that the lists have left, one from each. -/
def Column (docId : UInt32) (starts : List Start) (column : List Posting) : Prop :=
  List.Forall₂ (fun start posting => posting ∈ start.left ∧ posting.docId = docId) starts column

theorem column_left_iff {starts : List Start} :
    Conjunction.Column docId (starts.map left) column ↔ Column docId starts column :=
  List.forall₂_map_left_iff

/-- Postings whose occurrences follow those of the sample offers. -/
def followers : List Posting := [⟨42, 1, [], [2]⟩, ⟨70000, 1, [⟨9, 9⟩], [3]⟩]

/-- Two cursors, the first of them on its second posting, with two documents in common. -/
theorem exists_sample :
    ∃ first second : Start, first.offered = sampleOffers ∧ second.offered = followers ∧
      (∀ start ∈ [first, second], start.Sized) ∧
      first.postings.length = 5 ∧ second.postings.length = 2 ∧
      first.left = [⟨9, 2, [⟨1, 1⟩, ⟨300, 301⟩], [7, 200]⟩, ⟨10, 1, [], []⟩,
        ⟨42, 1, [⟨2, 5⟩], [1]⟩, ⟨70000, 1, [⟨6, 6⟩], [2]⟩] ∧
      second.left = [⟨42, 1, [], [2]⟩, ⟨70000, 1, [⟨9, 9⟩], [3]⟩] := by
  obtain ⟨first, hoffered, hsized, hpostings, hleft⟩ := exists_of_offers
    ⟨2, by decide⟩ sampleOffers [.advance] 1 (by decide +kernel) (by decide +kernel)
  obtain ⟨second, hoffered', hsized', hpostings', hleft'⟩ := exists_of_offers
    ⟨1, by decide⟩ followers [] 0 (by decide +kernel) (by decide +kernel)
  refine ⟨first, second, hoffered, hoffered', by simp [hsized, hsized'], ?_, ?_, ?_, ?_⟩
  · rw [hpostings]
    decide +kernel
  · rw [hpostings']
    decide +kernel
  · rw [hleft]
    decide +kernel
  · rw [hleft']
    decide +kernel

/-- A cursor behind the first span of its list, with three postings of one occurrence left. -/
theorem exists_level :
    ∃ start : Start, start.offered = sampleOffers ∧ start.Sized ∧
      start.left = [⟨10, 1, [], []⟩, ⟨42, 1, [⟨2, 5⟩], [1]⟩, ⟨70000, 1, [⟨6, 6⟩], [2]⟩] := by
  obtain ⟨start, hoffered, hsized, -, hleft⟩ := exists_of_offers
    ⟨2, by decide⟩ sampleOffers [.seek 10] 2 (by decide +kernel) (by decide +kernel)
  refine ⟨start, hoffered, hsized, ?_⟩
  rw [hleft]
  decide +kernel

end Start

end Concordance
