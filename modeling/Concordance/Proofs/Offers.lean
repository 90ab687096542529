import Concordance.Proofs.Addition

/-!
# An index is the fold of the documents it accepts

Documents are offered to an index under any ids and in any order, and some of them are
refused. A document is accepted if `Takes` holds of it, and one that is refused leaves nothing
behind. The lists read back to one posting for each accepted document that has the term.

## Implementation notes

The check of a document looks at the lists from before and the appending changes them one by
one. `Adds` brings both together, so that a run is followed by `Holds` alone.
-/

namespace Concordance

open Result PostingList

/-- A document that is offered to an index under an id. -/
structure Offer where
  docId : UInt32
  document : Document
  deriving DecidableEq, Repr

/-- The postings of a term in the document. -/
def Offer.postingsOf (offer : Offer) (term : String) : List Posting :=
  ((offer.document.rows.map (InvertedIndex.rowPosting offer.docId)).filter (·.1 = term)).map (·.2)

namespace InvertedIndex
variable {index : InvertedIndex} {contents : String → List Posting} {offer : Offer}
  {offers : List Offer} {term : String}

/-- The document can be added: its rows agree in number and are in order, no term is listed
twice, and the id is above those in the lists of the terms. -/
structure Takes (index : InvertedIndex) (offer : Offer) : Prop where
  length_offsets : offer.document.terms.length = offer.document.offsets.length
  length_positions : offer.document.terms.length = offer.document.positions.length
  check : ∀ row ∈ offer.document.rows, (rowPosting offer.docId row).2.check = .ok ()
  nodup : offer.document.terms.Nodup
  lastDocId_lt : ∀ term ∈ offer.document.terms, ∀ list, index.get? term = some list →
    0 < list.size → list.lastDocId < offer.docId

/-- The index after the documents were offered in turn. -/
def offerAll (index : InvertedIndex) : List Offer → InvertedIndex
  | [] => index
  | offer :: offers => (index.add offer.docId offer.document).2.offerAll offers

/-- Those of the documents offered in turn that the index takes. -/
def accepted (index : InvertedIndex) : List Offer → List Offer
  | [] => []
  | offer :: offers =>
    match index.add offer.docId offer.document with
    | (.ok _, next) => offer :: next.accepted offers
    | (.error _, next) => next.accepted offers

/-- The posting is that of the term in the document. -/
structure Posts (term : String) (posting : Posting) (offer : Offer) : Prop where
  docId_eq : posting.docId = offer.docId
  termFreq_eq : posting.termFreq.toNat = posting.offsets.length
  row : (term, posting.offsets, posting.positions) ∈ offer.document.rows

theorem map_fst_rows {document : Document}
    (hoffsets : document.terms.length = document.offsets.length)
    (hpositions : document.terms.length = document.positions.length) :
    document.rows.map (·.1) = document.terms := by
  apply List.map_fst_zip
  rw [List.length_zip]
  omega

theorem takes_iff :
    index.Takes offer ↔ ∃ postings, index.postings offer.docId offer.document = .ok postings := by
  constructor
  · intro h
    refine ⟨_, postings_eq_ok_iff.2 ⟨⟨h.length_offsets, h.length_positions⟩, rfl, ?_, ?_⟩⟩
    · rw [map_fst_rows h.length_offsets h.length_positions]
      exact h.nodup
    · intro row hrow
      refine ⟨h.check row hrow, checkOrder_eq_ok_iff.2 (h.lastDocId_lt row.1 ?_)⟩
      rw [← map_fst_rows h.length_offsets h.length_positions]
      exact List.mem_map_of_mem hrow
  · rintro ⟨postings, hpostings⟩
    obtain ⟨⟨hoffsets, hpositions⟩, -, hnodup, hall⟩ := postings_eq_ok_iff.1 hpostings
    have hterms := map_fst_rows hoffsets hpositions
    refine ⟨hoffsets, hpositions, fun row hrow => (hall row hrow).1, hterms ▸ hnodup, ?_⟩
    intro term hterm
    rw [← hterms] at hterm
    obtain ⟨row, hrow, rfl⟩ := List.mem_map.1 hterm
    exact checkOrder_eq_ok_iff.1 (hall row hrow).2

/-- What is accepted could be added. -/
theorem takes_of_add {value : Unit}
    (h : (index.add offer.docId offer.document).1 = .ok value) : index.Takes offer := by
  have hadds := index.adds offer.docId offer.document
  generalize index.add offer.docId offer.document = result at h hadds
  cases hadds with
  | refused | full => cases h
  | appended hpostings => exact takes_iff.2 ⟨_, hpostings⟩

/-- An index that has room takes what can be added, and is as it was if it takes nothing. -/
theorem add_of_fits (hfits : (index.add offer.docId offer.document).2.Fits) :
    ((index.add offer.docId offer.document).1 = .ok () ↔ index.Takes offer) ∧
      ∀ error, (index.add offer.docId offer.document).1 = .error error →
        (index.add offer.docId offer.document).2 = index := by
  have hroom := hfits.of_add
  have hadds := index.adds offer.docId offer.document
  rw [takes_iff]
  generalize index.add offer.docId offer.document = result at hadds
  cases hadds with
  | refused hrefusal => simp [hrefusal]
  | full hfull => exact absurd hroom hfull
  | appended hpostings => simp [hpostings]

theorem Fits.of_offerAll (h : (index.offerAll offers).Fits) : index.Fits := by
  induction offers generalizing index with
  | nil => exact h
  | cons offer offers ih => exact (ih h).of_add

theorem offerAll_append (index : InvertedIndex) (before after : List Offer) :
    index.offerAll (before ++ after) = (index.offerAll before).offerAll after := by
  induction before generalizing index with
  | nil => rfl
  | cons offer before ih => exact ih _

/-- An accepted document adds the postings of its rows, and another one nothing. -/
theorem Holds.offerAll (h : index.Holds contents) (hfits : (index.offerAll offers).Fits) :
    (index.offerAll offers).Holds fun term =>
      contents term ++ (index.accepted offers).flatMap (·.postingsOf term) := by
  induction offers generalizing index contents with
  | nil => simpa [InvertedIndex.offerAll, accepted] using h
  | cons offer offers ih =>
      rw [InvertedIndex.offerAll] at hfits ⊢
      have hnext := hfits.of_offerAll
      have hspec := add_of_fits hnext
      rw [accepted]
      cases hadd : index.add offer.docId offer.document with
      | mk result next =>
          rw [hadd] at hfits hspec
          cases result with
          | error error =>
              obtain rfl := hspec.2 error rfl
              exact ih h hfits
          | ok value =>
              obtain ⟨postings, hpostings⟩ := takes_iff.1 (hspec.1.1 rfl)
              obtain ⟨-, hrows, -⟩ := InvertedIndex.postings_eq_ok_iff.1 hpostings
              obtain ⟨-, hholds⟩ := h.add hpostings hnext
              rw [hadd] at hholds
              simpa [extend, Offer.postingsOf, hrows] using ih hholds hfits

/-- An accepted document could be added when it was offered. -/
theorem exists_takes_of_mem_accepted (hm : offer ∈ index.accepted offers) :
    ∃ before : InvertedIndex, before.Takes offer := by
  induction offers generalizing index with
  | nil => cases hm
  | cons first offers ih =>
      rw [accepted] at hm
      cases hadd : index.add first.docId first.document with
      | mk result next =>
          rw [hadd] at hm
          cases result with
          | error error => exact ih hm
          | ok value =>
              rcases List.mem_cons.1 hm with rfl | hm
              · exact ⟨index, takes_of_add (congrArg Prod.fst hadd)⟩
              · exact ih hm

/-- Where no two rows are of one term, a row is all there is of its term. -/
theorem filter_rows_eq_singleton {rows : List (String × List Span × List UInt32)}
    (hnodup : (rows.map (·.1)).Nodup) {row : String × List Span × List UInt32}
    (hrow : row ∈ rows) : rows.filter (·.1 = row.1) = [row] := by
  induction rows with
  | nil => cases hrow
  | cons first rows ih =>
      rw [List.map_cons, List.nodup_cons] at hnodup
      rcases List.mem_cons.1 hrow with rfl | hrow
      · have hnone : rows.filter (·.1 = row.1) = [] := by
          rw [List.filter_eq_nil_iff]
          intro other hother
          have hne : other.1 ≠ row.1 :=
            ne_of_mem_of_not_mem (List.mem_map_of_mem (f := Prod.fst) hother) hnodup.1
          simpa using hne
        rw [List.filter_cons_of_pos (by simp), hnone]
      · have hne : row.1 ≠ first.1 :=
          ne_of_mem_of_not_mem (List.mem_map_of_mem (f := Prod.fst) hrow) hnodup.1
        rw [List.filter_cons_of_neg (by simpa using hne.symm), ih hnodup.2 hrow]

/-- A document has one posting for a term that it lists, and none for another. -/
theorem Takes.postingsOf (h : index.Takes offer) (term : String) :
    (term ∉ offer.document.terms ∧ offer.postingsOf term = []) ∨
      ∃ row ∈ offer.document.rows, row.1 = term ∧ term ∈ offer.document.terms ∧
        offer.postingsOf term = [(rowPosting offer.docId row).2] := by
  have hterms := map_fst_rows h.length_offsets h.length_positions
  have hfilter : offer.postingsOf term =
      (offer.document.rows.filter (·.1 = term)).map fun row => (rowPosting offer.docId row).2 := by
    simp [Offer.postingsOf, List.filter_map, Function.comp_def, rowPosting]
  rw [hfilter]
  by_cases hterm : term ∈ offer.document.terms
  · have hlisted := hterm
    rw [← hterms] at hterm
    obtain ⟨row, hrow, rfl⟩ := List.mem_map.1 hterm
    refine .inr ⟨row, hrow, rfl, hlisted, ?_⟩
    rw [filter_rows_eq_singleton (hterms ▸ h.nodup) hrow, List.map_singleton]
  · refine .inl ⟨hterm, ?_⟩
    rw [← hterms] at hterm
    rw [List.map_eq_nil_iff, List.filter_eq_nil_iff]
    intro row hrow hequal
    exact hterm (of_decide_eq_true hequal ▸ List.mem_map_of_mem hrow)

/-- A document has no posting for a term exactly if it does not list it. -/
theorem Takes.postingsOf_eq_nil_iff (h : index.Takes offer) :
    offer.postingsOf term = [] ↔ term ∉ offer.document.terms := by
  rcases h.postingsOf term with ⟨hnot, hnil⟩ | ⟨row, -, -, hlisted, hone⟩
  · simp [hnot, hnil]
  · simp [hlisted, hone]

/-- The postings of a term are those of the documents that list it, in their order. -/
theorem forall₂_postingsOf (htakes : ∀ offer ∈ offers, ∃ before : InvertedIndex, before.Takes offer)
    (hlength : ∀ posting ∈ offers.flatMap (·.postingsOf term),
      posting.offsets.length < UInt32.size) :
    List.Forall₂ (Posts term) (offers.flatMap (·.postingsOf term))
      (offers.filter (term ∈ ·.document.terms)) := by
  induction offers with
  | nil => exact .nil
  | cons offer offers ih =>
      rw [List.forall_mem_cons] at htakes
      obtain ⟨before, htake⟩ := htakes.1
      rw [List.flatMap_cons, List.forall_mem_append] at hlength
      rw [List.flatMap_cons]
      have hrest := ih htakes.2 hlength.2
      rcases htake.postingsOf term with ⟨hnot, hnil⟩ | ⟨row, hrow, rfl, hlisted, hone⟩
      · rw [hnil, List.nil_append, List.filter_cons_of_neg (by simpa using hnot)]
        exact hrest
      · rw [hone, List.forall_mem_singleton] at hlength
        rw [hone, List.singleton_append, List.filter_cons_of_pos (by simpa using hlisted)]
        exact .cons ⟨rfl, UInt32.toNat_ofNat_of_lt' hlength.1, hrow⟩ hrest

/-- An index is the fold of the documents that it accepts. Of documents offered in any way those
are accepted that can be added, the others leave the index as it was, and in the end the list of
a term reads back to one posting for each accepted document that lists the term, in their order;
a term that none of them lists has no list. -/
theorem fold_accepted (span : SkipSpan) (offers : List Offer)
    (hfits : ((empty span).offerAll offers).Fits) :
    (∀ before offer after, offers = before ++ offer :: after →
      ((((empty span).offerAll before).add offer.docId offer.document).1 = .ok () ↔
        ((empty span).offerAll before).Takes offer) ∧
      ∀ error, (((empty span).offerAll before).add offer.docId offer.document).1 = .error error →
        (((empty span).offerAll before).add offer.docId offer.document).2 =
          (empty span).offerAll before) ∧
    ∀ term,
      (((empty span).offerAll offers).get? term = none ↔
        ∀ offer ∈ (empty span).accepted offers, term ∉ offer.document.terms) ∧
      ∀ list, ((empty span).offerAll offers).get? term = some list →
        ∃ postings, list.postings = .ok postings ∧
          List.Forall₂ (Posts term) postings
            (((empty span).accepted offers).filter (term ∈ ·.document.terms)) := by
  refine ⟨?_, ?_⟩
  · rintro before offer after rfl
    rw [offerAll_append, offerAll] at hfits
    exact add_of_fits hfits.of_offerAll
  · intro term
    have hholds := (holds_empty span).offerAll hfits
    simp only [List.nil_append] at hholds
    have htakes : ∀ offer ∈ (empty span).accepted offers, ∃ before : InvertedIndex,
        before.Takes offer := fun _ => exists_takes_of_mem_accepted
    constructor
    · rw [hholds.get?_eq_none_iff, List.flatMap_eq_nil_iff]
      refine forall₂_congr fun offer hm => ?_
      obtain ⟨before, htake⟩ := htakes offer hm
      exact htake.postingsOf_eq_nil_iff
    · intro list hget
      obtain ⟨-, headers, hlayout⟩ := hholds.layout hget
      exact ⟨_, hlayout.postings_eq,
        forall₂_postingsOf htakes fun _ hm => (hlayout.lengths_lt hm).1⟩

/-- Offers of which the third lists a term twice, the fourth has an id that is not above that of
the first, and the last has too few rows. -/
def sampleOffers : List Offer :=
  [⟨5, ⟨["a", "b"], [[⟨0, 0⟩], [⟨2, 2⟩]], [[0], [1]]⟩⟩,
    ⟨3, ⟨["c"], [[⟨0, 0⟩]], [[0]]⟩⟩,
    ⟨9, ⟨["b", "b"], [[⟨0, 0⟩], [⟨2, 2⟩]], [[0], [1]]⟩⟩,
    ⟨5, ⟨["a"], [[⟨0, 0⟩]], [[0]]⟩⟩,
    ⟨7, ⟨["c", "b"], [[], [⟨0, 3⟩]], [[4, 4], [2]]⟩⟩,
    ⟨8, ⟨["a"], [], []⟩⟩]

/-- Three of six documents are accepted, and two of these have the term. -/
theorem fold_accepted_six :
    ((empty .default).offerAll sampleOffers).Fits ∧
      ((empty .default).accepted sampleOffers).map (·.docId) = [5, 3, 7] ∧
      ∃ list postings, ((empty .default).offerAll sampleOffers).get? "b" = some list ∧
        list.postings = .ok postings ∧ postings.map (·.docId) = [5, 7] := by
  have hfits : ((empty .default).offerAll sampleOffers).Fits := fits_of_all (by decide +kernel)
  obtain ⟨hnone, hsome⟩ := (fold_accepted .default sampleOffers hfits).2 "b"
  refine ⟨hfits, by decide +kernel, ?_⟩
  cases hget : ((empty .default).offerAll sampleOffers).get? "b" with
  | none => exact absurd (hnone.1 hget) (by decide +kernel)
  | some list =>
      obtain ⟨postings, hpostings, hposts⟩ := hsome list hget
      refine ⟨list, postings, rfl, hpostings, ?_⟩
      have hdocIds : postings.map (·.docId) =
          (((empty .default).accepted sampleOffers).filter ("b" ∈ ·.document.terms)).map
            (·.docId) := by
        rw [← List.forall₂_eq_eq_eq, List.forall₂_map_left_iff, List.forall₂_map_right_iff]
        exact hposts.imp fun _ _ => Posts.docId_eq
      rw [hdocIds]
      decide +kernel

end InvertedIndex

end Concordance
