import Concordance.Proofs.Offers

/-!
# Grouping tokens by their terms loses nothing

The document of a text has a row for each term, in the order in which the terms first occur,
and the rows together hold each token once, so that the tokens come back when the rows are
merged by position. Such a document is accepted under every id that is above those of the
lists. It is also what tokens come to that are put into the rows of their terms one by one.
-/

namespace Concordance

open scoped List

/-- No two tokens have the same position. -/
theorem Tokenizer.eq_of_position_eq {tokenizer : Tokenizer} {text : String} {a b : Token}
    (h : text.utf8ByteSize < UInt32.size) (ha : a ∈ tokenizer.tokens text)
    (hb : b ∈ tokenizer.tokens text) (heq : a.position = b.position) : a = b := by
  obtain ⟨i, hi⟩ := List.mem_iff_getElem?.1 ha
  obtain ⟨j, hj⟩ := List.mem_iff_getElem?.1 hb
  have hindex : i = j := by rw [← toNat_position h hi, ← toNat_position h hj, heq]
  rw [hindex, hj, Option.some.injEq] at hi
  exact hi.symm

namespace Document
variable {tokenizer : Tokenizer} {text term : String} {tokens : List Token}

/-- The document with one more token, in the row of its term or in a new row at the end. -/
def push (document : Document) (token : Token) : Document :=
  if token.text ∈ document.terms then
    { document with
      offsets := document.offsets.modify (document.terms.idxOf token.text) (· ++ [token.span])
      positions :=
        document.positions.modify (document.terms.idxOf token.text) (· ++ [token.position]) }
  else
    { terms := document.terms ++ [token.text]
      offsets := document.offsets ++ [[token.span]]
      positions := document.positions ++ [[token.position]] }

theorem termsOf_concat (tokens : List Token) (token : Token) :
    termsOf (tokens ++ [token]) =
      if token.text ∈ termsOf tokens then termsOf tokens else termsOf tokens ++ [token.text] := by
  simp only [termsOf, List.map_append, List.map_singleton, List.eraseDups_append,
    List.mem_eraseDups, List.removeAll]
  by_cases hmem : token.text ∈ tokens.map (·.text)
  · rw [if_pos hmem, List.filter_cons_of_neg (by simpa using hmem)]
    exact List.append_nil _
  · rw [if_neg hmem, List.filter_cons_of_pos (by simpa using hmem)]
    rfl

theorem map_occurrencesOf_concat {β : Type} (f : Token → β) (tokens : List Token) (token : Token)
    (term : String) : (occurrencesOf term (tokens ++ [token])).map f =
      if token.text = term then (occurrencesOf term tokens).map f ++ [f token]
      else (occurrencesOf term tokens).map f := by
  rw [occurrencesOf, occurrencesOf, List.filter_append, List.map_append]
  by_cases heq : token.text = term
  · rw [if_pos heq, List.filter_cons_of_pos (by simpa using heq), List.filter_nil,
      List.map_singleton]
  · rw [if_neg heq, List.filter_cons_of_neg (by simpa using heq), List.filter_nil, List.map_nil,
      List.append_nil]

theorem occurrencesOf_eq_nil (h : term ∉ termsOf tokens) : occurrencesOf term tokens = [] := by
  rw [List.eq_nil_iff_forall_not_mem]
  intro token hm
  obtain ⟨hm, hterm⟩ := mem_occurrencesOf.1 hm
  exact h (mem_termsOf.2 ⟨token, hm, hterm⟩)

/-- A column of a document, with the entry of one more token. -/
theorem column_concat {β : Type} (f : Token → β) (tokens : List Token) (token : Token) :
    ((termsOf (tokens ++ [token])).map fun term =>
        (occurrencesOf term (tokens ++ [token])).map f) =
      if token.text ∈ termsOf tokens then
        ((termsOf tokens).map fun term => (occurrencesOf term tokens).map f).modify
          ((termsOf tokens).idxOf token.text) (· ++ [f token])
      else ((termsOf tokens).map fun term => (occurrencesOf term tokens).map f) ++ [[f token]] := by
  simp only [termsOf_concat, map_occurrencesOf_concat]
  split
  · next hmem => exact Sequences.map_ite_eq_modify (nodup_termsOf tokens) hmem _ (· ++ [f token])
  · next hmem =>
      rw [List.map_append, List.map_singleton, if_pos rfl, occurrencesOf_eq_nil hmem]
      congr 1
      apply List.map_congr_left
      intro term hterm
      rw [if_neg (ne_of_mem_of_not_mem hterm hmem).symm]

/-- One more token goes into the row of its term. -/
theorem ofTokens_concat (tokens : List Token) (token : Token) :
    ofTokens (tokens ++ [token]) = (ofTokens tokens).push token := by
  rw [ofTokens, column_concat, column_concat, termsOf_concat]
  by_cases hmem : token.text ∈ termsOf tokens
  · rw [if_pos hmem, if_pos hmem, if_pos hmem]
    exact (if_pos hmem).symm
  · rw [if_neg hmem, if_neg hmem, if_neg hmem]
    exact (if_neg hmem).symm

theorem foldl_push (tokens more : List Token) :
    more.foldl push (ofTokens tokens) = ofTokens (tokens ++ more) := by
  induction more generalizing tokens with
  | nil => rw [List.foldl_nil, List.append_nil]
  | cons token more ih =>
      rw [List.foldl_cons, ← ofTokens_concat, ih, List.append_assoc, List.singleton_append]

/-- The document of tokens is what they come to when they are put into their rows one by one. -/
theorem ofTokens_eq_foldl (tokens : List Token) :
    ofTokens tokens = tokens.foldl push ⟨[], [], []⟩ :=
  (foldl_push [] tokens).symm

/-- The occurrences in a row, each as the token that it is of. -/
def rowTokens (row : String × List Span × List UInt32) : List Token :=
  List.zipWith (fun span position => ⟨row.1, position, span.start, span.stop⟩) row.2.1 row.2.2

/-- The occurrences in all rows, row by row. -/
def occurrences (document : Document) : List Token := document.rows.flatMap rowTokens

/-- The document holds these tokens, grouped by their terms. -/
structure Groups (document : Document) (tokens : List Token) : Prop where
  nodup : document.terms.Nodup
  mem_terms_iff : ∀ term, term ∈ document.terms ↔ ∃ token ∈ tokens, token.text = term
  ordered : document.terms.Pairwise fun term other =>
    (tokens.map (·.text)).idxOf term < (tokens.map (·.text)).idxOf other
  length_offsets : document.offsets.length = document.terms.length
  length_positions : document.positions.length = document.terms.length
  length_row : ∀ row ∈ document.rows, row.2.1.length = row.2.2.length ∧ 0 < row.2.2.length
  merged : document.occurrences.mergeSort (fun a b => a.position ≤ b.position) = tokens
  positions : tokens.map (·.position.toNat) = List.range document.length.toNat

theorem rowTokens_occurrencesOf (term : String) (tokens : List Token) :
    rowTokens (term, (occurrencesOf term tokens).map Token.span,
      (occurrencesOf term tokens).map Token.position) = occurrencesOf term tokens := by
  rw [rowTokens, List.zipWith_map, List.zipWith_self]
  calc
    _ = (occurrencesOf term tokens).map id := by
      apply List.map_congr_left
      intro token hm
      obtain ⟨-, rfl⟩ := mem_occurrencesOf.1 hm
      rfl
    _ = occurrencesOf term tokens := List.map_id _

theorem occurrences_ofTokens (tokens : List Token) :
    (ofTokens tokens).occurrences = (termsOf tokens).flatMap (occurrencesOf · tokens) := by
  rw [occurrences, rows_ofTokens, List.flatMap_map]
  simp only [rowTokens_occurrencesOf]

/-- The rows hold each token once. -/
theorem occurrences_ofTokens_perm (tokens : List Token) :
    (ofTokens tokens).occurrences ~ tokens := by
  have hall : tokens.filter (·.text ∈ termsOf tokens) = tokens := by
    rw [List.filter_eq_self]
    intro token hm
    rw [decide_eq_true_eq]
    exact mem_termsOf.2 ⟨token, hm, rfl⟩
  calc
    (ofTokens tokens).occurrences = (termsOf tokens).flatMap (occurrencesOf · tokens) :=
      occurrences_ofTokens tokens
    _ ~ tokens.filter (·.text ∈ termsOf tokens) :=
      Sequences.flatMap_filter_perm (nodup_termsOf tokens) tokens
    _ = tokens := hall

theorem length_ofTokens (tokens : List Token) :
    (ofTokens tokens).length = tokens.length.toUInt32 := by
  have hcolumn : (ofTokens tokens).offsets.flatten =
      (ofTokens tokens).occurrences.map Token.span := by
    rw [occurrences_ofTokens, List.map_flatMap, List.flatMap_def, ofTokens]
  rw [length, hcolumn, List.length_map, (occurrences_ofTokens_perm tokens).length_eq]

/-- Merged by position, the rows of the document of a text are its tokens. -/
theorem mergeSort_occurrences (h : text.utf8ByteSize < UInt32.size) :
    (ofText tokenizer text).occurrences.mergeSort (fun a b => a.position ≤ b.position) =
      tokenizer.tokens text := by
  have hsorted : ((ofText tokenizer text).occurrences.mergeSort fun a b =>
      a.position ≤ b.position).Pairwise fun a b => decide (a.position ≤ b.position) = true := by
    apply List.pairwise_mergeSort
    · intro a b c hab hbc
      rw [decide_eq_true_eq] at hab hbc ⊢
      exact UInt32.le_trans hab hbc
    · intro a b
      rw [Bool.or_eq_true, decide_eq_true_eq, decide_eq_true_eq]
      exact UInt32.le_total _ _
  have hordered : (tokenizer.tokens text).Pairwise fun a b =>
      decide (a.position ≤ b.position) = true := by
    apply (Tokenizer.tokens_ordered tokenizer h).imp
    intro a b hlt
    rw [decide_eq_true_eq]
    exact UInt32.le_of_lt hlt.2
  have hperm := (List.mergeSort_perm (ofText tokenizer text).occurrences
    (fun a b => a.position ≤ b.position)).trans (occurrences_ofTokens_perm _)
  apply List.Perm.eq_of_pairwise _ hsorted hordered hperm
  intro a b ha hb hab hba
  rw [decide_eq_true_eq] at hab hba
  exact Tokenizer.eq_of_position_eq h (hperm.mem_iff.1 ha) hb (UInt32.le_antisymm hab hba)

/-- The positions number the tokens of a text. -/
theorem map_position_eq_range (h : text.utf8ByteSize < UInt32.size) :
    (tokenizer.tokens text).map (·.position.toNat) =
      List.range (ofText tokenizer text).length.toNat := by
  have hle := Tokenizer.length_tokens_le tokenizer text
  have hlength : (ofText tokenizer text).length.toNat = (tokenizer.tokens text).length := by
    rw [ofText, length_ofTokens]
    exact UInt32.toNat_ofNat_of_lt' (by omega)
  apply List.ext_getElem
  · rw [List.length_map, List.length_range, hlength]
  · intro i hi _
    rw [List.length_map] at hi
    rw [List.getElem_map, List.getElem_range]
    exact Tokenizer.toNat_position h (List.getElem?_eq_getElem hi)

theorem groups_ofText (h : text.utf8ByteSize < UInt32.size) :
    (ofText tokenizer text).Groups (tokenizer.tokens text) where
  nodup := nodup_termsOf _
  mem_terms_iff _ := mem_termsOf
  ordered := termsOf_ordered _
  length_offsets := List.length_map ..
  length_positions := List.length_map ..
  length_row := by
    intro row hrow
    obtain ⟨term, hterm, rfl⟩ := mem_rows_ofTokens.1 hrow
    obtain ⟨token, hm, htext⟩ := mem_termsOf.1 hterm
    rw [List.length_map, List.length_map]
    exact ⟨rfl, List.length_pos_of_mem (mem_occurrencesOf.2 ⟨hm, htext⟩)⟩
  merged := mergeSort_occurrences h
  positions := map_position_eq_range h

end Document

namespace InvertedIndex
variable {index : InvertedIndex} {offer : Offer} {tokenizer : Tokenizer} {text : String}
  {docId : UInt32}

theorem add_of_takes (h : index.Takes offer) (hfits : index.Fits) :
    (index.add offer.docId offer.document).1 = .ok () := by
  obtain ⟨postings, hpostings⟩ := takes_iff.1 h
  have hadds := index.adds offer.docId offer.document
  generalize index.add offer.docId offer.document = result at hadds
  cases hadds with
  | refused hrefusal =>
      rw [hpostings] at hrefusal
      cases hrefusal
  | full hfull => exact absurd hfits hfull
  | appended => rfl

/-- The document of a text is taken under an id above those of all lists. -/
theorem takes_ofText (h : text.utf8ByteSize < UInt32.size)
    (habove : ∀ term list, index.get? term = some list → 0 < list.size → list.lastDocId < docId) :
    index.Takes ⟨docId, .ofText tokenizer text⟩ where
  length_offsets := (List.length_map ..).symm
  length_positions := (List.length_map ..).symm
  check _ hrow := check_rowPosting h docId hrow
  nodup := Document.nodup_termsOf _
  lastDocId_lt term _ := habove term

end InvertedIndex

namespace Document
variable {tokenizer : Tokenizer} {text : String}

/-- The document of a text whose bytes can be numbered with 32 bits holds the tokens of the text,
grouped by their terms; none of its rows is refused, whatever the id; and an index that has room
accepts it under every id above those of all its lists. -/
theorem ofText_lossless (h : text.utf8ByteSize < UInt32.size) :
    (ofText tokenizer text).Groups (tokenizer.tokens text) ∧
    (∀ docId, ∀ row ∈ (ofText tokenizer text).rows,
      (InvertedIndex.rowPosting docId row).2.check = .ok ()) ∧
    ∀ (index : InvertedIndex) (docId : UInt32), index.Fits →
      (∀ term list, index.get? term = some list → 0 < list.size → list.lastDocId < docId) →
      (index.add docId (ofText tokenizer text)).1 = .ok () := by
  refine ⟨groups_ofText h, ?_, ?_⟩
  · intro docId row hrow
    exact check_rowPosting h docId hrow
  · intro index docId hfits habove
    exact InvertedIndex.add_of_takes (InvertedIndex.takes_ofText h habove) hfits

/-- An index in which one document lists a term of the next one. -/
def listedOnce : InvertedIndex := ((InvertedIndex.empty .default).add 4 (ofText .default "c")).2

/-- Two spellings of a term, with another term between them that the index lists already. -/
theorem ofText_lossless_spellings :
    "Ab c aB".utf8ByteSize < UInt32.size ∧
    ofText .default "Ab c aB" =
      ⟨["ab", "c"], [[⟨0, 1⟩, ⟨5, 6⟩], [⟨3, 3⟩]], [[0, 2], [1]]⟩ ∧
    (ofText .default "Ab c aB").occurrences.mergeSort (fun a b => a.position ≤ b.position) =
      Tokenizer.default.tokens "Ab c aB" ∧
    listedOnce.Fits ∧
    (∀ term list, listedOnce.get? term = some list → 0 < list.size → list.lastDocId < 5) ∧
    (listedOnce.add 5 (ofText .default "Ab c aB")).1 = .ok () := by
  have hsize : "Ab c aB".utf8ByteSize < UInt32.size := by decide +kernel
  have hfits : listedOnce.Fits := InvertedIndex.fits_of_all (by decide +kernel)
  have habove : ∀ term list, listedOnce.get? term = some list → 0 < list.size →
      list.lastDocId < 5 := by
    intro term list hget _
    exact of_decide_eq_true
      (InvertedIndex.forall_get?_of_all (·.lastDocId < 5) (by decide +kernel) hget)
  exact ⟨hsize, by decide +kernel, (ofText_lossless hsize).1.merged, hfits, habove,
    (ofText_lossless hsize).2.2 listedOnce 5 hfits habove⟩

end Document

end Concordance
