import Concordance.Engine
import Concordance.Proofs.Hit
import Concordance.Proofs.InvertedIndex

/-!
# What a collection of texts says about a query

Texts are numbered from zero on, and each gives every term that it holds a posting
under its number. The columns of these postings are the texts that hold all terms of
a query, and a phrase is found in the positions of a column exactly if its terms are
those of neighbouring tokens.
-/

namespace Concordance

open Sequences Conjunction Document

/-- A text with these tokens answers a query of normalized terms: it holds all of them, those
of a phrase of several terms in neighbouring tokens. -/
def Query.Selects (query : Query) (tokens : List Token) : Prop :=
  if query.isPhrase = true ∧ 1 < query.terms.length then
    ∃ start, ∀ (i : Nat) term, query.terms[i]? = some term →
      tokens[start + i]?.map (·.text) = some term
  else ∀ term ∈ query.terms, ∃ token ∈ tokens, token.text = term

/-- The postings of a term in texts that are numbered from zero on. -/
def postingsOf (tokenizer : Tokenizer) (texts : List String) (term : String) : List Posting :=
  texts.zipIdx.filterMap fun (text, number) =>
    if term ∈ termsOf (tokenizer.tokens text) then
      some (posting number.toUInt32 (tokenizer.tokens text) term)
    else none

variable {tokenizer : Tokenizer} {texts : List String} {text term : String} {docId : UInt32}
  {terms : List String} {column : List Posting}

theorem postingsOf_append (tokenizer : Tokenizer) (texts : List String) (text term : String) :
    postingsOf tokenizer (texts ++ [text]) term = postingsOf tokenizer texts term ++
      if term ∈ termsOf (tokenizer.tokens text) then
        [posting texts.length.toUInt32 (tokenizer.tokens text) term]
      else [] := by
  rw [postingsOf, List.zipIdx_append, List.filterMap_append, ← postingsOf]
  congr 1
  split <;> simp [*]

theorem rows_map_rowPosting (docId : UInt32) (tokens : List Token) :
    (ofTokens tokens).rows.map (InvertedIndex.rowPosting docId) =
      (termsOf tokens).map fun term => (term, posting docId tokens term) := by
  rw [rows_ofTokens, List.map_map]
  apply List.map_congr_left
  intro term _
  simp only [Function.comp_apply, InvertedIndex.rowPosting, posting, List.length_map]

/-- No row of the document of a text is refused. -/
theorem check_rowPosting (hbytes : text.utf8ByteSize < UInt32.size) (docId : UInt32)
    {row : String × List Span × List UInt32} (hrow : row ∈ (ofText tokenizer text).rows) :
    (InvertedIndex.rowPosting docId row).2.check = .ok () := by
  obtain ⟨term, -, rfl⟩ := mem_rows_ofTokens.1 hrow
  rw [← check_posting hbytes docId term, InvertedIndex.rowPosting, posting, List.length_map]

theorem map_filter_of_nodup {f : String → Posting} (h : terms.Nodup) :
    ((terms.map fun other => (other, f other)).filter (·.1 = term)).map (·.2) =
      if term ∈ terms then [f term] else [] := by
  induction terms with
  | nil => rfl
  | cons first terms ih =>
      rw [List.nodup_cons] at h
      by_cases heq : first = term
      · subst heq
        have hnone := ih h.2
        rw [if_neg h.1] at hnone
        simp [hnone]
      · simp [heq, ih h.2, eq_comm (a := term)]

/-- The postings of a text that comes behind are those of its document's rows. -/
theorem extend_postingsOf (tokenizer : Tokenizer) (texts : List String) (text : String) :
    InvertedIndex.extend (postingsOf tokenizer texts)
        ((ofText tokenizer text).rows.map
          (InvertedIndex.rowPosting texts.length.toUInt32)) =
      postingsOf tokenizer (texts ++ [text]) := by
  ext term : 1
  rw [postingsOf_append, InvertedIndex.extend, ofText, rows_map_rowPosting,
    map_filter_of_nodup (nodup_termsOf _)]

theorem mem_postingsOf {p : Posting} : p ∈ postingsOf tokenizer texts term ↔
    ∃ (number : Nat) (text : String), texts[number]? = some text ∧
      term ∈ termsOf (tokenizer.tokens text) ∧
      p = posting number.toUInt32 (tokenizer.tokens text) term := by
  rw [postingsOf, List.mem_filterMap]
  constructor
  · rintro ⟨⟨text, number⟩, hm, hp⟩
    rw [Option.ite_none_right_eq_some] at hp
    exact ⟨number, text, List.mem_zipIdx_iff_getElem?.1 hm, hp.1, (Option.some.inj hp.2).symm⟩
  · rintro ⟨number, text, htext, hterm, rfl⟩
    exact ⟨(text, number), List.mem_zipIdx_iff_getElem?.2 htext, if_pos hterm⟩

theorem docId_lt_of_mem_postingsOf (hlength : texts.length < UInt32.size) {p : Posting}
    (h : p ∈ postingsOf tokenizer texts term) : p.docId.toNat < texts.length := by
  obtain ⟨number, text, htext, -, rfl⟩ := mem_postingsOf.1 h
  have hlt := (List.getElem?_eq_some_iff.1 htext).1
  have hnumber : number.toUInt32.toNat = number := UInt32.toNat_ofNat_of_lt' (by omega)
  rw [posting, hnumber]
  exact hlt

/-- A posting of a document is that of its text. -/
theorem mem_postingsOf_and_docId_iff (hlength : texts.length < UInt32.size) {p : Posting} :
    p ∈ postingsOf tokenizer texts term ∧ p.docId = docId ↔
      ∃ text, texts[docId.toNat]? = some text ∧ term ∈ termsOf (tokenizer.tokens text) ∧
        p = posting docId (tokenizer.tokens text) term := by
  rw [mem_postingsOf]
  constructor
  · rintro ⟨⟨number, text, htext, hterm, rfl⟩, rfl⟩
    have hlt := (List.getElem?_eq_some_iff.1 htext).1
    have hnumber : number.toUInt32.toNat = number := UInt32.toNat_ofNat_of_lt' (by omega)
    refine ⟨text, ?_, hterm, rfl⟩
    rw [posting, hnumber, htext]
  · rintro ⟨text, htext, hterm, rfl⟩
    refine ⟨⟨docId.toNat, text, htext, hterm, ?_⟩, rfl⟩
    rw [Nat.toUInt32_eq, UInt32.ofNat_toNat]

/-- The texts that hold all terms are those with a column. -/
theorem column_postingsOf_iff (hlength : texts.length < UInt32.size) (hne : terms ≠ []) :
    Column docId (terms.map (postingsOf tokenizer texts)) column ↔
      ∃ text, texts[docId.toNat]? = some text ∧
        (∀ term ∈ terms, term ∈ termsOf (tokenizer.tokens text)) ∧
        column = terms.map (posting docId (tokenizer.tokens text)) := by
  simp only [Column, List.forall₂_map_left_iff, mem_postingsOf_and_docId_iff hlength]
  constructor
  · intro h
    obtain ⟨first, rest, rfl⟩ := List.exists_cons_of_ne_nil hne
    obtain ⟨p, column, ⟨text, htext, -, -⟩, -, -⟩ := List.forall₂_cons_left_iff.1 h
    refine ⟨text, htext, ?_⟩
    apply forall₂_eq_map_iff.1
    apply h.imp
    intro term p hp
    obtain ⟨other, hother, hterm, hp⟩ := hp
    rw [htext] at hother
    cases hother
    exact ⟨hterm, hp⟩
  · rintro ⟨text, htext, hcolumn⟩
    apply (forall₂_eq_map_iff.2 hcolumn).imp
    intro term p hp
    exact ⟨text, htext, hp.1, hp.2⟩

/-- A term stands at a position if it is the text of the token of that number. -/
theorem exists_position_iff (hbytes : text.utf8ByteSize < UInt32.size) {place : Nat} :
    (∃ value ∈ (posting docId (tokenizer.tokens text) term).positions, value.toNat = place) ↔
      (tokenizer.tokens text)[place]?.map (·.text) = some term := by
  simp only [posting, List.mem_map, mem_occurrencesOf, Option.map_eq_some_iff]
  constructor
  · rintro ⟨-, ⟨token, ⟨hm, hterm⟩, rfl⟩, hplace⟩
    obtain ⟨i, hi⟩ := List.mem_iff_getElem?.1 hm
    rw [Tokenizer.toNat_position hbytes hi] at hplace
    exact ⟨token, hplace ▸ hi, hterm⟩
  · rintro ⟨token, hi, hterm⟩
    exact ⟨token.position, ⟨token, ⟨List.mem_of_getElem? hi, hterm⟩, rfl⟩,
      Tokenizer.toNat_position hbytes hi⟩

theorem positions_ordered (hbytes : text.utf8ByteSize < UInt32.size) (docId : UInt32)
    (term : String) :
    (posting docId (tokenizer.tokens text) term).positions.Pairwise (· ≤ ·) :=
  (Posting.checkPositions_eq_ok_iff.1
    (Posting.check_eq_ok_iff.1 (check_posting hbytes docId term)).2).2

/-- The positions of terms in a text hold a phrase exactly if the terms are those of
neighbouring tokens. -/
theorem table_isEmpty_iff (hbytes : text.utf8ByteSize < UInt32.size) (hne : terms ≠ []) :
    (Phrase.table ((terms.map (posting docId (tokenizer.tokens text))).map
        (·.positions))).isEmpty = false ↔
      ∃ start, ∀ (i : Nat) term, terms[i]? = some term →
        (tokenizer.tokens text)[start + i]?.map (·.text) = some term := by
  rw [Phrase.table_isEmpty_iff (by simpa using hne)
    (by simpa using fun term _ => positions_ordered hbytes docId term)]
  simp only [List.getElem?_map, Option.map_map, Option.map_eq_some_iff, Function.comp_apply,
    forall_exists_index, and_imp, forall_apply_eq_imp_iff₂, exists_position_iff hbytes]

/-- The columns that a retrieval selects are those of the texts that answer its query. -/
theorem selects_iff (docId : UInt32) (hbytes : text.utf8ByteSize < UInt32.size)
    {retrieval : Retrieval} {query : Query} (hphrase : retrieval.isPhrase = query.isPhrase)
    (hne : query.terms ≠ []) :
    (∀ term ∈ query.terms, term ∈ termsOf (tokenizer.tokens text)) ∧
        retrieval.selects (query.terms.map (posting docId (tokenizer.tokens text))) = true ↔
      query.Selects (tokenizer.tokens text) := by
  rw [Retrieval.selects_iff, List.length_map, hphrase, table_isEmpty_iff hbytes hne, Query.Selects]
  simp only [mem_termsOf]
  split
  · next hactive =>
      constructor
      · rintro ⟨-, hstart⟩
        exact hstart hactive.1 hactive.2
      · rintro ⟨start, hstart⟩
        constructor
        · intro term hm
          obtain ⟨i, hi⟩ := List.mem_iff_getElem?.1 hm
          obtain ⟨token, htoken, htext⟩ := Option.map_eq_some_iff.1 (hstart i term hi)
          exact ⟨token, List.mem_of_getElem? htoken, htext⟩
        · intro _ _
          exact ⟨start, hstart⟩
  · next hinactive =>
      constructor
      · exact And.left
      · intro h
        refine ⟨h, ?_⟩
        intro hp hlt
        exact absurd ⟨hp, hlt⟩ hinactive

/-- The documents with a selected column are the texts that answer the query. -/
theorem exists_selected_iff (tokenizer : Tokenizer) (docId : UInt32)
    (hlength : texts.length < UInt32.size)
    (hbytes : ∀ text ∈ texts, text.utf8ByteSize < UInt32.size) (retrieval : Retrieval)
    (query : Query) (hphrase : retrieval.isPhrase = query.isPhrase) (hne : query.terms ≠ []) :
    (∃ column, Column docId (query.terms.map (postingsOf tokenizer texts)) column ∧
        retrieval.selects column = true) ↔
      ∃ text, texts[docId.toNat]? = some text ∧ query.Selects (tokenizer.tokens text) := by
  simp only [column_postingsOf_iff hlength hne]
  constructor
  · rintro ⟨-, ⟨text, htext, hall, rfl⟩, hselects⟩
    have htextBytes := hbytes text (List.mem_of_getElem? htext)
    exact ⟨text, htext, (selects_iff docId htextBytes hphrase hne).1 ⟨hall, hselects⟩⟩
  · rintro ⟨text, htext, hselects⟩
    have htextBytes := hbytes text (List.mem_of_getElem? htext)
    obtain ⟨hall, hselects⟩ := (selects_iff docId htextBytes hphrase hne).2 hselects
    exact ⟨_, ⟨text, htext, hall, rfl⟩, hselects⟩

/-- Postings of texts have an offset pair for each position. -/
theorem length_positions_of_column (hlength : texts.length < UInt32.size) (hne : terms ≠ [])
    (h : Column docId (terms.map (postingsOf tokenizer texts)) column) :
    ∀ p ∈ column, p.positions.length ≤ p.offsets.length := by
  obtain ⟨text, -, -, rfl⟩ := (column_postingsOf_iff hlength hne).1 h
  intro p hp
  obtain ⟨term, -, rfl⟩ := List.mem_map.1 hp
  simp [posting]

end Concordance
