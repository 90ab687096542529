import Concordance.Document
import Concordance.Proofs.Posting
import Concordance.Proofs.Sequences
import Concordance.Proofs.Token

/-!
# Documents of texts can be indexed

The document of a text has each of its terms once, in the order in which they first
occur, and the occurrences of a term are in the order of the text: `Posting.check` refuses
none of its rows.
-/

namespace Concordance.Document
variable {tokens : List Token} {term : String}

theorem termsOf_ordered (tokens : List Token) : (termsOf tokens).Pairwise fun term other =>
    (tokens.map (·.text)).idxOf term < (tokens.map (·.text)).idxOf other :=
  Sequences.pairwise_idxOf_eraseDups _

theorem nodup_termsOf (tokens : List Token) : (termsOf tokens).Nodup := by
  apply (termsOf_ordered tokens).imp
  rintro term _ hlt rfl
  exact Nat.lt_irrefl _ hlt

theorem mem_termsOf : term ∈ termsOf tokens ↔ ∃ token ∈ tokens, token.text = term := by
  rw [termsOf, List.mem_eraseDups, List.mem_map]

theorem mem_occurrencesOf {token : Token} :
    token ∈ occurrencesOf term tokens ↔ token ∈ tokens ∧ token.text = term := by
  rw [occurrencesOf, List.mem_filter, decide_eq_true_eq]

/-- The posting of a term in the document of these tokens. -/
def posting (docId : UInt32) (tokens : List Token) (term : String) : Posting where
  docId
  termFreq := (occurrencesOf term tokens).length.toUInt32
  offsets := (occurrencesOf term tokens).map Token.span
  positions := (occurrencesOf term tokens).map Token.position

/-- The posting of a term in a text is in order. -/
theorem check_posting {tokenizer : Tokenizer} {text : String}
    (h : text.utf8ByteSize < UInt32.size) (docId : UInt32) (term : String) :
    (posting docId (tokenizer.tokens text) term).check = .ok () := by
  have hordered := (Tokenizer.tokens_ordered tokenizer h).filter (·.text = term)
  rw [Posting.check_eq_ok_iff, Posting.checkOffsets_eq_ok_iff, Posting.checkPositions_eq_ok_iff]
  refine ⟨⟨?_, ?_⟩, ?_, ?_⟩
  · intro pair hm
    obtain ⟨token, htoken, rfl⟩ := List.mem_map.1 hm
    exact ⟨UInt32.zero_le, Tokenizer.start_le_stop h (mem_occurrencesOf.1 htoken).1⟩
  · apply List.pairwise_map.mpr
    apply hordered.imp
    intro token other hlt
    exact UInt32.le_of_lt hlt.1
  · intro position hm
    exact UInt32.zero_le
  · apply List.pairwise_map.mpr
    apply hordered.imp
    intro token other hlt
    exact UInt32.le_of_lt hlt.2

/-- The rows of a document, term by term. -/
def rows (document : Document) : List (String × List Span × List UInt32) :=
  document.terms.zip (document.offsets.zip document.positions)

theorem rows_ofTokens (tokens : List Token) :
    (ofTokens tokens).rows = (termsOf tokens).map fun term =>
      (term, (occurrencesOf term tokens).map Token.span,
        (occurrencesOf term tokens).map Token.position) := by
  simp only [rows, ofTokens]
  generalize termsOf tokens = terms
  induction terms with
  | nil => rfl
  | cons term terms ih => simp only [List.map_cons, List.zip_cons_cons, ih]

theorem mem_rows_ofTokens {row : String × List Span × List UInt32} :
    row ∈ (ofTokens tokens).rows ↔ ∃ term ∈ termsOf tokens,
      (term, (occurrencesOf term tokens).map Token.span,
        (occurrencesOf term tokens).map Token.position) = row := by
  rw [rows_ofTokens, List.mem_map]

end Concordance.Document
