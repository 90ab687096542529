import Concordance.Posting
import Concordance.Token

/-!
# Documents

A document is handed to the index as the terms that occur in it, each with a row of
offset pairs and a row of positions. The document of a text has its distinct terms
in the order in which they first occur.
-/

namespace Concordance

structure Document where
  terms : List String
  offsets : List (List Span)
  positions : List (List UInt32)
  deriving DecidableEq, Repr

/-- The bytes of a token. -/
def Token.span (token : Token) : Span := ⟨token.start, token.stop⟩

namespace Document

/-- The number of occurrences, of all terms together. -/
def length (document : Document) : UInt32 := document.offsets.flatten.length.toUInt32

def isEmpty (document : Document) : Bool := document.terms.isEmpty

/-- The distinct texts of tokens, each where it first occurs. -/
def termsOf (tokens : List Token) : List String := (tokens.map (·.text)).eraseDups

/-- The tokens with this text. -/
def occurrencesOf (term : String) (tokens : List Token) : List Token :=
  tokens.filter (·.text = term)

/-- The document of these tokens. -/
def ofTokens (tokens : List Token) : Document where
  terms := termsOf tokens
  offsets := (termsOf tokens).map fun term => (occurrencesOf term tokens).map Token.span
  positions := (termsOf tokens).map fun term => (occurrencesOf term tokens).map Token.position

/-- The document of a text. -/
def ofText (tokenizer : Tokenizer) (text : String) : Document :=
  ofTokens (tokenizer.tokens text)

end Document

end Concordance
