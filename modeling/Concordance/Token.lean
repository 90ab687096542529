import Concordance.Text.Alphanumeric
import Concordance.Text.Casing

/-!
# Tokens

A token is a longest run of alphanumeric characters and underscores in a text. A
tokenizer keeps the runs whose number of characters is in its range, numbers those
it keeps, and writes them in lower case unless it is case-sensitive. A token knows
the first and the last of its bytes in the text.
-/

namespace Concordance

structure Token where
  text : String
  position : UInt32
  start : UInt32
  stop : UInt32
  deriving DecidableEq, Repr

/-- A run of token characters that starts `offset` bytes into the text. -/
structure Run where
  offset : Nat
  chars : List Char
  deriving DecidableEq, Repr

namespace Run

/-- The bytes of these characters in a text. -/
def byteCount : List Char → Nat
  | [] => 0
  | char :: chars => char.utf8Size + byteCount chars

def isTokenChar (char : Char) : Bool := Text.isAlphanumeric char || char = '_'

/-- The runs in the characters of a text from `offset` bytes on. -/
def ofChars (offset : Nat) : List Char → List Run
  | [] => []
  | char :: rest =>
    if isTokenChar char then
      let run := char :: rest.takeWhile isTokenChar
      ⟨offset, run⟩ :: ofChars (offset + byteCount run) (rest.dropWhile isTokenChar)
    else ofChars (offset + char.utf8Size) rest
termination_by chars => chars.length
decreasing_by
  · have := (List.dropWhile_suffix (l := rest) isTokenChar).length_le
    simp only [List.length_cons]
    omega
  · simp

/-- The runs of a text. -/
def ofText (text : String) : List Run := ofChars 0 text.toList

end Run

structure Tokenizer where
  caseSensitive : Bool
  minLen : Nat
  maxLen : Nat
  deriving DecidableEq, Repr

namespace Tokenizer

def name : String := "whitespace"

def default : Tokenizer := ⟨false, 1, 64⟩

/-- The form in which terms are compared. -/
def normalize (tokenizer : Tokenizer) (text : String) : String :=
  if tokenizer.caseSensitive then text else Text.lowercase text

/-- The run has a permitted number of characters. -/
def keeps (tokenizer : Tokenizer) (run : Run) : Bool :=
  tokenizer.minLen ≤ run.chars.length && run.chars.length ≤ tokenizer.maxLen

/-- The token of a run, as number `position`. -/
def token (tokenizer : Tokenizer) (position : Nat) (run : Run) : Token where
  text := tokenizer.normalize (String.ofList run.chars)
  position := position.toUInt32
  start := run.offset.toUInt32
  stop := (run.offset + Run.byteCount run.chars - 1).toUInt32

/-- The tokens of a text. -/
def tokens (tokenizer : Tokenizer) (text : String) : List Token :=
  ((Run.ofText text).filter tokenizer.keeps).mapIdx tokenizer.token

end Tokenizer

end Concordance
