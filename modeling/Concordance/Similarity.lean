import Concordance.Binary64

/-!
# Similarity of a document to a term

A term that few documents hold counts more (`rarity`), and so does one that is
frequent in a document for the document's length (`density`). A term's share of a
score is the product of the two.
-/

namespace Concordance.Similarity

/-- How soon more occurrences stop to count. -/
def saturation : Float := 1.2

/-- How much the length of a document counts. -/
def lengthWeight : Float := 0.75

/-- The weight of a term that `docFreq` of `docCount` documents hold. -/
def rarity (docCount docFreq : Nat) : Float :=
  let all := Float.ofNat docCount
  let holders := Float.ofNat docFreq
  Float.log (1.0 + (all - holders + 0.5) / (holders + 0.5))

/-- The weight of `freq` occurrences in a document of `length` tokens where documents have
`average` tokens. -/
def density (freq length : UInt32) (average : Float) : Float :=
  let count := Float.ofNat freq.toNat
  let relative := 1.0 - lengthWeight + lengthWeight * Float.ofNat length.toNat / average
  (count * (saturation + 1.0)) / (count + saturation * relative)

/-- A term's share of the score of a document. -/
def share (rarity : Float) (freq length : UInt32) (average : Float) : Float :=
  rarity * density freq length average

/-- The shares summed in order. Without any the sum is a negative zero. -/
def total (shares : List Float) : Float :=
  shares.foldl (· + ·) (-0.0)

end Concordance.Similarity
