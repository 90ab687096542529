import Concordance.Posting
import Concordance.Varint.Reader

/-!
# Readers of one posting's occurrences

The offset pairs and the positions of a posting stay written until they are asked
for. A reader restores them from their distances, one at a time.
-/

namespace Concordance

/-- Reads offset pairs from `cur` up to `stop`, the next one at a distance from
`previousStop`. -/
structure OffsetReader where
  bytes : Bytes
  cur : Nat
  stop : Nat
  previousStop : UInt32

/-- The reader of a region of offset pairs. -/
def OffsetReader.ofRegion (bytes : Bytes) (start stop : Nat) : OffsetReader :=
  ⟨bytes, start, stop, 0⟩

instance : PopStream OffsetReader Span where
  remaining reader := reader.stop - reader.cur
  pop reader :=
    if reader.stop ≤ reader.cur then (.error (.exhausted .offset), reader)
    else
      match Varint.readRegion reader.bytes reader.stop reader.cur with
      | .error fault => (.error fault, reader)
      | .ok (gap, middle) =>
        match Varint.readRegion reader.bytes reader.stop middle with
        | .error fault => (.error fault, { reader with cur := middle })
        | .ok (length, next) =>
          match Word.sum reader.previousStop gap with
          | .error fault => (.error fault, { reader with cur := next })
          | .ok start =>
            match Word.sum start length with
            | .error fault => (.error fault, { reader with cur := next })
            | .ok stop => (.ok ⟨start, stop⟩, { reader with cur := next, previousStop := stop })
  remaining_lt_of_pop {reader rest pair} h := by
    split at h
    · cases h
    · split at h
      · cases h
      · next hgap =>
          split at h
          · cases h
          · next hlength =>
              have := Varint.lt_of_readRegion hgap
              have := Varint.lt_of_readRegion hlength
              split at h
              · cases h
              · split at h
                · cases h
                · cases h
                  simp only
                  omega

/-- Reads positions from `cur` up to `stop`, the next one at a distance from
`previous`. -/
structure PositionReader where
  bytes : Bytes
  cur : Nat
  stop : Nat
  previous : UInt32

/-- The reader of a region of positions. -/
def PositionReader.ofRegion (bytes : Bytes) (start stop : Nat) : PositionReader :=
  ⟨bytes, start, stop, 0⟩

instance : PopStream PositionReader UInt32 where
  remaining reader := reader.stop - reader.cur
  pop reader :=
    if reader.stop ≤ reader.cur then (.error (.exhausted .position), reader)
    else
      match Varint.readRegion reader.bytes reader.stop reader.cur with
      | .error fault => (.error fault, reader)
      | .ok (gap, next) =>
        match Word.sum reader.previous gap with
        | .error fault => (.error fault, { reader with cur := next })
        | .ok position => (.ok position, { reader with cur := next, previous := position })
  remaining_lt_of_pop {reader rest position} h := by
    split at h
    · cases h
    · split at h
      · cases h
      · next hgap =>
          have := Varint.lt_of_readRegion hgap
          split at h
          · cases h
          · cases h
            simp only
            omega

end Concordance
