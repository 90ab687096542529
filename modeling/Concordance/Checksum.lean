import Concordance.Error
import Concordance.Varint

/-!
# Checksums

The 32-bit cyclic redundancy check of IEEE 802.3. The register starts with all bits
set, takes in each byte from its least significant bit on, and is inverted at the
end.
-/

namespace Concordance.Checksum

/-- The polynomial, with the coefficient of the highest power in the lowest bit. -/
def polynomial : UInt32 := 0xedb88320

/-- Takes one bit out of the register. -/
def shiftBit (register : UInt32) : UInt32 :=
  if register &&& 1 = 1 then (register >>> 1) ^^^ polynomial else register >>> 1

/-- Takes one byte into the register. -/
def shiftByte (register : UInt32) (byte : UInt8) : UInt32 :=
  Nat.repeat shiftBit 8 (register ^^^ byte.toUInt32)

/-- The checksum of a sequence of bytes. -/
def compute (bytes : Bytes) : UInt32 :=
  bytes.foldl shiftByte 0xffffffff ^^^ 0xffffffff

/-- Refuses bytes whose checksum is not the expected one. -/
def verify (bytes : Bytes) (expected : UInt32) : Except SearchError Unit :=
  let actual := compute bytes
  if actual = expected then .ok () else .error (.checksumMismatch expected actual)

end Concordance.Checksum
