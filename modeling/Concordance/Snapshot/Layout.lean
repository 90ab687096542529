import Concordance.Varint

/-!
# The layout of stored values

Numbers of a fixed width are stored with their least significant byte first, text
and bytes behind their length, and a sequence behind the number of its items.

A reader takes a value from a position on and moves the position past it; it gives
nothing where the bytes end first or are no such value.
-/

namespace Concordance.Layout

/-- So many bytes of a number, least significant first. -/
def littleEndian : (width value : Nat) → List UInt8
  | 0, _ => []
  | width + 1, value => (value % 256).toUInt8 :: littleEndian width (value / 256)

/-- The number of these bytes, least significant first. -/
def ofLittleEndian : List UInt8 → Nat
  | [] => 0
  | byte :: bytes => byte.toNat + 256 * ofLittleEndian bytes

def writeNat (width value : Nat) : Bytes := (littleEndian width value).toArray

def writeByte (byte : UInt8) : Bytes := #[byte]

def writeWord (word : UInt32) : Bytes := writeNat 4 word.toNat

def writeLong (word : UInt64) : Bytes := writeNat 8 word.toNat

/-- The number of items or bytes that follow. -/
def writeCount (count : Nat) : Bytes := writeNat 8 count

def writeFlag (flag : Bool) : Bytes := writeByte (if flag then 1 else 0)

def writeBytes (bytes : Bytes) : Bytes := writeCount bytes.size ++ bytes

def writeText (text : String) : Bytes := writeBytes text.toUTF8.data

/-- Whether a value follows, and the value. -/
def writeOption {α : Type} (write : α → Bytes) : Option α → Bytes
  | none => writeByte 0
  | some value => writeByte 1 ++ write value

def writeItems {α : Type} (write : α → Bytes) : List α → Bytes
  | [] => #[]
  | item :: items => write item ++ writeItems write items

def writeList {α : Type} (write : α → Bytes) (items : List α) : Bytes :=
  writeCount items.length ++ writeItems write items

/-- Takes a value from a position of some bytes. -/
abbrev Reader (α : Type) := StateT Nat Option α

/-- The next `count` bytes. -/
def readRaw (bytes : Bytes) (count : Nat) : Reader Bytes := fun cur =>
  if cur + count ≤ bytes.size then some (bytes.extract cur (cur + count), cur + count) else none

def readNat (bytes : Bytes) (width : Nat) : Reader Nat := do
  return ofLittleEndian (← readRaw bytes width).toList

def readWord (bytes : Bytes) : Reader UInt32 := do
  return (← readNat bytes 4).toUInt32

def readLong (bytes : Bytes) : Reader UInt64 := do
  return (← readNat bytes 8).toUInt64

/-- A byte that is zero or one. -/
def readFlag (bytes : Bytes) : Reader Bool := do
  match ← readNat bytes 1 with
  | 0 => return false
  | 1 => return true
  | _ => failure

def readBytes (bytes : Bytes) : Reader Bytes := do
  readRaw bytes (← readNat bytes 8)

def readText (bytes : Bytes) : Reader String := do
  match String.fromUTF8? ⟨← readBytes bytes⟩ with
  | some text => return text
  | none => failure

def readOption {α : Type} (bytes : Bytes) (read : Reader α) : Reader (Option α) := do
  if ← readFlag bytes then return some (← read) else return none

def readItems {α : Type} (read : Reader α) : (count : Nat) → Reader (List α)
  | 0 => return []
  | count + 1 => do
    let item ← read
    let items ← readItems read count
    return item :: items

def readList {α : Type} (bytes : Bytes) (read : Reader α) : Reader (List α) := do
  readItems read (← readNat bytes 8)

end Concordance.Layout
