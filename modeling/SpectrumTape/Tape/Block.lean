import SpectrumTape.Tape.Entry

/-!
# Blocks

On tape everything is in blocks: the size of what follows in a word, low byte first, then a marker,
the content and a checksum, the exclusive or of marker and content. A file takes two blocks, a
header of seventeen bytes and the payload.
-/

namespace SpectrumTape.Tape

/-- A word, low byte first. -/
def wordBytes (w : UInt16) : Bytes := [UInt8.ofNat w.toNat, UInt8.ofNat (w.toNat / 256)]

/-- The word that two bytes stand for, low byte first. -/
def wordOfBytes (low high : UInt8) : UInt16 := UInt16.ofNat (low.toNat + high.toNat * 256)

/-- A marker and the content behind it. -/
structure Block where
  marker : UInt8
  content : Bytes
  deriving DecidableEq, Repr, Inhabited

namespace Block

def headerMarker : UInt8 := 0x00

def dataMarker : UInt8 := 0xFF

def checksum (b : Block) : UInt8 := b.content.foldl (· ^^^ ·) b.marker

/-- Why a block cannot be written. -/
structure TooLarge where
  size : Nat
  deriving DecidableEq, Repr, Inhabited

def TooLarge.message (e : TooLarge) : Bytes :=
  "block too large: " ++ Bytes.decimal e.size ++ " bytes"

def serialize (b : Block) : Except TooLarge Bytes :=
  if maxBlockContent < b.content.length then .error ⟨b.content.length⟩
  else
    .ok (wordBytes (UInt16.ofNat (b.content.length + 2)) ++
      b.marker :: (b.content ++ [b.checksum]))

end Block

namespace Entry

def headerSize : Nat := 17

/-- The name as it stands in a header: cut, or filled with blanks. -/
def headerName (e : Entry) : Bytes := Bytes.padRight maxNameLength 0x20 (e.name.take maxNameLength)

/-- The header of a file: its type, its name, the size of its payload and its two words. -/
def header (e : Entry) : Bytes :=
  e.type.code :: e.headerName ++ wordBytes (UInt16.ofNat e.payload.length) ++
    wordBytes e.words.1 ++ wordBytes e.words.2

def serialize (e : Entry) : Except Block.TooLarge Bytes := do
  let header ← Block.serialize ⟨Block.headerMarker, e.header⟩
  let data ← Block.serialize ⟨Block.dataMarker, e.payload⟩
  return header ++ data

end Entry

end SpectrumTape.Tape
