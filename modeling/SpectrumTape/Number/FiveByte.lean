import SpectrumTape.Number.Shortest

/-!
# The five byte form of numbers

Numbers inside a program are followed by the form that the calculator of the machine works on.
Whole numbers of at most 65535 have the exponent zero and the magnitude as a word, low byte first.
Every other number has an exponent that is 128 too large and a mantissa of 32 bits between one
half and one, of which the first bit, always set, gives way to the sign.

Numbers in program text carry no sign: the machine reads the minus before them on its own, so only
magnitudes are encoded.
-/

namespace SpectrumTape

/-- The exponent byte and the mantissa of a number. -/
structure FiveByte where
  exponent : UInt8
  mantissa : UInt32
  deriving DecidableEq, Repr, Inhabited

namespace FiveByte

def ofWord (n : Nat) : FiveByte :=
  ⟨0, UInt32.ofNat (n % 256 * 65536 + n / 256 * 256)⟩

/-- The number of bits before the binary point, negative if zeros follow it: a positive number of
`units` units lies between half of two to that power, included, and two to that power. -/
def binaryExponent (units : Nat) : Int :=
  (Binary.bitLength units : Int) - (Binary.format64.scale : Nat)

/-- The first 33 bits of a number: the mantissa and the bit that rounds it. -/
def leadingBits (units : Nat) : Nat :=
  if 33 ≤ Binary.bitLength units then units >>> (Binary.bitLength units - 33)
  else units <<< (33 - Binary.bitLength units)

/-- The mantissa of 32 bits: rounded by the next bit, except where that would make it too long. -/
def roundedMantissa (units : Nat) : Nat :=
  let bits := leadingBits units
  let kept := bits / 2
  if bits % 2 == 1 && kept != 0xFFFFFFFF then kept + 1 else kept

/-- The five byte form of the magnitude of a number; `none` if it is not finite or its exponent
does not fit a byte. -/
def encode? : Binary64 → Option FiveByte
  | .finite _ units =>
    let one := 1 <<< Binary.format64.scale
    if units % one = 0 && units / one ≤ 65535 then some (ofWord (units / one))
    else
      let e := binaryExponent units
      if e < -128 || 127 < e then none
      else some ⟨UInt8.ofNat (e + 128).toNat, UInt32.ofNat (roundedMantissa units - 0x80000000)⟩
  | _ => none

/-- The text that says that a number has no five byte form. -/
def outOfRangeMessage (v : Binary64) : Bytes :=
  "exponent out of range: " ++ Shortest.render Shortest.general v

/-- The five bytes: the exponent, then the mantissa from its most significant byte on. -/
def bytes (v : FiveByte) : Bytes :=
  let m := v.mantissa.toNat
  [v.exponent, UInt8.ofNat (m / 16777216), UInt8.ofNat (m / 65536), UInt8.ofNat (m / 256),
    UInt8.ofNat m]

/-- The number that a five byte form stands for. In the form of whole numbers the first byte of
the mantissa is the sign; elsewhere its first bit is. -/
def decode (v : FiveByte) : Binary64 :=
  let m := v.mantissa.toNat
  if v.exponent = 0 then
    let word := m / 65536 % 256 + m / 256 % 256 * 256
    if m / 16777216 = 0xFF then .finite true ((65536 - word) <<< Binary.format64.scale)
    else .finite false (word <<< Binary.format64.scale)
  else
    .finite (0x80000000 ≤ m)
      ((m % 0x80000000 + 0x80000000) <<< (Binary.format64.scale + v.exponent.toNat - 160))

end FiveByte

end SpectrumTape
