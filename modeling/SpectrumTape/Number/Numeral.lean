import SpectrumTape.Text.Bytes

/-!
# Numerals

Reading whole numbers of a bounded width. Digits are taken from the left, so a numeral that is
both too large and malformed fails for whichever fault comes first.
-/

namespace SpectrumTape

/-- Why a text is not a number. -/
inductive NumeralError where
  | malformed
  | outOfRange
  deriving DecidableEq, Repr, Inhabited

def NumeralError.message : NumeralError → Bytes
  | .malformed => "invalid syntax"
  | .outOfRange => "value out of range"

namespace Numeral

/-- Whether a byte is a digit of a base of at most sixteen. -/
def isDigitOf (base : Nat) (c : UInt8) : Bool := Ascii.isHexDigit c && Ascii.digitValue c < base

/-- Reads further digits after the value `n`, none of the values being above `most`. -/
def readFrom (base most : Nat) : Nat → Bytes → Except NumeralError Nat
  | n, [] => .ok n
  | n, c :: rest =>
    if isDigitOf base c then
      let n' := n * base + Ascii.digitValue c
      if most < n' then .error .outOfRange else readFrom base most n' rest
    else .error .malformed

/-- Reads a number without a sign of at most `bits` bits. -/
def readUnsigned (base bits : Nat) (s : Bytes) : Except NumeralError Nat :=
  if s.isEmpty then .error .malformed else readFrom base ((1 <<< bits) - 1) 0 s

/-- Splits off a leading sign; true stands for a minus. -/
def splitSign (s : Bytes) : Bool × Bytes :=
  match s with
  | 0x2B :: rest => (false, rest)
  | 0x2D :: rest => (true, rest)
  | _ => (false, s)

/-- Reads a number with an optional sign that fits a two's complement word of `bits` bits. -/
def readSigned (base bits : Nat) (s : Bytes) : Except NumeralError Int :=
  let (negative, digits) := splitSign s
  match readUnsigned base bits digits with
  | .error e => .error e
  | .ok n =>
    let half := 1 <<< (bits - 1)
    if negative then if half < n then .error .outOfRange else .ok (-(n : Int))
    else if half ≤ n then .error .outOfRange
    else .ok n

end Numeral

end SpectrumTape
