import SpectrumTape.Number.FiveByte
import SpectrumTape.Number.Reading
import SpectrumTape.Vocabulary
import SpectrumTape.Basic.Cause

/-!
# Literals

Numbers and strings of a source line. Each reader gets the text from the literal on and says how
many bytes it looked at; a failure is located behind them.
-/

namespace SpectrumTape.Basic

/-- A number as it stands in a program: its text and its five byte form. -/
structure Number where
  text : Bytes
  value : FiveByte
  deriving DecidableEq, Repr, Inhabited

def Number.bytes (n : Number) : Bytes := n.text ++ Code.number :: n.value.bytes

/-- The bytes that a reader looked at, and what it read or why it failed. -/
structure Read (α : Type) where
  size : Nat
  result : Except Cause α
  deriving Inhabited

namespace Literal

/-- The length of the longest initial part of which all bytes satisfy `p`. -/
def runLength (p : UInt8 → Bool) (s : Bytes) : Nat := (s.takeWhile p).length

/-- A number with a text of its own, if the machine can hold its value. -/
def numberOf (text : Bytes) (value : Binary64) : Except Cause Number :=
  match FiveByte.encode? value with
  | some v => .ok ⟨text, v⟩
  | none => .error .largeNumber

/-- A number in another base, written out in decimal. -/
def numberOfDigits (base : Nat) (digits : Bytes) (empty large : Cause) : Except Cause Number :=
  if digits.isEmpty then .error empty
  else
    let n := Bytes.valueOfDigits base digits
    if 0xFFFF < n then .error large else numberOf (Bytes.decimal n) (Binary.ofInt n)

/-- Reads the digits of another base after `skipped` bytes. -/
def readDigits (base : Nat) (isDigit : UInt8 → Bool) (empty large : Cause) (skipped : Nat)
    (s : Bytes) : Read Number :=
  let digits := (s.drop skipped).takeWhile isDigit
  ⟨skipped + digits.length, numberOfDigits base digits empty large⟩

/-- The length of the fraction at the start of a text: a point and the digits after it. -/
def fractionLength : Bytes → Nat
  | 0x2E :: rest => 1 + runLength Ascii.isDigit rest
  | _ => 0

/-- The length of the exponent at the start of a text: its letter, an optional sign and digits. It
is none if there are no digits. -/
def exponentLength : Bytes → Nat
  | e :: rest =>
    if Ascii.toLower e == 0x65 then
      let signed :=
        match rest with
        | c :: _ => if c == 0x2B || c == 0x2D then 1 else 0
        | [] => 0
      match runLength Ascii.isDigit (rest.drop signed) with
      | 0 => 0
      | n + 1 => 1 + signed + (n + 1)
    else 0
  | [] => 0

/-- The length of the decimal number at the start of a text. -/
def decimalLength (s : Bytes) : Nat :=
  let whole := runLength Ascii.isDigit s
  let fraction := fractionLength (s.drop whole)
  whole + fraction + exponentLength (s.drop (whole + fraction))

/-- The number that a decimal text stands for, with that text. -/
def numberOfText (text : Bytes) : Except Cause Number :=
  if text.isEmpty || text == utf8 "." then .error .invalidNumber
  else
    match Reading.readBinary Binary.format64 text with
    | .ok v => numberOf text v
    | .error _ => .error .largeNumber

def readDecimal (s : Bytes) : Read Number :=
  let size := decimalLength s
  ⟨size, numberOfText (s.take size)⟩

/-- Reads a number. A zero with the mark of a base selects that base; `binary` asks for binary
digits where no other base is marked. -/
def readNumber (binary : Bool) (s : Bytes) : Read Number :=
  let zero := s.head? == some 0x30
  let mark := Ascii.toLower ((s.drop 1).head?.getD 0)
  if (zero || binary) && mark == 0x78 then
    readDigits 16 Ascii.isHexDigit .emptyHexadecimal .largeHexadecimal 2 s
  else if zero && mark == 0x62 then
    readDigits 2 Ascii.isBinaryDigit .emptyBinary .largeBinary 2 s
  else if binary then
    readDigits 2 Ascii.isBinaryDigit .emptyBinary .largeBinary 0 s
  else readDecimal s

/-- Reads the rest of a string after `size` bytes, of which the last `skip` ones yet to come were
already read. `done` is the content so far, in reverse. A quote is doubled to be part of the
string, and stays doubled; an escape becomes its code. -/
def stringFrom (v : Vocabulary) (size skip : Nat) (done : Bytes) : Bytes → Read Bytes
  | [] => ⟨size, .error .openString⟩
  | c :: rest =>
    match skip with
    | skip + 1 => stringFrom v (size + 1) skip done rest
    | 0 =>
      if c == Ascii.quote then
        if rest.head? == some Ascii.quote then
          stringFrom v (size + 1) 1 (Ascii.quote :: Ascii.quote :: done) rest
        else ⟨size + 1, .ok done.reverse⟩
      else if c == Ascii.backslash then
        match v.findEscape? rest with
        | some found => stringFrom v (size + 1) found.size (found.code :: done) rest
        | none => ⟨size + 1, .error .stringEscape⟩
      else stringFrom v (size + 1) 0 (c :: done) rest

def readString (v : Vocabulary) (s : Bytes) : Read Bytes := stringFrom v 1 0 [] (s.drop 1)

end Literal

end SpectrumTape.Basic
