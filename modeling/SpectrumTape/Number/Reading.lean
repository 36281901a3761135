import SpectrumTape.Number.Numeral
import SpectrumTape.Number.Binary

/-!
# Reading numbers

A number is written in decimal, with an optional fraction and exponent, or in hexadecimal with a
binary exponent, or it is one of the words for infinity and for "not a number". Underscores may
stand between digits. What is read is the nearest number of the format; a number beyond the
format's bound is out of range.
-/

namespace SpectrumTape.Reading

/-- The digits of a number as far as they are read: their value without the point, how many of
them count, and how many stand after the point. -/
structure Digits where
  value : Nat := 0
  significant : Nat := 0
  afterPoint : Nat := 0
  point : Bool := false
  any : Bool := false
  deriving DecidableEq, Repr, Inhabited

def Digits.push (base : Nat) (d : Digits) (digit : Nat) : Digits :=
  { d with
    value := d.value * base + digit
    significant := if d.value == 0 && digit == 0 then d.significant else d.significant + 1
    afterPoint := if d.point then d.afterPoint + 1 else d.afterPoint
    any := true }

/-- Reads digits, at most one point and any underscores, and gives what follows them. -/
def readDigits (base : Nat) : Digits → Bytes → Digits × Bytes
  | d, [] => (d, [])
  | d, c :: rest =>
    if c == 0x5F then readDigits base d rest
    else if c == 0x2E && !d.point then readDigits base { d with point := true } rest
    else if Numeral.isDigitOf base c then readDigits base (d.push base (Ascii.digitValue c)) rest
    else (d, c :: rest)

/-- The value of the digits of an exponent; from five digits on, further ones no longer count. -/
def exponentValue (digits : Bytes) : Nat :=
  digits.foldl
    (fun n c => if c == 0x5F then n else if n < 10000 then n * 10 + Ascii.digitValue c else n) 0

/-- Reads the digits of an exponent after its mark, and gives what follows them. -/
def readExponent? (s : Bytes) : Option (Int × Bytes) :=
  let (negative, digits) := Numeral.splitSign s
  match digits with
  | [] => none
  | c :: _ =>
    if Ascii.isDigit c then
      let inside := fun c => Ascii.isDigit c || c == 0x5F
      let n : Int := (exponentValue (digits.takeWhile inside) : Nat)
      some (if negative then -n else n, digits.dropWhile inside)
    else none

/-- The kind of the byte before, when underscores are checked. -/
inductive Before where
  | start
  | digit
  | underscore
  | other
  deriving DecidableEq, Repr

/-- Whether each underscore stands between digits, or between the base mark and a digit. -/
def underscoresFrom (hex : Bool) : Before → Bytes → Bool
  | before, [] => before != .underscore
  | before, c :: rest =>
    if Ascii.isDigit c || (hex && Ascii.isHexDigit c) then underscoresFrom hex .digit rest
    else if c == 0x5F then before == .digit && underscoresFrom hex .underscore rest
    else before != .underscore && underscoresFrom hex .other rest

/-- Whether a text without its sign begins with the mark of a base, the letter being small. -/
def baseMark? : Bytes → Option UInt8
  | 0x30 :: c :: _ =>
    let c := Ascii.toLower c
    if c == 0x62 || c == 0x6F || c == 0x78 then some c else none
  | _ => none

/-- Whether the underscores of a number without its sign are well placed. -/
def underscoresFit (s : Bytes) : Bool :=
  match baseMark? s with
  | some c => underscoresFrom (c == 0x78) .digit (s.drop 2)
  | none => underscoresFrom false .start s

/-- A number as it is written: `value * base ^ exponent`. -/
structure Written where
  negative : Bool
  hex : Bool
  value : Nat
  significant : Nat
  exponent : Int
  deriving DecidableEq, Repr, Inhabited

/-- Whether the hexadecimal mark stands before at least one more byte. -/
def hexBody? : Bytes → Option Bytes
  | 0x30 :: x :: c :: rest => if Ascii.toLower x == 0x78 then some (c :: rest) else none
  | _ => none

def readWritten? (s : Bytes) : Option Written :=
  let (negative, body) := Numeral.splitSign s
  let hex := (hexBody? body).isSome
  let (d, rest) := readDigits (if hex then 16 else 10) {} ((hexBody? body).getD body)
  let mark : UInt8 := if hex then 0x70 else 0x65
  let exponent? : Option (Int × Bytes) :=
    match rest with
    | c :: rest' =>
      if Ascii.toLower c == mark then readExponent? rest' else if hex then none else some (0, rest)
    | [] => if hex then none else some (0, [])
  match exponent? with
  | some (e, []) =>
    if d.any && underscoresFit body then
      some
        { negative, hex, value := d.value, significant := d.significant,
          exponent := e - (if hex then 4 else 1) * (d.afterPoint : Nat) }
    else none
  | _ => none

/-- The number of the format nearest to what is written. Exponents far beyond every format are
decided by their size alone. -/
def Written.round (f : Binary.Format) (w : Written) : Binary f :=
  if w.value = 0 then .finite w.negative 0
  else if w.hex then
    if 5000 < w.exponent then .infinite w.negative
    else if w.exponent + 4 * (w.significant : Nat) < -5000 then .finite w.negative 0
    else if 0 ≤ w.exponent then Binary.round f w.negative (w.value <<< w.exponent.toNat) 1
    else Binary.round f w.negative w.value (1 <<< (-w.exponent).toNat)
  else
    if 1000 < w.exponent then .infinite w.negative
    else if w.exponent + (w.significant : Nat) < -1000 then .finite w.negative 0
    else if 0 ≤ w.exponent then
      Binary.round f w.negative (w.value * Nat.pow 10 w.exponent.toNat) 1
    else Binary.round f w.negative w.value (Nat.pow 10 (-w.exponent).toNat)

/-- The words for infinity, with an optional sign, and for "not a number", without one. -/
def readWord? (f : Binary.Format) (s : Bytes) : Option (Binary f) :=
  let small := s.map Ascii.toLower
  let (negative, word) := Numeral.splitSign small
  if word == utf8 "inf" || word == utf8 "infinity" then some (.infinite negative)
  else if small == utf8 "nan" then some .nan
  else none

/-- Reads the whole of a text as a number of a binary format. -/
def readBinary (f : Binary.Format) (s : Bytes) : Except NumeralError (Binary f) :=
  match readWord? f s with
  | some v => .ok v
  | none =>
    match readWritten? s with
    | none => .error .malformed
    | some w =>
      match w.round f with
      | .infinite _ => .error .outOfRange
      | v => .ok v

end SpectrumTape.Reading
