import SpectrumTape.Text.Rune
import SpectrumTape.Number.Numeral

/-!
# String literals

The text between the quotes of a string literal. A backslash escapes a quote, a backslash, a line
end or a letter for a control character, or it begins the number of a character in octal or
hexadecimal.
-/

namespace SpectrumTape.Script.Literal

/-- The control character or mark that a letter stands for after a backslash. -/
def escaped? : UInt8 → Option UInt8
  | 0x61 => some 0x07
  | 0x62 => some 0x08
  | 0x66 => some 0x0C
  | 0x6E => some 0x0A
  | 0x72 => some 0x0D
  | 0x74 => some 0x09
  | 0x76 => some 0x0B
  | 0x5C => some 0x5C
  | 0x27 => some 0x27
  | 0x22 => some 0x22
  | _ => none

def isOctal (c : UInt8) : Bool := 0x30 ≤ c && c ≤ 0x37

/-- A code point with at least four capital hexadecimal digits. -/
def codePoint (n : Nat) : Bytes := Bytes.hexUpper 4 n

/-- The advice for a character beyond ASCII that was written by the number of a byte. -/
def advice (n : Nat) : Bytes :=
  " (use \\u" ++ codePoint n ++ " for the UTF-8 encoding of U+" ++ codePoint n ++ ")"

def octal (n : Nat) : Bytes := (Nat.toDigits 8 n).map Char.toUInt8

def octalByte (ofBytes : Bool) (digits : Bytes) : Except Bytes UInt8 :=
  let n := Bytes.valueOfDigits 8 digits
  if !ofBytes && 127 < n then .error ("non-ASCII octal escape \\" ++ octal n ++ advice n)
  else if 255 < n then .error ("invalid escape sequence \\" ++ Bytes.padLeft 3 0x30 (octal n))
  else .ok (UInt8.ofNat n)

/-- The byte of two hexadecimal digits; `whole` is the escape from its backslash on. -/
def hexByte (ofBytes : Bool) (whole : Bytes) : Except Bytes UInt8 :=
  if whole.length < 4 then .error ("truncated escape sequence " ++ whole)
  else
    let written := whole.take 4
    match Numeral.readUnsigned 16 64 (written.drop 2) with
    | .error _ => .error ("invalid escape sequence " ++ written)
    | .ok n =>
      if !ofBytes && 127 < n then .error ("non-ASCII hex escape " ++ written ++ advice n)
      else .ok (UInt8.ofNat n)

/-- The character of a number of `size` hexadecimal digits; `whole` is the escape from its
backslash on. -/
def character (size : Nat) (whole : Bytes) : Except Bytes Bytes :=
  if whole.length < size + 2 then .error ("truncated escape sequence " ++ whole)
  else
    let written := whole.take (size + 2)
    match Numeral.readUnsigned 16 64 (written.drop 2) with
    | .error _ => .error ("invalid escape sequence " ++ written)
    | .ok n =>
      if 0x10FFFF < n then
        .error ("code point out of range: " ++ written ++ " (max \\U" ++ Bytes.hexLower 8 n ++ ")")
      else if 0xD800 ≤ n && n < 0xE000 then
        .error ("invalid Unicode code point U+" ++ codePoint n)
      else .ok (Rune.scalar n).encode

/-- Reads what is between the quotes, `skip` bytes of it being already read. -/
def unescapeFrom (ofBytes : Bool) : Nat → Bytes → Except Bytes Bytes
  | _, [] => .ok []
  | skip + 1, _ :: rest => unescapeFrom ofBytes skip rest
  | 0, c :: rest =>
    if c != Ascii.backslash then do
      let more ← unescapeFrom ofBytes 0 rest
      return c :: more
    else
      match rest with
      | [] => .error "truncated escape sequence \\"
      | d :: _ =>
        if d == Ascii.lf then unescapeFrom ofBytes 1 rest
        else if isOctal d then do
          let digits := (rest.take 3).takeWhile isOctal
          let b ← octalByte ofBytes digits
          let more ← unescapeFrom ofBytes digits.length rest
          return b :: more
        else if d == 0x78 then do
          let b ← hexByte ofBytes (c :: rest)
          let more ← unescapeFrom ofBytes 3 rest
          return b :: more
        else if d == 0x75 || d == 0x55 then do
          let size := if d == 0x75 then 4 else 8
          let bs ← character size (c :: rest)
          let more ← unescapeFrom ofBytes (size + 1) rest
          return bs ++ more
        else
          match escaped? d with
          | some e => do
            let more ← unescapeFrom ofBytes 1 rest
            return e :: more
          | none =>
            .error ("invalid escape sequence \\" ++ (Rune.scalar d.toNat).encode)

/-- The text that stands for what is between the quotes of a literal. -/
def unescape (ofBytes : Bool) (inside : Bytes) : Except Bytes Bytes :=
  unescapeFrom ofBytes 0 inside

end SpectrumTape.Script.Literal
