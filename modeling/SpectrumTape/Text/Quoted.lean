import SpectrumTape.Text.Rune
import SpectrumTape.Text.Printable

/-!
# Quoted texts

A text in double quotes, on one line and printable: quotes and backslashes are marked by a
backslash, the usual control characters have a letter, and what is left unprintable is written by
its number.
-/

namespace SpectrumTape.Quoted

def controlLetter? : Nat → Option Bytes
  | 0x07 => some "a"
  | 0x08 => some "b"
  | 0x0C => some "f"
  | 0x0A => some "n"
  | 0x0D => some "r"
  | 0x09 => some "t"
  | 0x0B => some "v"
  | _ => none

def rune : Rune → Bytes
  | .stray b => "\\x" ++ Bytes.hexLower 2 b.toNat
  | .scalar n =>
    if n == 0x22 || n == 0x5C then [Ascii.backslash, UInt8.ofNat n]
    else if Printable.isPrintable n then (Rune.scalar n).encode
    else
      match controlLetter? n with
      | some letter => Ascii.backslash :: letter
      | none =>
        if n < 0x20 || n == 0x7F then "\\x" ++ Bytes.hexLower 2 n
        else if n < 0x10000 then "\\u" ++ Bytes.hexLower 4 n
        else "\\U" ++ Bytes.hexLower 8 n

end SpectrumTape.Quoted

namespace SpectrumTape

def Bytes.quoted (s : Bytes) : Bytes :=
  [Ascii.quote] ++ s.runes.flatMap Quoted.rune ++ [Ascii.quote]

end SpectrumTape
