/-!
# Byte strings

Sources, names, paths and messages are strings of bytes. Nothing here assumes that they are valid
in a character encoding, so every position, length and column counts bytes. Literals of the
library stand for their UTF-8 bytes.
-/

namespace SpectrumTape

abbrev Bytes := List UInt8

def utf8 (s : String) : Bytes := s.toUTF8.data.toList

instance : Coe String Bytes := ⟨utf8⟩

namespace Ascii

def quote : UInt8 := 0x22

def backslash : UInt8 := 0x5C

def cr : UInt8 := 0x0D

def lf : UInt8 := 0x0A

/-- Blank, tab, line feed, vertical tab, form feed and carriage return. -/
def isSpace (c : UInt8) : Bool := c == 0x20 || (0x09 ≤ c && c ≤ 0x0D)

def isDigit (c : UInt8) : Bool := 0x30 ≤ c && c ≤ 0x39

def isUpper (c : UInt8) : Bool := 0x41 ≤ c && c ≤ 0x5A

def isLower (c : UInt8) : Bool := 0x61 ≤ c && c ≤ 0x7A

def isAlpha (c : UInt8) : Bool := isLower c || isUpper c

def isAlnum (c : UInt8) : Bool := isAlpha c || isDigit c

/-- Letters, digits and the underscore: what names of symbols are made of. -/
def isWord (c : UInt8) : Bool := isAlnum c || c == 0x5F

def isHexDigit (c : UInt8) : Bool := isDigit c || (0x61 ≤ c && c ≤ 0x66) || (0x41 ≤ c && c ≤ 0x46)

def isBinaryDigit (c : UInt8) : Bool := c == 0x30 || c == 0x31

/-- A capital letter becomes its small one, all else stays. -/
def toLower (c : UInt8) : UInt8 := if isUpper c then c + 0x20 else c

/-- A small letter becomes its capital, all else stays. -/
def toUpper (c : UInt8) : UInt8 := if isLower c then c - 0x20 else c

/-- The value of a hexadecimal digit; other bytes count as zero. -/
def digitValue (c : UInt8) : Nat :=
  if isDigit c then c.toNat - 0x30
  else if isHexDigit c then (toLower c).toNat - 0x61 + 10
  else 0

end Ascii

namespace Bytes

/-- The value of a run of digits in a base, most significant digit first. -/
def valueOfDigits (base : Nat) (digits : Bytes) : Nat :=
  digits.foldl (fun n c => n * base + Ascii.digitValue c) 0

def decimal (n : Nat) : Bytes := (Nat.toDigits 10 n).map Char.toUInt8

/-- The decimal form of an integer, with a minus sign if it is negative. -/
def decimalInt (n : Int) : Bytes :=
  if n < 0 then "-" ++ decimal n.natAbs else decimal n.natAbs

/-- Adds copies of a byte on the left up to a width. -/
def padLeft (width : Nat) (fill : UInt8) (s : Bytes) : Bytes :=
  List.replicate (width - s.length) fill ++ s

/-- Adds copies of a byte on the right up to a width. -/
def padRight (width : Nat) (fill : UInt8) (s : Bytes) : Bytes :=
  s ++ List.replicate (width - s.length) fill

/-- The hexadecimal digits of a number in small letters, filled with zeros up to a width. -/
def hexLower (width n : Nat) : Bytes :=
  padLeft width 0x30 ((Nat.toDigits 16 n).map Char.toUInt8)

/-- The hexadecimal digits of a number in capitals, filled with zeros up to a width. -/
def hexUpper (width n : Nat) : Bytes := (hexLower width n).map Ascii.toUpper

/-- Texts one after the other with a separator between neighbours. -/
def join (separator : Bytes) (parts : List Bytes) : Bytes := separator.intercalate parts

/-- Byte by byte order, a proper initial part before the whole. -/
def lt : Bytes → Bytes → Bool
  | [], [] => false
  | [], _ :: _ => true
  | _ :: _, [] => false
  | a :: as, b :: bs => a < b || (a == b && lt as bs)

def le (a b : Bytes) : Bool := !lt b a

/-- What follows an initial part, if the string has it. -/
def dropPrefix? : Bytes → Bytes → Option Bytes
  | [], s => some s
  | _ :: _, [] => none
  | a :: as, b :: bs => if a == b then dropPrefix? as bs else none

/-- Without the given ending, if the string has it. -/
def dropEnding (ending s : Bytes) : Bytes :=
  match dropPrefix? ending.reverse s.reverse with
  | some rest => rest.reverse
  | none => s

/-- The part before the first occurrence of a byte and the part after it. -/
def cut? (mark : UInt8) (s : Bytes) : Option (Bytes × Bytes) :=
  match s.dropWhile (· != mark) with
  | [] => none
  | _ :: rest => some (s.takeWhile (· != mark), rest)

end Bytes

end SpectrumTape
