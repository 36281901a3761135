import SpectrumTape.Text.Bytes

/-!
# Characters in byte strings

`runes` reads a byte string as UTF-8. Where the bytes are not valid, one byte is taken as a stray
on its own, so every byte string can be read and `encode` gives back what was read.
-/

namespace SpectrumTape

/-- A character of a byte string, or a byte that begins none. -/
inductive Rune where
  | scalar (code : Nat)
  | stray (byte : UInt8)
  deriving DecidableEq, Repr, Inhabited

namespace Rune

/-- Whether a byte can follow the first one of a character. -/
def isTail (b : UInt8) : Bool := 0x80 ≤ b && b ≤ 0xBF

def tailBits (b : UInt8) : Nat := b.toNat % 64

def pair? (a b : UInt8) : Option Nat :=
  if 0xC2 ≤ a && a ≤ 0xDF && isTail b then some (a.toNat % 32 * 64 + tailBits b) else none

/-- The code point of a three byte character: no longer form than needed, and no surrogate. -/
def triple? (a b c : UInt8) : Option Nat :=
  let second :=
    if a == 0xE0 then 0xA0 ≤ b && b ≤ 0xBF
    else if a == 0xED then 0x80 ≤ b && b ≤ 0x9F
    else isTail b
  if 0xE0 ≤ a && a ≤ 0xEF && second && isTail c then
    some (a.toNat % 16 * 4096 + tailBits b * 64 + tailBits c)
  else none

/-- The code point of a four byte character: no longer form than needed, at most 0x10FFFF. -/
def quadruple? (a b c d : UInt8) : Option Nat :=
  let second :=
    if a == 0xF0 then 0x90 ≤ b && b ≤ 0xBF
    else if a == 0xF4 then 0x80 ≤ b && b ≤ 0x8F
    else isTail b
  if 0xF0 ≤ a && a ≤ 0xF4 && second && isTail c && isTail d then
    some (a.toNat % 8 * 262144 + tailBits b * 4096 + tailBits c * 64 + tailBits d)
  else none

/-- The first character of a string beyond ASCII, and how many bytes it takes after `a`. -/
def wide? (a : UInt8) : Bytes → Option (Nat × Nat)
  | b :: c :: d :: _ =>
    ((pair? a b).map (·, 1)).orElse fun _ =>
      ((triple? a b c).map (·, 2)).orElse fun _ => (quadruple? a b c d).map (·, 3)
  | [b, c] => ((pair? a b).map (·, 1)).orElse fun _ => (triple? a b c).map (·, 2)
  | [b] => (pair? a b).map (·, 1)
  | [] => none

/-- The characters of a string of which the first `skip` bytes were already read. -/
def runesFrom : Nat → Bytes → List Rune
  | _, [] => []
  | skip + 1, _ :: rest => runesFrom skip rest
  | 0, a :: rest =>
    if a < 0x80 then .scalar a.toNat :: runesFrom 0 rest
    else
      match wide? a rest with
      | some (code, more) => .scalar code :: runesFrom more rest
      | none => .stray a :: runesFrom 0 rest

def encode : Rune → Bytes
  | .stray b => [b]
  | .scalar n =>
    if n < 0x80 then [UInt8.ofNat n]
    else if n < 0x800 then [UInt8.ofNat (0xC0 + n / 64), UInt8.ofNat (0x80 + n % 64)]
    else if n < 0x10000 then
      [UInt8.ofNat (0xE0 + n / 4096), UInt8.ofNat (0x80 + n / 64 % 64), UInt8.ofNat (0x80 + n % 64)]
    else
      [UInt8.ofNat (0xF0 + n / 262144), UInt8.ofNat (0x80 + n / 4096 % 64),
        UInt8.ofNat (0x80 + n / 64 % 64), UInt8.ofNat (0x80 + n % 64)]

/-- Whether a character is white space: the blanks of every script, and never a stray byte. -/
def isBlank : Rune → Bool
  | .stray _ => false
  | .scalar n =>
    (9 ≤ n && n ≤ 13) || n == 0x20 || n == 0x85 || n == 0xA0 || n == 0x1680 ||
      (0x2000 ≤ n && n ≤ 0x200A) || n == 0x2028 || n == 0x2029 || n == 0x202F || n == 0x205F ||
      n == 0x3000

/-- Whether all characters are white space, the first `skip` bytes being already read. -/
def allBlankFrom : Nat → Bytes → Bool
  | _, [] => true
  | skip + 1, _ :: rest => allBlankFrom skip rest
  | 0, a :: rest =>
    if a < 0x80 then (Rune.scalar a.toNat).isBlank && allBlankFrom 0 rest
    else
      match wide? a rest with
      | some (code, more) => (Rune.scalar code).isBlank && allBlankFrom more rest
      | none => false

/-- The small letter of a character, as far as it is one of ASCII: the letters `A` to `Z`, the
dotted capital I and the Kelvin sign. Texts are only compared with words of ASCII letters, so the
other letters may stay as they are. -/
def toLower : Rune → Rune
  | .scalar n =>
    if 0x41 ≤ n && n ≤ 0x5A then .scalar (n + 0x20)
    else if n == 0x130 then .scalar 0x69
    else if n == 0x212A then .scalar 0x6B
    else .scalar n
  | .stray b => .stray b

/-- The capital of a character, as far as it is one of ASCII: the letters `a` to `z`, the dotless
i and the long s. -/
def toUpper : Rune → Rune
  | .scalar n =>
    if 0x61 ≤ n && n ≤ 0x7A then .scalar (n - 0x20)
    else if n == 0x131 then .scalar 0x49
    else if n == 0x17F then .scalar 0x53
    else .scalar n
  | .stray b => .stray b

end Rune

namespace Bytes

def runes (s : Bytes) : List Rune := Rune.runesFrom 0 s

def ofRunes (rs : List Rune) : Bytes := rs.flatMap Rune.encode

def isUtf8 (s : Bytes) : Bool :=
  s.runes.all fun
    | .scalar _ => true
    | .stray _ => false

def trimBlank (s : Bytes) : Bytes :=
  ofRunes ((s.runes.dropWhile Rune.isBlank).reverse.dropWhile Rune.isBlank).reverse

def allBlank (s : Bytes) : Bool := Rune.allBlankFrom 0 s

/-- In small letters, for a comparison with words of ASCII letters. -/
def toLowerWord (s : Bytes) : Bytes := ofRunes (s.runes.map Rune.toLower)

end Bytes

end SpectrumTape
