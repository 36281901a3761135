import SpectrumTape.Vocabulary

/-!
# Programs

A program is a list of lines. On tape each line is its number, high byte first, the size of its
body in a word, low byte first, and the body, which ends with the code of a line end. The size is
kept to its low sixteen bits.
-/

namespace SpectrumTape.Basic

/-- A line of a program; its body includes the code that ends it. -/
structure Line where
  number : Nat
  body : Bytes
  deriving DecidableEq, Repr, Inhabited

def Line.header (l : Line) : Bytes :=
  [UInt8.ofNat (l.number / 256), UInt8.ofNat l.number, UInt8.ofNat l.body.length,
    UInt8.ofNat (l.body.length / 256)]

def Line.bytes (l : Line) : Bytes := l.header ++ l.body

abbrev Program := List Line

def Program.bytes (p : Program) : Bytes := p.flatMap Line.bytes

end SpectrumTape.Basic
