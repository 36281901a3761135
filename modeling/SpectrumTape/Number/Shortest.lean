import SpectrumTape.Text.Bytes
import SpectrumTape.Number.Binary

/-!
# Shortest decimal forms

The fewest decimal digits that read back as the same number: for each count of digits the two
neighbours of the value on that decimal grid are tried, and the first grid with a hit decides. Of
two hits the nearer is taken, and of two equally near ones the even.
-/

namespace SpectrumTape.Shortest

/-- Decimal digits and the exponent of the first one: `d.ddd * 10 ^ exponent`. -/
structure Decimal where
  digits : Bytes
  exponent : Int
  deriving DecidableEq, Repr, Inhabited

/-- A positive quotient of natural numbers. -/
structure Quotient where
  num : Nat
  den : Nat
  deriving DecidableEq, Repr, Inhabited

def Quotient.divTen (x : Quotient) (k : Int) : Quotient :=
  if 0 ≤ k then ⟨x.num, x.den * Nat.pow 10 k.toNat⟩ else ⟨x.num * Nat.pow 10 (-k).toNat, x.den⟩

/-- Whether the quotient is at least a power of ten. -/
def Quotient.atLeastTen (x : Quotient) (k : Int) : Bool :=
  let y := x.divTen k
  y.den ≤ y.num

/-- The exponent of the power of ten at or below a positive quotient: a low estimate by the binary
sizes, then up as far as the quotient allows. -/
def decimalExponent (x : Quotient) : Int :=
  let bits : Int := (Nat.log2 x.num : Int) - (Nat.log2 x.den : Int) - 1
  let low : Int := Int.fdiv (bits * 30103) 100000 - 1
  if x.atLeastTen (low + 3) then low + 3
  else if x.atLeastTen (low + 2) then low + 2
  else if x.atLeastTen (low + 1) then low + 1
  else low

/-- The numbers that read back as a value, in quarters of the last place of its significand. -/
structure Interval where
  low : Nat
  value : Nat
  high : Nat
  closed : Bool
  /-- The size of a quarter in units of the format. -/
  shift : Nat
  deriving DecidableEq, Repr

/-- The interval around a positive finite number. Below a power of two the neighbour is nearer. -/
def interval (f : Binary.Format) (units : Nat) : Interval :=
  let drop := f.excess units
  let significand := units >>> drop
  let nearer := significand == 1 <<< (f.precision - 1) && drop != 0
  { low := 4 * significand - (if nearer then 1 else 2)
    value := 4 * significand
    high := 4 * significand + 2
    closed := significand % 2 == 0
    shift := drop }

/-- Whether `c * 10 ^ k` reads back, all sides being scaled by the same power of two. -/
def Interval.contains (i : Interval) (f : Binary.Format) (c : Nat) (k : Int) : Bool :=
  let grid := if 0 ≤ k then c * Nat.pow 10 k.toNat else c
  let ten := if 0 ≤ k then 1 else Nat.pow 10 (-k).toNat
  let x := grid <<< (f.scale + 2)
  let low := (i.low * ten) <<< i.shift
  let high := (i.high * ten) <<< i.shift
  if i.closed then low ≤ x && x ≤ high else low < x && x < high

/-- The digits of a whole number of `10 ^ k`, without the zeros at the end. -/
def decimalOf (c : Nat) (k : Int) : Decimal :=
  let digits := Bytes.decimal c
  let kept := (digits.reverse.dropWhile (· == 0x30)).reverse
  { digits := kept, exponent := k + (digits.length : Nat) - 1 }

def tryGrid (f : Binary.Format) (i : Interval) (x : Quotient) (k : Int) : Option Decimal :=
  let y := x.divTen k
  let c := y.num / y.den
  let twice := 2 * (y.num % y.den)
  match i.contains f c k && c != 0, i.contains f (c + 1) k with
  | true, false => some (decimalOf c k)
  | false, true => some (decimalOf (c + 1) k)
  | true, true =>
    some (decimalOf (if twice < y.den || (twice == y.den && c % 2 == 0) then c else c + 1) k)
  | false, false => none

/-- Tries ever finer grids from the power `k` of ten on. -/
def search (f : Binary.Format) (i : Interval) (x : Quotient) : Nat → Int → Decimal
  | 0, k =>
    let y := x.divTen k
    decimalOf (Binary.roundDiv y.num y.den) k
  | more + 1, k =>
    match tryGrid f i x k with
    | some d => d
    | none => search f i x more (k - 1)

/-- The shortest decimal of a positive finite number of `units` units. -/
def decimal (f : Binary.Format) (units : Nat) : Decimal :=
  let x : Quotient := ⟨units, 1 <<< f.scale⟩
  search f (interval f units) x 20 (decimalExponent x)

/-! ## Layouts -/

def plain (d : Decimal) : Bytes :=
  if d.exponent < 0 then
    "0." ++ List.replicate (-d.exponent - 1).toNat (0x30 : UInt8) ++ d.digits
  else
    let whole := d.exponent.toNat + 1
    if d.digits.length ≤ whole then Bytes.padRight whole 0x30 d.digits
    else d.digits.take whole ++ "." ++ d.digits.drop whole

/-- One digit before the point, and an exponent with its sign and at least two digits. -/
def scientific (d : Decimal) : Bytes :=
  let mantissa :=
    match d.digits with
    | c :: rest => if rest.isEmpty then [c] else c :: ("." ++ rest)
    | [] => []
  mantissa ++ (if d.exponent < 0 then "e-" else "e+") ++
    Bytes.padLeft 2 0x30 (Bytes.decimal d.exponent.natAbs)

/-- Plain for exponents from -4 to 5, else with an exponent. -/
def general (d : Decimal) : Bytes :=
  if d.exponent < -4 || 6 ≤ d.exponent then scientific d else plain d

/-- The text of a number, given the layout of a finite one that is not zero. -/
def render {f : Binary.Format} (layout : Decimal → Bytes) : Binary f → Bytes
  | .nan => "NaN"
  | .infinite negative => if negative then "-Inf" else "+Inf"
  | .finite negative units =>
    let sign : Bytes := if negative then "-" else []
    if units = 0 then sign ++ "0" else sign ++ layout (decimal f units)

end SpectrumTape.Shortest
