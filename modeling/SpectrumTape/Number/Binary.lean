/-!
# Binary floating point

A finite number of a binary format is a whole multiple of the format's least positive value, so it
is held as a sign and that multiple. Two finite numbers are equal exactly if their fields are, and
every operation is exact arithmetic on natural numbers followed by one rounding.
-/

namespace SpectrumTape

/-- A binary format: how many bits its significands have, the least positive value `2^-scale`, and
the bound `2^range` of the finite values. -/
structure Binary.Format where
  precision : Nat
  scale : Nat
  range : Nat
  deriving DecidableEq, Repr

def Binary.format64 : Binary.Format := ⟨53, 1074, 1024⟩

def Binary.format32 : Binary.Format := ⟨24, 149, 128⟩

/-- A number of a binary format. A finite one is `units` times the least positive value. -/
inductive Binary (f : Binary.Format) where
  | nan
  | infinite (negative : Bool)
  | finite (negative : Bool) (units : Nat)
  deriving DecidableEq, Repr, Inhabited

abbrev Binary64 := Binary Binary.format64

abbrev Binary32 := Binary Binary.format32

namespace Binary

def bitLength (n : Nat) : Nat := if n = 0 then 0 else Nat.log2 n + 1

/-- The quotient rounded to the nearest whole number, a half going to the even neighbour. -/
def roundDiv (num den : Nat) : Nat :=
  let q := num / den
  let r := num % den
  if den < 2 * r || (2 * r == den && q % 2 == 1) then q + 1 else q

/-- How many low bits a significand of the format cannot hold. -/
def Format.excess (f : Format) (units : Nat) : Nat := bitLength units - f.precision

/-- The number of the format nearest to the quotient `num / den`, a tie going to the even
significand; from the bound of the format on it is infinite. -/
def round (f : Format) (negative : Bool) (num den : Nat) : Binary f :=
  let scaled := num <<< f.scale
  let drop := f.excess (scaled / den)
  let units := roundDiv scaled (den <<< drop) <<< drop
  if units < 1 <<< (f.scale + f.range) then .finite negative units else .infinite negative

def ofBits (f : Format) (bits : Nat) : Binary f :=
  let hidden := f.precision - 1
  let fraction := bits % (1 <<< hidden)
  let biased := (bits >>> hidden) % (2 * f.range)
  let negative := (bits >>> hidden) / (2 * f.range) % 2 == 1
  if biased = 2 * f.range - 1 then if fraction = 0 then .infinite negative else .nan
  else if biased = 0 then .finite negative fraction
  else .finite negative (((1 <<< hidden) + fraction) <<< (biased - 1))

/-- The bit pattern of a number; every number that is none has the same one. -/
def toBits {f : Format} (v : Binary f) : Nat :=
  let hidden := f.precision - 1
  let sign (negative : Bool) := if negative then (2 * f.range) <<< hidden else 0
  match v with
  | .nan => ((2 * f.range - 1) <<< hidden) + (1 <<< (hidden - 1))
  | .infinite negative => sign negative + ((2 * f.range - 1) <<< hidden)
  | .finite negative units =>
    let drop := f.excess units
    sign negative + (drop <<< hidden) + (units >>> drop)

def isZero {f : Format} : Binary f → Bool
  | .finite _ units => units == 0
  | _ => false

/-- A number of 32 bits is also one of 64. -/
def widen : Binary32 → Binary64
  | .nan => .nan
  | .infinite negative => .infinite negative
  | .finite negative units => .finite negative (units <<< (format64.scale - format32.scale))

def ofInt (n : Int) : Binary64 := round format64 (n < 0) n.natAbs 1

/-- The number that is as far from zero on the other side. -/
def negate {f : Format} : Binary f → Binary f
  | .nan => .nan
  | .infinite negative => .infinite !negative
  | .finite negative units => .finite (!negative) units

/-- The sum of two numbers, rounded. Opposite infinities have none, and a sum of zero is negative
only if both parts are. -/
def add {f : Format} : Binary f → Binary f → Binary f
  | .nan, _ | _, .nan => .nan
  | .infinite a, .infinite b => if a == b then .infinite a else .nan
  | .infinite a, .finite .. => .infinite a
  | .finite .., .infinite b => .infinite b
  | .finite a m, .finite b n =>
    let sum : Int := (if a then -(m : Int) else m) + (if b then -(n : Int) else n)
    if sum = 0 then .finite (a && b) 0
    else round f (sum < 0) sum.natAbs (1 <<< f.scale)

/-- The whole part of a finite number, towards zero. -/
def truncate? {f : Format} : Binary f → Option Int
  | .finite negative units =>
    let whole : Int := ((units >>> f.scale : Nat) : Int)
    some (if negative then -whole else whole)
  | _ => none

end Binary

end SpectrumTape
