import SpectrumTape.Datum

/-!
# Values of configurations

A value that is given twice has to be the same both times; structures that are given twice are put
together.
-/

namespace SpectrumTape.Config

/-- A value of a configuration. -/
inductive Value where
  | null
  | bool (b : Bool)
  | int (n : Int)
  /-- The number `digits * 10 ^ exponent`, where the digits do not end in a zero. -/
  | float (digits exponent : Int)
  | text (s : Bytes)
  | list (items : List Value)
  /-- Values by names, in the order in which the names first occur. -/
  | struct (fields : List (Bytes × Value))
  deriving Repr, Inhabited

namespace Value

/-- Divides digits by ten as long as they end in a zero, at most `fuel` times. -/
def stripZeros : Nat → Int → Int → Int × Int
  | 0, digits, exponent => (digits, exponent)
  | fuel + 1, digits, exponent =>
    if digits % 10 == 0 then stripZeros fuel (digits / 10) (exponent + 1) else (digits, exponent)

def ofDecimal (digits exponent : Int) : Value :=
  if digits == 0 then .float 0 0
  else
    let (d, e) := stripZeros (Bytes.decimal digits.natAbs).length digits exponent
    .float d e

/-- The number with the other sign, if the value is one. -/
def negate? : Value → Option Value
  | .int n => some (.int (-n))
  | .float digits exponent => some (.float (-digits) exponent)
  | _ => none

def isNumber : Value → Bool
  | .int _ | .float _ _ => true
  | _ => false

/-- Puts a field in the place of the one with its name. -/
def setField (name : Bytes) (v : Value) : List (Bytes × Value) → List (Bytes × Value)
  | [] => [(name, v)]
  | f :: rest => if f.1 == name then (name, v) :: rest else f :: setField name v rest

mutual

def unify : Value → Value → Option Value
  | .null, .null => some .null
  | .bool a, .bool b => if a == b then some (.bool a) else none
  | .int a, .int b => if a == b then some (.int a) else none
  | .float d e, .float d' e' => if d == d' && e == e' then some (.float d e) else none
  | .text s, .text t => if s == t then some (.text s) else none
  | .list xs, .list ys => (unifyItems xs ys).map .list
  | .struct xs, .struct ys => (unifyFields xs ys).map .struct
  | _, _ => none

def unifyItems : List Value → List Value → Option (List Value)
  | [], [] => some []
  | x :: xs, y :: ys => do
    let z ← unify x y
    let zs ← unifyItems xs ys
    return z :: zs
  | _, _ => none

def unifyFields : List (Bytes × Value) → List (Bytes × Value) → Option (List (Bytes × Value))
  | xs, [] => some xs
  | xs, (name, y) :: ys => do
    let z ← match xs.lookup name with
      | some x => unify x y
      | none => some y
    unifyFields (setField name z xs) ys

end

/-- The number nearest to a float, unless it is beyond all of the format or nearest to zero without
being zero. -/
def binary? (digits exponent : Int) : Option Binary64 :=
  let w : Reading.Written :=
    { negative := digits < 0, hex := false, value := digits.natAbs,
      significant := (Bytes.decimal digits.natAbs).length, exponent }
  if digits == 0 then some (.finite false 0)
  else
    match w.round Binary.format64 with
    | .finite negative units => if units == 0 then none else some (.finite negative units)
    | _ => none

/-- A value as one with its type; a float may have none. -/
def datum? : Value → Option Datum
  | .null => some .nothing
  | .bool b => some (.bool b)
  | .int n => some (.int n)
  | .float digits exponent => (binary? digits exponent).map .double
  | .text s => some (.text s)
  | .list _ | .struct _ => none

end Value

end SpectrumTape.Config
