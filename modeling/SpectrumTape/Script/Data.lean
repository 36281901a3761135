import SpectrumTape.Text.Quoted
import SpectrumTape.Number.Shortest

/-!
# Data of scripts

What a value of a script amounts to, without regard to which lists and dictionaries are shared:
its type, whether it counts as true, the text that denotes it, and how it compares with others.
-/

namespace SpectrumTape.Script

/-- A value as a tree. -/
inductive Data where
  | none
  | bool (b : Bool)
  | int (n : Int)
  | float (x : Binary64)
  | string (s : Bytes)
  | bytes (s : Bytes)
  | list (items : List Data)
  /-- Keys with their values, in the order of insertion. -/
  | dict (entries : List (Data × Data))
  | range (start stop step : Int)
  | function (name : Bytes) (id : Nat)
  | builtin (name : Bytes)
  /-- A list inside itself. -/
  | listAgain
  /-- A dictionary inside itself. -/
  | dictAgain
  deriving Repr, Inhabited

def rangeLength (start stop step : Int) : Nat :=
  if 0 < step then ((stop - start + step - 1) / step).toNat
  else if step < 0 then ((start - stop + (-step) - 1) / (-step)).toNat
  else 0

def rangeItems (start stop step : Int) : List Int :=
  (List.range (rangeLength start stop step)).map fun i => start + step * (i : Nat)

namespace Data

def typeName : Data → Bytes
  | .none => "NoneType"
  | .bool _ => "bool"
  | .int _ => "int"
  | .float _ => "float"
  | .string _ => "string"
  | .bytes _ => "bytes"
  | .list _ | .listAgain => "list"
  | .dict _ | .dictAgain => "dict"
  | .range .. => "range"
  | .function .. => "function"
  | .builtin _ => "builtin_function_or_method"

/-- Whether a value counts as true: zero and whatever is empty does not. -/
def truth : Data → Bool
  | .none => false
  | .bool b => b
  | .int n => n != 0
  | .float x => !x.isZero
  | .string s | .bytes s => !s.isEmpty
  | .list items => !items.isEmpty
  | .dict entries => !entries.isEmpty
  | .range start stop step => rangeLength start stop step != 0
  | .function .. | .builtin _ | .listAgain | .dictAgain => true

/-- The text of a float: it always has a point or an exponent. -/
def floatText (x : Binary64) : Bytes :=
  match x with
  | .nan => "nan"
  | .infinite negative => if negative then "-inf" else "+inf"
  | .finite .. =>
    let s := Shortest.render Shortest.general x
    if s.contains 0x2E || s.contains 0x65 then s else s ++ ".0"

/-- The text of a range, with as few numbers as determine it. -/
def rangeText (start stop step : Int) : Bytes :=
  let numbers :=
    if step != 1 then [start, stop, step] else if start != 0 then [start, stop] else [stop]
  "range(" ++ Bytes.join ", " (numbers.map Bytes.decimalInt) ++ ")"

mutual

def literal : Data → Bytes
  | .none => "None"
  | .bool b => if b then "True" else "False"
  | .int n => Bytes.decimalInt n
  | .float x => floatText x
  | .string s => s.quoted
  | .bytes s => "b" ++ s.quoted
  | .list items => "[" ++ Bytes.join ", " (literals items) ++ "]"
  | .dict entries => "\x7b" ++ Bytes.join ", " (entryLiterals entries) ++ "\x7d"
  | .range start stop step => rangeText start stop step
  | .function name _ => "<function " ++ name ++ ">"
  | .builtin name => "<built-in function " ++ name ++ ">"
  | .listAgain => "[...]"
  | .dictAgain => "\x7b...\x7d"

def literals : List Data → List Bytes
  | [] => []
  | d :: rest => d.literal :: literals rest

def entryLiterals : List (Data × Data) → List Bytes
  | [] => []
  | (k, v) :: rest => (k.literal ++ ": " ++ v.literal) :: entryLiterals rest

end

/-- The text of a value where it is displayed: a string stands for itself. -/
def display : Data → Bytes
  | .string s => s
  | d => d.literal

def isKey : Data → Bool
  | .list _ | .dict _ | .listAgain | .dictAgain => false
  | _ => true

/-! ## Comparison -/

/-- The place of a float in the order of all numbers: minus infinity, the finite numbers by their
units, infinity, and last what is no number. -/
def floatPlace : Binary64 → Int × Int
  | .infinite negative => (if negative then -1 else 1, 0)
  | .finite negative units => (0, if negative then -(units : Int) else units)
  | .nan => (2, 0)

/-- The place of a value in the order of all numbers, if it is one. -/
def place? : Data → Option (Int × Int)
  | .int n => some (0, n * ((1 <<< Binary.format64.scale : Nat) : Int))
  | .float x => some (floatPlace x)
  | _ => Option.none

def comparePlaces (a b : Int × Int) : Ordering :=
  (Ord.compare a.1 b.1).then (Ord.compare a.2 b.2)

def compareBytes (a b : Bytes) : Ordering :=
  if Bytes.lt a b then .lt else if Bytes.lt b a then .gt else .eq

/-- The order of two values of one type that has an order and no parts, or of two numbers. -/
def order? : Data → Data → Option Ordering
  | .bool a, .bool b => some (Ord.compare a.toNat b.toNat)
  | .string a, .string b => some (compareBytes a b)
  | .bytes a, .bytes b => some (compareBytes a b)
  | a, b =>
    match a.place?, b.place? with
    | some p, some q => some (comparePlaces p q)
    | _, _ => Option.none

def equalParts : Data → Data → Bool
  | .none, .none => true
  | .range a b c, .range a' b' c' => rangeItems a b c == rangeItems a' b' c'
  | .function _ i, .function _ j => i == j
  | .builtin a, .builtin b => a == b
  | a, b => order? a b == some .eq

def find? (key : Data) (entries : List (Data × Data)) : Option Data :=
  (entries.find? fun e => equalParts key e.1).map Prod.snd

mutual

/-- Whether two values are equal: numbers by their value, lists and dictionaries by their parts. -/
def equal : Data → Data → Bool
  | .list xs, .list ys => equalItems xs ys
  | .dict xs, .dict ys => xs.length == ys.length && entriesWithin ys xs
  | a, b => equalParts a b

def equalItems : List Data → List Data → Bool
  | [], [] => true
  | x :: xs, y :: ys => equal x y && equalItems xs ys
  | _, _ => false

/-- Whether all entries of the second dictionary are in the first. -/
def entriesWithin (ys : List (Data × Data)) : List (Data × Data) → Bool
  | [] => true
  | (k, v) :: rest =>
    (match find? k ys with
      | some w => equal v w
      | Option.none => false) && entriesWithin ys rest

end

end Data

/-- A comparison of two values. -/
inductive Comparison where
  | eq
  | ne
  | lt
  | gt
  | le
  | ge
  deriving DecidableEq, Repr, Inhabited

namespace Comparison

def text : Comparison → Bytes
  | .eq => "=="
  | .ne => "!="
  | .lt => "<"
  | .gt => ">"
  | .le => "<="
  | .ge => ">="

/-- Whether a comparison holds of values in an order. -/
def holds : Comparison → Ordering → Bool
  | .eq, o => o == .eq
  | .ne, o => o != .eq
  | .lt, o => o == .lt
  | .gt, o => o == .gt
  | .le, o => o != .gt
  | .ge, o => o != .lt

mutual

/-- Compares two values. Values of different types are unequal and, numbers apart, have no
order. -/
def apply (op : Comparison) : Data → Data → Except Bytes Bool
  | .list xs, .list ys => applyItems op xs ys
  | x, y =>
    match op with
    | .eq => .ok (x.equal y)
    | .ne => .ok !(x.equal y)
    | _ =>
      match x.order? y with
      | some o => .ok (op.holds o)
      | none =>
        .error (x.typeName ++ " " ++ op.text ++ " " ++ y.typeName ++ " not implemented")

/-- Compares two lists: the first unequal items decide, or else the lengths. -/
def applyItems (op : Comparison) : List Data → List Data → Except Bytes Bool
  | x :: xs, y :: ys =>
    if x.equal y then applyItems op xs ys
    else
      match op with
      | .eq => .ok false
      | .ne => .ok true
      | _ => apply op x y
  | [], ys => .ok (op.holds (Ord.compare 0 ys.length))
  | _ :: _, [] => .ok (op.holds .gt)

end

end Comparison

end SpectrumTape.Script
