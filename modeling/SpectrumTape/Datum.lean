import SpectrumTape.Dialect
import SpectrumTape.Number.Reading
import SpectrumTape.Script.Data

/-!
# Typed values

Configurations and the program itself hold values of many types. They have a text, which is what a
constant with such a value is replaced by, and they can be handed to a script.
-/

namespace SpectrumTape

/-- A value with its type. -/
inductive Datum where
  | nothing
  | bool (b : Bool)
  | text (s : Bytes)
  | bytes (s : Bytes)
  | int (n : Int)
  | dialect (d : Dialect)
  | double (x : Binary64)
  | single (x : Binary32)
  /-- A whole number of any size, which scripts see only as an empty record. -/
  | big (n : Int)
  /-- A number that is kept as it was written. -/
  | numeral (s : Bytes)
  | list (items : List Datum)
  /-- Values by names, in the order of the names. -/
  | table (entries : List (Bytes × Datum))
  /-- Values by numbers, in the order of the numbers. -/
  | numbered (entries : List (Int × Datum))
  /-- Named fields in their order, of which some are hidden from scripts. -/
  | record (fields : List (Bytes × Bool × Datum))
  | reference (target : Datum)
  | channel
  deriving Repr, Inhabited

namespace Datum

mutual

def general : Datum → Bytes
  | .nothing => "<nil>"
  | .bool b => if b then "true" else "false"
  | .text s | .numeral s => s
  | .bytes s => "[" ++ Bytes.join " " (s.map fun c => Bytes.decimal c.toNat) ++ "]"
  | .int n | .big n => Bytes.decimalInt n
  | .dialect d => d.name
  | .double x => Shortest.render Shortest.general x
  | .single x => Shortest.render Shortest.general x
  | .list items => "[" ++ Bytes.join " " (generals items) ++ "]"
  | .table entries => "map[" ++ Bytes.join " " (tableTexts entries) ++ "]"
  | .numbered entries => "map[" ++ Bytes.join " " (numberedTexts entries) ++ "]"
  | .record fields => "\x7b" ++ Bytes.join " " (fieldTexts fields) ++ "\x7d"
  | .reference target => "&" ++ target.general
  | .channel => "channel"

def generals : List Datum → List Bytes
  | [] => []
  | d :: rest => d.general :: generals rest

def tableTexts : List (Bytes × Datum) → List Bytes
  | [] => []
  | (k, v) :: rest => (k ++ ":" ++ v.general) :: tableTexts rest

def numberedTexts : List (Int × Datum) → List Bytes
  | [] => []
  | (k, v) :: rest => (Bytes.decimalInt k ++ ":" ++ v.general) :: numberedTexts rest

def fieldTexts : List (Bytes × Bool × Datum) → List Bytes
  | [] => []
  | (_, _, v) :: rest => v.general :: fieldTexts rest

end

/-- The text of a value as it would be typed in a program: numbers never have an exponent. -/
def constantText : Datum → Bytes
  | .text s => s
  | .double x => Shortest.render Shortest.plain x
  | .single x => Shortest.render Shortest.plain x
  | .numeral s =>
    match Reading.readBinary Binary.format64 s with
    | .ok x => Shortest.render Shortest.plain x
    | .error _ => s
  | d => d.general

/-! ## In scripts -/

/-- Why a value cannot be handed to a script: the name of its type. -/
structure Unsupported where
  typeName : Bytes
  deriving DecidableEq, Repr, Inhabited

def Unsupported.message (u : Unsupported) : Bytes :=
  "unsupported type for starlark: " ++ u.typeName

/-- Entries by numbers in the order of the texts of the numbers. -/
def orderByText {α : Type} (entries : List (Int × α)) : List (Int × α) :=
  entries.mergeSort fun a b => Bytes.le (Bytes.decimalInt a.1) (Bytes.decimalInt b.1)

mutual

/-- What a value is in a script. Dictionaries have their keys in the order of the texts of the
keys, and those of records in the order of the fields. -/
def toData : Datum → Except Unsupported Script.Data
  | .nothing => .ok .none
  | .bool b => .ok (.bool b)
  | .text s | .numeral s => .ok (.string s)
  | .bytes s => .ok (.bytes s)
  | .int n => .ok (.int n)
  | .dialect d => .ok (.int d.code)
  | .double x => .ok (.float x)
  | .single x => .ok (.float x.widen)
  | .big _ => .ok (.dict [])
  | .list items => do return .list (← listData items)
  | .table entries => do return .dict (← tableData entries)
  | .numbered entries => do
    let pairs ← numberedData entries
    return .dict ((orderByText pairs).map fun e => (.int e.1, e.2))
  | .record fields => do return .dict (← fieldData fields)
  | .reference target => target.toData
  | .channel => .error ⟨"chan int"⟩

def listData : List Datum → Except Unsupported (List Script.Data)
  | [] => .ok []
  | d :: rest => do
    let first ← d.toData
    return first :: (← listData rest)

def tableData : List (Bytes × Datum) → Except Unsupported (List (Script.Data × Script.Data))
  | [] => .ok []
  | (k, v) :: rest => do
    let first ← v.toData
    return (.string k, first) :: (← tableData rest)

def numberedData : List (Int × Datum) → Except Unsupported (List (Int × Script.Data))
  | [] => .ok []
  | (k, v) :: rest => do
    let first ← v.toData
    return (k, first) :: (← numberedData rest)

def fieldData :
    List (Bytes × Bool × Datum) → Except Unsupported (List (Script.Data × Script.Data))
  | [] => .ok []
  | (k, hidden, v) :: rest => do
    if hidden then fieldData rest
    else
      let first ← v.toData
      return (.string k, first) :: (← fieldData rest)

end

end Datum

end SpectrumTape
