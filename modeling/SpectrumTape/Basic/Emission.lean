import SpectrumTape.Basic.Survey
import SpectrumTape.Basic.Program

/-!
# The second pass

The emission writes the program. Every name that the source refers to has a value by now; what can
still fail is that the value of a constant is no number, or none that the machine can hold.
-/

namespace SpectrumTape.Basic

/-- A line under way: its number and its bytes so far, the latest one first. -/
structure OpenLine where
  number : Nat
  written : Bytes := []
  deriving DecidableEq, Repr, Inhabited

/-- The program as far as it is written: the lines that are complete, the latest one first, and the
line under way. -/
structure Emission where
  numbering : Numbering := {}
  lines : List Line := []
  current : Option OpenLine := none
  deriving DecidableEq, Repr, Inhabited

namespace Emission

/-- The value of a name, constants coming first. -/
def valueOf? (constants symbols : Symbols) (name : Bytes) : Option Bytes :=
  match constants.get? name with
  | some v => v.value
  | none => symbols.value? name

/-- A value as a number of the program, blanks around it being left out. -/
def numberOfValue (name value : Bytes) : Except Cause Number :=
  match Reading.readBinary Binary.format64 value.trimBlank with
  | .ok v => Literal.numberOf value.trimBlank v
  | .error _ => .error (.notANumber value name)

def tokenBytes (o : Options) (constants symbols : Symbols) : Token → Except Cause Bytes
  | .reference name =>
    match valueOf? constants symbols name with
    | some value => do
      let n ← numberOfValue name value
      return n.bytes
    | none => .error (.noValue name)
  | .keyword code => .ok [code]
  | .number n => .ok n.bytes
  | .string content =>
    .ok (if o.quoted then Ascii.quote :: (content ++ [Ascii.quote]) else content)
  | .plain bytes => .ok bytes
  | .fault cause => .error cause
  | _ => .ok []

def write (e : Emission) (bytes : Bytes) : Emission :=
  { e with current := e.current.map fun l => { l with written := bytes.reverse ++ l.written } }

def closeLine (e : Emission) : Emission :=
  match e.current with
  | some l =>
    { e with
      lines := ⟨l.number, (Code.endOfLine :: l.written).reverse⟩ :: e.lines, current := none }
  | none => e

def step (o : Options) (constants symbols : Symbols) (path : Bytes) (e : Emission) (i : Item) :
    Except (Fault Cause) Emission :=
  let located (r : Except Cause Emission) : Except (Fault Cause) Emission :=
    r.mapError fun cause => { location := some (Survey.place path i), cause }
  located do
    let numbering ← e.numbering.step o i.token
    let bytes ← tokenBytes o constants symbols i.token
    let e := { e with numbering }
    match i.token with
    | .lineNumber _ => return { e with current := some { number := numbering.last } }
    | .statement => return { e with current := some { number := numbering.last } }
    | .lineEnd => return e.closeLine
    | _ => return e.write bytes

/-- The emission of a source, up to its first fault. -/
def run (o : Options) (constants symbols : Symbols) (path : Bytes) (items : List Item) :
    Emission × Option (Fault Cause) :=
  runSteps (step o constants symbols path) {} items

def program (e : Emission) : Program := e.lines.reverse

end Emission

end SpectrumTape.Basic
