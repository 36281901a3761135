import SpectrumTape.Diagnostics
import SpectrumTape.Basic.Symbols
import SpectrumTape.Basic.Numbering

/-!
# The first pass

A survey gives every label its number and collects every name that the source refers to. It finds
all faults of the source itself, so nothing but the values of constants is left for the second
pass to fail on.
-/

namespace SpectrumTape.Basic

/-- What is known about a source as far as it was read. -/
structure Survey where
  numbering : Numbering := {}
  symbols : Symbols := {}
  /-- The warnings, the latest one first. -/
  warnings : List Diagnostic := []
  deriving DecidableEq, Repr, Inhabited

namespace Survey

/-- The place of a token in the source at `path`. -/
def place (path : Bytes) (i : Item) : Location := ⟨path, i.line, i.column⟩

def ignoredText : Bytes := "Characters after line escape (\\) will be ignored."

/-- Binds a label to a number, unless its name has a value already. -/
def bindLabel (constants symbols : Symbols) (name : Bytes) (number : Nat) :
    Except Cause Symbols :=
  if constants.contains name || (symbols.value? name).isSome then .error (.duplicateLabel name)
  else .ok (symbols.set (.constant name (Bytes.decimal number)))

def noteReference (constants symbols : Symbols) (name : Bytes) : Symbols :=
  if constants.contains name || symbols.contains name then symbols else symbols.set ⟨name, none⟩

def step (o : Options) (constants : Symbols) (path : Bytes) (s : Survey) (i : Item) :
    Except (Fault Cause) Survey :=
  let located (r : Except Cause Survey) : Except (Fault Cause) Survey :=
    r.mapError fun cause => { location := some (place path i), cause }
  located do
    let numbering ← s.numbering.step o i.token
    match i.token with
    | .label name =>
      let symbols ← bindLabel constants s.symbols name (s.numbering.next o)
      return { s with numbering, symbols }
    | .reference name =>
      return { s with numbering, symbols := noteReference constants s.symbols name }
    | .ignored =>
      return { s with numbering, warnings := ⟨.warning, place path i, ignoredText⟩ :: s.warnings }
    | .fault cause => .error cause
    | _ => return { s with numbering }

/-- The survey of a source, up to its first fault. -/
def run (o : Options) (constants : Symbols) (path : Bytes) (items : List Item) :
    Survey × Option (Fault Cause) :=
  runSteps (step o constants path) {} items

def unresolved (s : Survey) : List Bytes :=
  (s.symbols.toList.filter (!·.isResolved)).map Variable.name

end Survey

end SpectrumTape.Basic
