import SpectrumTape.Text.Bytes

/-!
# Diagnostics

A diagnostic is a message about a place in a source. A failure is made of one or more faults, each
with or without a place; its text has one line for each of them.
-/

namespace SpectrumTape

/-- A place in a source. The line zero stands for the source as a whole. -/
structure Location where
  path : Bytes := []
  line : Int := 0
  column : Int := 0
  deriving DecidableEq, Repr, Inhabited

namespace Location

/-- The source as a whole. -/
def ofPath (path : Bytes) : Location := { path }

/-- The path, then line and column if they are known. -/
def render (l : Location) : Bytes :=
  let inside := Bytes.decimalInt l.line ++ ":" ++ Bytes.decimalInt l.column
  if l.path.isEmpty then if 0 < l.line then inside else []
  else if 0 < l.line then l.path ++ ":" ++ inside
  else l.path

/-- A message behind its place, if that has a text. -/
def mark (l : Location) (message : Bytes) : Bytes :=
  if l.render.isEmpty then message else l.render ++ ": " ++ message

end Location

/-- How grave a diagnostic is. -/
inductive Severity where
  | info
  | warning
  | error
  deriving DecidableEq, Repr, Inhabited

namespace Severity

def name : Severity → Bytes
  | .info => "info"
  | .warning => "warning"
  | .error => "error"

def ofCode? (n : Int) : Option Severity :=
  if n = 0 then some .info else if n = 1 then some .warning else if n = 2 then some .error else none

/-- The name that belongs to a code, also where there is no such severity. -/
def nameOfCode (n : Int) : Bytes :=
  match ofCode? n with
  | some s => s.name
  | none => "Severity(" ++ Bytes.decimalInt n ++ ")"

end Severity

/-- A message about a place. -/
structure Diagnostic where
  severity : Severity
  location : Location
  message : Bytes
  deriving DecidableEq, Repr, Inhabited

namespace Diagnostic

def render (d : Diagnostic) : Bytes := d.location.mark (d.severity.name ++ ": " ++ d.message)

def count (s : Severity) (ds : List Diagnostic) : Nat := (ds.filter (·.severity == s)).length

end Diagnostic

/-- A cause of failure, with its place if it has one. -/
structure Fault (ε : Type) where
  location : Option Location := none
  cause : ε
  deriving DecidableEq, Repr, Inhabited

/-- One or more faults. -/
structure Failure (ε : Type) where
  first : Fault ε
  more : List (Fault ε) := []
  deriving DecidableEq, Repr, Inhabited

namespace Fault

/-- The text of a fault, given the text of its cause. -/
def message {ε : Type} (text : ε → Bytes) (f : Fault ε) : Bytes :=
  match f.location with
  | some l => l.mark (text f.cause)
  | none => text f.cause

def map {ε ε' : Type} (g : ε → ε') (f : Fault ε) : Fault ε' :=
  { location := f.location, cause := g f.cause }

end Fault

namespace Failure

def faults {ε : Type} (f : Failure ε) : List (Fault ε) := f.first :: f.more

/-- The failure with these faults, if there are any. -/
def ofFaults? {ε : Type} : List (Fault ε) → Option (Failure ε)
  | [] => none
  | first :: more => some { first, more }

def one {ε : Type} (location : Option Location) (cause : ε) : Failure ε :=
  { first := { location, cause } }

/-- The text of a failure: one line for each fault. -/
def message {ε : Type} (text : ε → Bytes) (f : Failure ε) : Bytes :=
  Bytes.join "\n" (f.faults.map (Fault.message text))

def location? {ε : Type} (f : Failure ε) : Option Location := f.faults.findSome? Fault.location

def map {ε ε' : Type} (g : ε → ε') (f : Failure ε) : Failure ε' :=
  { first := f.first.map g, more := f.more.map (Fault.map g) }

def push {ε : Type} (f : Failure ε) (fault : Fault ε) : Failure ε :=
  { f with more := f.more ++ [fault] }

end Failure

end SpectrumTape
