import SpectrumTape.Basic.Options
import SpectrumTape.Basic.Token

/-!
# Numbers of program lines

The numbers of a program ascend. A line without a number of its own gets the next one: a step
above the line before it. A label names the number of the line that follows it, so it holds that
number back until then, and a line with a number of its own may not come in between.
-/

namespace SpectrumTape.Basic

/-- How far the numbering of a program went. -/
structure Numbering where
  /-- The number of the last line, zero before the first one. -/
  last : Nat := 0
  /-- The number that a label took for the line to come. -/
  pending : Option Nat := none
  deriving DecidableEq, Repr, Inhabited

namespace Numbering

/-- The number of the next line that has none of its own. -/
def next (o : Options) (n : Numbering) : Nat :=
  match n.pending with
  | some number => number
  | none => if n.last = 0 then o.start else n.last + o.step

def openLine (n : Numbering) (number : Nat) : Except Cause Numbering :=
  if number < minLineNumber || maxLineNumber < number then .error .wrongLineNumber
  else if number = n.last then .error .repeatedLineNumber
  else if number < n.last then .error .lesserLineNumber
  else .ok { last := number }

def step (o : Options) (n : Numbering) : Token → Except Cause Numbering
  | .lineNumber number =>
    if n.pending.isSome then .error .numberAfterLabel else n.openLine number
  | .statement => n.openLine (n.next o)
  | .label _ => .ok { n with pending := some (n.next o) }
  | _ => .ok n

end Numbering

/-- Runs through a list, step by step, up to the first step that fails. Gives the state before that
step and why it failed. -/
def runSteps {σ α ε : Type} (step : σ → α → Except ε σ) : σ → List α → σ × Option ε
  | s, [] => (s, none)
  | s, a :: rest =>
    match step s a with
    | .ok s' => runSteps step s' rest
    | .error e => (s, some e)

end SpectrumTape.Basic
