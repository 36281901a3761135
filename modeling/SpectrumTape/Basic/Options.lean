import SpectrumTape.Text.Bytes

/-!
# Options of the compiler

Settings are what a user asks for; options are settings whose numbers were found to be usable.
-/

namespace SpectrumTape.Basic

def minLineNumber : Nat := 1

def maxLineNumber : Nat := 9999

/-- What a user asks of the compiler: the first number given to a line without one, the distance
between such lines, and whether string literals keep their quotes. -/
structure Settings where
  start : Int := 10
  step : Int := 2
  quoted : Bool := false
  deriving DecidableEq, Repr, Inhabited

/-- Settings with a usable first number and a usable distance. -/
structure Options where
  start : Nat := 10
  step : Nat := 2
  quoted : Bool := false
  start_pos : minLineNumber ≤ start := by decide
  start_le : start ≤ maxLineNumber := by decide
  step_pos : 1 ≤ step := by decide
  step_le : step ≤ maxLineNumber := by decide
  deriving DecidableEq, Repr

/-- The options that are used unless others are asked for. -/
def Options.standard : Options := {}

instance : Inhabited Options := ⟨.standard⟩

/-- Why settings are not usable. -/
inductive SettingsError where
  | start (n : Int)
  | step (n : Int)
  deriving DecidableEq, Repr, Inhabited

def SettingsError.message : SettingsError → Bytes
  | .start n => "invalid options: initial line number " ++ Bytes.decimalInt n
  | .step n => "invalid options: line number increment " ++ Bytes.decimalInt n

def Settings.options (s : Settings) : Except SettingsError Options :=
  if hs : minLineNumber ≤ s.start.toNat ∧ s.start.toNat ≤ maxLineNumber then
    if ht : 1 ≤ s.step.toNat ∧ s.step.toNat ≤ maxLineNumber then
      .ok
        { start := s.start.toNat, step := s.step.toNat, quoted := s.quoted
          start_pos := hs.1, start_le := hs.2, step_pos := ht.1, step_le := ht.2 }
    else .error (.step s.step)
  else .error (.start s.start)

def Options.settings (o : Options) : Settings := ⟨o.start, o.step, o.quoted⟩

end SpectrumTape.Basic
