import SpectrumTape.Text.Bytes

/-!
# Why a program does not compile
-/

namespace SpectrumTape.Basic

/-- A cause of failure of the compiler. -/
inductive Cause where
  | wrongLineNumber
  | repeatedLineNumber
  | lesserLineNumber
  | numberAfterLabel
  | nonsense
  | emptyHexadecimal
  | largeHexadecimal
  | emptyBinary
  | largeBinary
  | invalidNumber
  | largeNumber
  | invalidLabel
  | duplicateLabel (name : Bytes)
  | invalidReference
  | openString
  | stringEscape
  | remarkEscape
  | unresolvedConstant (name : Bytes)
  | unresolvedVariable (name : Bytes)
  | noValue (name : Bytes)
  | notANumber (value name : Bytes)
  | emptyProgram
  | noBytes
  deriving DecidableEq, Repr, Inhabited

def Cause.message : Cause → Bytes
  | .wrongLineNumber => "Wrong line number."
  | .repeatedLineNumber => "Line number is equal to previous one."
  | .lesserLineNumber => "Line number is lesser than previous one."
  | .numberAfterLabel => "Explicit line number follows a symbolic line number."
  | .nonsense => "Nonsense in BASIC."
  | .emptyHexadecimal => "Invalid hexadecimal number."
  | .largeHexadecimal => "Hexadecimal number is too big."
  | .emptyBinary => "Invalid binary number."
  | .largeBinary => "Binary number is too big."
  | .invalidNumber => "Invalid number."
  | .largeNumber => "Exponent out of range (number is too big)."
  | .invalidLabel => "Invalid symbolic line number."
  | .duplicateLabel name =>
    "Duplicate symbolic line number `" ++ name ++ "` detected in BASIC file."
  | .invalidReference => "Invalid usage of symbolic line number."
  | .openString => "Unexpected end of string."
  | .stringEscape => "Invalid character escape sequence in string."
  | .remarkEscape => "Invalid escaped character in REM statement."
  | .unresolvedConstant name =>
    "Constant `" ++ name ++ "` injected into BASIC has unresolved value."
  | .unresolvedVariable name => "Variable `" ++ name ++ "` used in BASIC has unresolved value."
  | .noValue name => "Unable to resolve value of variable `" ++ name ++ "`."
  | .notANumber value name =>
    "Value `" ++ value ++ "` of variable `" ++ name ++ "` is not a number."
  | .emptyProgram => "BASIC program is empty."
  | .noBytes => "No bytes were generated from BASIC program."

end SpectrumTape.Basic
