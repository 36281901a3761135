import SpectrumTape.Text.Rune

/-!
# Dialects

The dialect of a program says which machine it is written for. Beside the two named ones there is
one for every other code; it has the vocabulary of the smaller machine.
-/

namespace SpectrumTape

/-- The machine a program is written for. -/
inductive Dialect where
  | k48
  | k128
  | unnamed (code : Int)
  deriving DecidableEq, Repr, Inhabited

namespace Dialect

def ofCode (n : Int) : Dialect := if n = 0 then .k48 else if n = 1 then .k128 else .unnamed n

def code : Dialect → Int
  | .k48 => 0
  | .k128 => 1
  | .unnamed n => n

def name : Dialect → Bytes
  | .k48 => "48k"
  | .k128 => "128k"
  | .unnamed n => "Dialect(" ++ Bytes.decimalInt n ++ ")"

/-- Why a text names no dialect. -/
structure Unknown where
  text : Bytes
  deriving DecidableEq, Repr, Inhabited

def Unknown.message (e : Unknown) : Bytes := "unknown dialect: " ++ e.text

/-- The dialect that a text names, in any case and with blanks around it. The empty text stands for
the smaller machine. -/
def parse (text : Bytes) : Except Unknown Dialect :=
  let word := text.trimBlank.toLowerWord
  if word == utf8 "48" || word == utf8 "48k" || word.isEmpty then .ok .k48
  else if word == utf8 "128" || word == utf8 "128k" then .ok .k128
  else .error ⟨text⟩

end Dialect

end SpectrumTape
