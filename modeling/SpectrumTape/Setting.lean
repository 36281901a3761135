import SpectrumTape.Text.Rune

/-!
# Values from several places

Small rules for values that a user can give in more than one place or in more than one spelling.
-/

namespace SpectrumTape.Setting

/-- The first value that is set, a default value counting as not set. -/
def firstSet {α : Type} [DecidableEq α] [Inhabited α] (values : List α) : α :=
  (values.find? (· ≠ default)).getD default

/-- Whether a text says yes, in any case and with blanks around it. Anything else says no. -/
def isYes (text : Bytes) : Bool :=
  let word := text.trimBlank.toLowerWord
  ["true", "t", "yes", "y", "on", "1"].any (word == utf8 ·)

end SpectrumTape.Setting
