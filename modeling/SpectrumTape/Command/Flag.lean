import SpectrumTape.Command.Execution

/-!
# Flags

A flag holds a value that commands change: one command gives it the value of its argument, another
one its zero value; a switch is turned on and off; a collecting flag keeps the values of all its
arguments.
-/

namespace SpectrumTape.Command

/-- A change of a flag. -/
inductive Change where
  /-- To the value of the argument. -/
  | take
  /-- To a fixed value. -/
  | fix (v : ArgValue)
  /-- By one value more. -/
  | append
  deriving DecidableEq, Repr, Inhabited

/-- What a flag holds. -/
inductive FlagValue where
  | one (v : ArgValue)
  | many (vs : List ArgValue)
  deriving DecidableEq, Repr, Inhabited

/-- A kind of flags. -/
inductive FlagKind where
  | variable (type : ArgType)
  | switch
  | collect (type : ArgType)
  deriving DecidableEq, Repr, Inhabited

def FlagKind.start : FlagKind → FlagValue
  | .variable type => .one type.zero
  | .switch => .one (.bool false)
  | .collect _ => .many []

def FlagValue.change (v : FlagValue) (c : Change) (arguments : List ArgValue) : FlagValue :=
  match c, v, arguments with
  | .take, _, a :: _ => .one a
  | .fix a, _, _ => .one a
  | .append, .many vs, a :: _ => .many (vs ++ [a])
  | _, v, _ => v

def changing {α : Type} (label : α) (types : List ArgType) (argNames : List String)
    (description : Bytes) : Cmd α :=
  .mk (some { label, types }) [] { description, argNames := argNames.map utf8 }

/-- The commands of a flag with a name; `label` says what a change of it is called. -/
def FlagKind.commands {α : Type} (label : Change → α) (name description : Bytes) :
    FlagKind → List (Bytes × Cmd α)
  | .variable type =>
    [(name, changing (label .take) [type] ["VALUE"] description),
      (name ++ ".", changing (label (.fix type.zero)) [] [] ("reset " ++ name))]
  | .switch =>
    [(name, changing (label (.fix (.bool true))) [] [] description),
      ("!" ++ name, changing (label (.fix (.bool false))) [] [] ("turn off " ++ name))]
  | .collect type => [(name, changing (label .append) [type] ["VALUE"] description)]

/-! ## Sets of flags -/

/-- A flag of a set. One of which not all commands could be defined is not offered. -/
structure Flag where
  name : Bytes
  offered : Bool
  value : FlagValue
  deriving DecidableEq, Repr, Inhabited

/-- A change of the flag at a place. -/
structure FlagChange where
  place : Nat
  change : Change
  deriving DecidableEq, Repr, Inhabited

/-- Flags with the commands that change them. -/
structure Flags where
  table : Table FlagChange
  flags : List Flag := []

namespace Flags

/-- Defines a flag, up to the first of its commands that is refused. -/
def define (f : Flags) (kind : FlagKind) (name description : Bytes) : Flags × Option Refusal :=
  let place := f.flags.length
  let (table, refusal) :=
    f.table.defineAll (kind.commands (fun change => ⟨place, change⟩) name description)
  let flag : Flag := { name, offered := refusal.isNone, value := kind.start }
  ({ table, flags := f.flags ++ [flag] }, refusal)

def apply (flags : List Flag) (call : FlagChange × List ArgValue) : List Flag :=
  flags.modify call.1.place fun f => { f with value := f.value.change call.1.change call.2 }

/-- The flags after the execution of words. What was changed before a failure stays. -/
def execute (f : Flags) (words : List Bytes) : Flags × Outcome :=
  let e := f.table.execute words
  ({ f with flags := e.calls.foldl apply f.flags }, e.outcome)

end Flags

/-- The name of the command that prints the usage. -/
def helpName : Bytes := "-h"

/-- The command that prints the usage and ends the program. -/
def help {α : Type} (label : α) : Cmd α :=
  .mk (some { label, ending := .exits }) []
    { description := "print this usage", aliases := [utf8 "help", utf8 "-help", utf8 "--help"] }

end SpectrumTape.Command
