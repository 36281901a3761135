import SpectrumTape.Text.Bytes

/-!
# Symbols

A variable is a name that a source refers to as `@name`: a label of the source or a constant from
outside. Symbols are variables ordered by name, with each name once.
-/

namespace SpectrumTape.Basic

/-- A name with its value, once it is known. -/
structure Variable where
  name : Bytes
  value : Option Bytes := none
  deriving DecidableEq, Repr, Inhabited

def Variable.constant (name value : Bytes) : Variable := ⟨name, some value⟩

def Variable.isResolved (v : Variable) : Bool := v.value.isSome

/-- The values injected into a program, in the order they are given. -/
abbrev Constants := List Variable

namespace Constants

def hasName (cs : Constants) (name : Bytes) : Bool := cs.any (·.name == name)

/-- The first constants with every further one whose name is not yet there. -/
def merge (first further : Constants) : Constants :=
  further.foldl (fun acc v => if hasName acc v.name then acc else acc ++ [v]) first

end Constants

/-- Variables in ascending order of their names. -/
structure Symbols where
  toList : List Variable := []
  deriving DecidableEq, Repr, Inhabited

namespace Symbols

/-- Puts a variable at its place in an ordered list, instead of one with the same name. -/
def insertOrdered (v : Variable) : List Variable → List Variable
  | [] => [v]
  | w :: rest =>
    if v.name == w.name then v :: rest
    else if Bytes.lt v.name w.name then v :: w :: rest
    else w :: insertOrdered v rest

def empty : Symbols := {}

def size (s : Symbols) : Nat := s.toList.length

def get? (s : Symbols) (name : Bytes) : Option Variable := s.toList.find? (·.name == name)

def contains (s : Symbols) (name : Bytes) : Bool := (s.get? name).isSome

/-- Adds a variable, or replaces the one with its name. -/
def set (s : Symbols) (v : Variable) : Symbols := ⟨insertOrdered v s.toList⟩

/-- The value of a name, if it is there and known. -/
def value? (s : Symbols) (name : Bytes) : Option Bytes := (s.get? name).bind Variable.value

/-- Gives a value to a name that is there, and tells whether it is. -/
def setValue (s : Symbols) (name value : Bytes) : Bool × Symbols :=
  if s.contains name then (true, s.set (.constant name value)) else (false, s)

end Symbols

end SpectrumTape.Basic
