import SpectrumTape.Command.Table

/-!
# Stored tables

Tables are stored under addresses, so that one table can be at hand in several places. What is written
to an address is read wherever the address is known; a copy has an address of its own.
-/

namespace SpectrumTape.Command

/-- Tables by their addresses. -/
structure Store (α : Type) where
  tables : List (Table α)

namespace Store

variable {α : Type}

def size (s : Store α) : Nat := s.tables.length

/-- The table at an address; where none is stored it is empty. -/
def read (s : Store α) (address : Nat) : Table α := s.tables.getD address []

/-- A table of its own with the commands of another one. -/
def copy (s : Store α) (address : Nat) : Nat × Store α :=
  (s.size, { tables := s.tables ++ [s.read address] })

def write (s : Store α) (address : Nat) (name : Bytes) (c : Cmd α) : Store α :=
  { tables := s.tables.modify address fun t => t.insert name c }

/-- Binds names in the table at an address, up to the first one that is bound there already. -/
def extend (s : Store α) (address : Nat) : List (Bytes × Cmd α) → Store α × Option Bytes
  | [] => (s, none)
  | (name, c) :: rest =>
    if (s.read address).contains name then (s, some name)
    else (s.write address name c).extend address rest

theorem size_extend (s : Store α) (address : Nat) (entries : List (Bytes × Cmd α)) :
    (s.extend address entries).1.size = s.size := by
  induction entries generalizing s with
  | nil => rfl
  | cons e rest ih =>
    unfold extend
    split
    · rfl
    · rw [ih]
      exact List.length_modify ..

theorem size_extend_copy (s : Store α) (address : Nat) (entries : List (Bytes × Cmd α)) :
    ((s.copy address).2.extend (s.copy address).1 entries).1.size = s.size + 1 := by
  rw [size_extend]
  exact List.length_append

end Store

end SpectrumTape.Command
