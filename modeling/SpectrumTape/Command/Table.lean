import SpectrumTape.Command.Argument

/-!
# Commands

A command does something with its arguments, or makes further commands known, or both. What it does
is named by a label, so that the meaning of labels is up to the program. A table holds the commands
by the words that call them.
-/

namespace SpectrumTape.Command

/-- How doing something ends. -/
inductive Ending where
  | returns
  | fails (message : Bytes)
  /-- The program ends at once. -/
  | exits
  deriving DecidableEq, Repr, Inhabited

/-- Something to be done: its label, the types of its arguments and how it ends. -/
structure Action (α : Type) where
  label : α
  types : List ArgType := []
  ending : Ending := .returns
  deriving DecidableEq, Repr, Inhabited

/-- The words that describe a command to its users. -/
structure Info where
  description : Bytes := []
  aliases : List Bytes := []
  argNames : List Bytes := []
  deriving DecidableEq, Repr, Inhabited

/-- A command, with the commands that it makes known. -/
inductive Cmd (α : Type) where
  | mk (action : Option (Action α)) (subs : List (Bytes × Cmd α)) (info : Info)
  deriving Repr

namespace Cmd

variable {α : Type}

instance : Inhabited (Cmd α) := ⟨.mk none [] {}⟩

def action : Cmd α → Option (Action α)
  | .mk action _ _ => action

def subs : Cmd α → List (Bytes × Cmd α)
  | .mk _ subs _ => subs

def info : Cmd α → Info
  | .mk _ _ info => info

def types (c : Cmd α) : List ArgType := (c.action.map Action.types).getD []

end Cmd

/-- What a function that is offered as a command is made of. -/
inductive Offer where
  /-- A function with this many results; the flag says whether the first one is an error. -/
  | function (results : Nat) (isError : Bool)
  /-- No function but something of another type. -/
  | other (typeName : Bytes)
  deriving DecidableEq, Repr, Inhabited

/-- Why a definition is refused. -/
inductive Refusal where
  | notFunction (typeName : Bytes)
  | tooManyResults
  | resultNotError
  | duplicate (name : Bytes)
  deriving DecidableEq, Repr, Inhabited

def Refusal.message : Refusal → Bytes
  | .notFunction typeName => "must be function, got " ++ typeName
  | .tooManyResults => "must return 0 or 1 value"
  | .resultNotError => "must return error"
  | .duplicate name => "duplicated command " ++ name

/-- Why something is no command, if it is none: a function that is one returns nothing but an
error. -/
def Offer.refusal? : Offer → Option Refusal
  | .other typeName => some (.notFunction typeName)
  | .function 0 _ => none
  | .function 1 isError => if isError then none else some .resultNotError
  | .function _ _ => some .tooManyResults

abbrev Table (α : Type) := List (Bytes × Cmd α)

namespace Table

variable {α : Type}

def find? (t : Table α) (word : Bytes) : Option (Cmd α) := t.lookup word

def contains (t : Table α) (word : Bytes) : Bool := (t.find? word).isSome

/-- Adds a command under names, up to the first one that is taken. -/
def addNames (c : Cmd α) : Table α → List Bytes → Table α × Option Refusal
  | t, [] => (t, none)
  | t, name :: names =>
    if t.contains name then (t, some (.duplicate name)) else addNames c (t ++ [(name, c)]) names

/-- Adds a command under its name and its aliases. -/
def define (t : Table α) (name : Bytes) (c : Cmd α) : Table α × Option Refusal :=
  addNames c t (name :: c.info.aliases)

/-- Adds commands in their order, up to the first one that is refused. -/
def defineAll : Table α → List (Bytes × Cmd α) → Table α × Option Refusal
  | t, [] => (t, none)
  | t, (name, c) :: rest =>
    match t.define name c with
    | (t', none) => defineAll t' rest
    | (t', some why) => (t', some why)

/-- Binds a name to a command, whatever it was bound to before. -/
def insert (t : Table α) (name : Bytes) (c : Cmd α) : Table α := (name, c) :: t.filter (·.1 != name)

def entries : Table α → Table α
  | [] => []
  | (name, c) :: rest => (name, c) :: (entries rest).filter (·.1 != name)

def sorted (t : Table α) : Table α := t.mergeSort fun a b => Bytes.le a.1 b.1

theorem find?_cons (name : Bytes) (c : Cmd α) (t : Table α) (word : Bytes) :
    find? ((name, c) :: t) word = if word = name then some c else t.find? word := by
  unfold find?
  rw [List.lookup_cons]
  by_cases h : word = name
  · simp [h]
  · have hne : (word == name) = false := beq_eq_false_iff_ne.mpr h
    simp [h, hne]

theorem find?_filter_ne {name word : Bytes} (h : word ≠ name) (t : Table α) :
    find? (t.filter (·.1 != name)) word = t.find? word := by
  induction t with
  | nil => rfl
  | cons e t ih =>
    obtain ⟨other, c⟩ := e
    by_cases hother : other = name
    · have hword : word ≠ other := by rw [hother]; exact h
      rw [List.filter_cons_of_neg (by simp [hother]), ih, find?_cons, if_neg hword]
    · rw [List.filter_cons_of_pos (by simp [hother]), find?_cons, find?_cons, ih]

theorem find?_insert (t : Table α) (name : Bytes) (c : Cmd α) (word : Bytes) :
    (t.insert name c).find? word = if word = name then some c else t.find? word := by
  rw [insert, find?_cons]
  by_cases h : word = name
  · rw [if_pos h, if_pos h]
  · rw [if_neg h, if_neg h, find?_filter_ne h]

theorem mem_entries {t : Table α} {name : Bytes} {c : Cmd α} :
    (name, c) ∈ t.entries ↔ t.find? name = some c := by
  induction t with
  | nil => simp [entries, find?]
  | cons e t ih =>
    obtain ⟨other, d⟩ := e
    rw [entries, find?_cons]
    by_cases h : name = other
    · simp [h, eq_comm]
    · simp [h, ih]

theorem nodup_entries (t : Table α) : (t.entries.map Prod.fst).Nodup := by
  induction t with
  | nil => exact List.nodup_nil
  | cons e t ih =>
    obtain ⟨name, c⟩ := e
    rw [entries, List.map_cons, List.nodup_cons]
    refine ⟨by simp, ?_⟩
    exact ih.sublist ((List.filter_sublist).map Prod.fst)

end Table

/-! ## Usage -/

def Info.line (i : Info) (depth : Nat) (name : Bytes) : Bytes :=
  let aliases : Bytes :=
    if i.aliases.isEmpty then [] else " (" ++ Bytes.join ", " i.aliases ++ ")"
  let description : Bytes := if i.description.isEmpty then [] else "\t" ++ i.description
  let arguments : Bytes := i.argNames.flatMap fun n => 0x20 :: n
  (List.replicate depth (utf8 "  ")).flatten ++ name ++ arguments ++ aliases ++ description ++
    [Ascii.lf]

/-- Texts with their names in the order of the names. -/
def joinByName (texts : List (Bytes × Bytes)) : Bytes :=
  (texts.mergeSort fun a b => Bytes.le a.1 b.1).flatMap Prod.snd

mutual

/-- The description of a command and of those that it makes known, each under its own name. -/
def Cmd.usage {α : Type} (depth : Nat) (name : Bytes) : Cmd α → Bytes
  | .mk _ subs info => info.line depth name ++ joinByName (usages (depth + 1) subs)

/-- The descriptions of commands with their names. A command is described once, so not where it is
called by an alias. -/
def usages {α : Type} (depth : Nat) : List (Bytes × Cmd α) → List (Bytes × Bytes)
  | [] => []
  | (name, c) :: rest =>
    if c.info.aliases.contains name then usages depth rest
    else (name, c.usage depth name) :: usages depth rest

end

def Table.usage {α : Type} (t : Table α) : Bytes := joinByName (usages 0 t)

end SpectrumTape.Command
