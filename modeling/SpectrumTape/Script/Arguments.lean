import SpectrumTape.Text.Nearest
import SpectrumTape.Script.Value

/-!
# Arguments of calls

How the values of a call find their parameters, for the given functions and for those of a script.
-/

namespace SpectrumTape.Script

/-- The values of a call. -/
structure Call where
  positional : List Value := []
  named : List (Bytes × Value) := []
  deriving Repr, Inhabited

def isWord64 (n : Int) : Bool := -9223372036854775808 ≤ n && n ≤ 9223372036854775807

/-- What a given function takes for a parameter. -/
inductive Kind where
  | string
  | int
  | dict
  | any
  deriving DecidableEq, Repr, Inhabited

/-- Why a value is not what a parameter takes, if it is not. -/
def Kind.complaint? : Kind → Value → Option Bytes
  | .string, .string _ => none
  | .string, v => some ("got " ++ v.typeName ++ ", want string")
  | .int, .int n =>
    if isWord64 n then none
    else some (Bytes.decimalInt n ++ " out of range (want value in signed 64-bit range)")
  | .int, v => some ("got " ++ v.typeName ++ ", want int")
  | .dict, .dict _ => none
  | .dict, v => some ("got " ++ v.typeName ++ ", want dict")
  | .any, _ => none

/-- A parameter of a given function. -/
structure Slot where
  name : Bytes
  kind : Kind
  optional : Bool := false
  deriving DecidableEq, Repr, Inhabited

abbrev Bound := List (Bytes × Value)

namespace Call

/-- Gives the positional values to the first parameters. -/
def bindPositional : List Slot → List Value → Except Bytes Bound
  | slot :: slots, v :: vs =>
    match slot.kind.complaint? v with
    | some why => .error ("for parameter " ++ slot.name ++ ": " ++ why)
    | none => do return (slot.name, v) :: (← bindPositional slots vs)
  | _, _ => .ok []

/-- The parameters that are suggested for an unknown name: the first half of them. -/
def suggested (slots : List Slot) : List Bytes :=
  (slots.take ((slots.length + 1) / 2)).map Slot.name

def bindNamed (slots : List Slot) : Bound → List (Bytes × Value) → Except Bytes Bound
  | bound, [] => .ok bound
  | bound, (name, v) :: rest =>
    match slots.find? (·.name == name) with
    | none =>
      .error ("unexpected keyword argument " ++ name.quoted ++ Nearest.hint name (suggested slots))
    | some slot =>
      if (bound.lookup name).isSome then
        .error ("got multiple values for keyword argument " ++ name.quoted)
      else
        match slot.kind.complaint? v with
        | some why => .error ("for parameter " ++ name.quoted ++ ": " ++ why)
        | none => bindNamed slots (bound ++ [(name, v)]) rest

/-- The first parameter without a value, before the first one that needs none. -/
def missing? (slots : List Slot) (bound : Bound) : Option Bytes :=
  ((slots.takeWhile (!·.optional)).find? fun s => (bound.lookup s.name).isNone).map Slot.name

/-- The values of a call by the parameters of a given function. -/
def unpack (function : Bytes) (slots : List Slot) (call : Call) : Except Bytes Bound :=
  let inFunction (r : Except Bytes Bound) : Except Bytes Bound :=
    r.mapError fun why => function ++ ": " ++ why
  inFunction do
    if slots.length < call.positional.length then
      throw ("got " ++ Bytes.decimal call.positional.length ++ " arguments, want at most " ++
        Bytes.decimal slots.length)
    let bound ← bindPositional slots call.positional
    let bound ← bindNamed slots bound call.named
    match missing? slots bound with
    | some name => throw ("missing argument for " ++ name)
    | none => return bound

/-- The values of a call of a given function that takes from `least` up to all of its parameters,
none by name. -/
def unpackPositional (function : Bytes) (least : Nat) (kinds : List Kind) (call : Call) :
    Except Bytes (List Value) :=
  let given := call.positional.length
  let most := kinds.length
  let want (word : Bytes) (n : Nat) : Bytes :=
    function ++ ": got " ++ Bytes.decimal given ++ " arguments, want " ++ word ++ Bytes.decimal n
  if !call.named.isEmpty then .error (function ++ ": unexpected keyword arguments")
  else if given < least then .error (want (if least < most then "at least " else []) least)
  else if most < given then .error (want (if least < most then "at most " else []) most)
  else
    let complaints := ((kinds.zip call.positional).zipIdx).filterMap fun ((kind, v), i) =>
      (kind.complaint? v).map fun why =>
        function ++ ": for parameter " ++ Bytes.decimal (i + 1) ++ ": " ++ why
    match complaints with
    | why :: _ => .error why
    | [] => .ok call.positional

/-! ## Functions of the script -/

def plural (n : Nat) : Bytes := if n == 1 then [] else "s"

/-- Gives the named values of a call to the parameters of a function of the script. -/
def bindParameters (function : Bytes) (parameters : List Bytes) :
    Bound → List (Bytes × Value) → Except Bytes Bound
  | bound, [] => .ok bound
  | bound, (name, v) :: rest =>
    if !parameters.contains name then
      .error ("function " ++ function ++ " got an unexpected keyword argument " ++ name.quoted)
    else if (bound.lookup name).isSome then
      .error ("function " ++ function ++ " got multiple values for parameter " ++ name.quoted)
    else bindParameters function parameters (bound ++ [(name, v)]) rest

/-- The values of a call by the parameters of a function of the script. -/
def bind (c : Closure) (call : Call) : Except Bytes Bound := do
  let count := c.parameters.length
  let given := call.positional.length
  if count == 0 then
    let all := given + call.named.length
    if 0 < all then
      throw ("function " ++ c.name ++ " accepts no arguments (" ++ Bytes.decimal all ++ " given)")
    return []
  if count < given then
    let most : Bytes := if c.defaults.isEmpty then [] else "at most "
    throw ("function " ++ c.name ++ " accepts " ++ most ++ Bytes.decimal count ++
      " positional argument" ++ plural count ++ " (" ++ Bytes.decimal given ++ " given)")
  let bound ← bindParameters c.name c.parameters (c.parameters.zip call.positional) call.named
  let needed := c.parameters.take (count - c.defaults.length)
  let missing := needed.filter fun p => (bound.lookup p).isNone
  if !missing.isEmpty then
    throw ("function " ++ c.name ++ " missing " ++ Bytes.decimal missing.length ++ " argument" ++
      plural missing.length ++ " (" ++ Bytes.join ", " missing ++ ")")
  let optional := (c.parameters.drop (count - c.defaults.length)).zip c.defaults
  return bound ++ optional.filter fun p => (bound.lookup p.1).isNone

end Call

end SpectrumTape.Script
