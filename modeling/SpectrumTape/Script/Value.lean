import SpectrumTape.Script.Tree

/-!
# Values of a running script

Lists and dictionaries are shared: whoever holds one sees every change to it. So a value that is
one holds a place in the store, and the store holds its parts. What a value amounts to at a moment
is its view, a tree of data.
-/

namespace SpectrumTape.Script

/-- The functions given to every script. -/
inductive Builtin where
  | print
  | fail
  | range
  | str
  | basic
  | code
  | fileName
  | hex
  deriving DecidableEq, Repr, Inhabited

def Builtin.name : Builtin → Bytes
  | .print => "print"
  | .fail => "fail"
  | .range => "range"
  | .str => "str"
  | .basic => "basic"
  | .code => "code"
  | .fileName => "file_name"
  | .hex => "hex"

def Builtin.all : List Builtin := [.print, .fail, .range, .str, .basic, .code, .fileName, .hex]

/-- A value of a running script. -/
inductive Value where
  | none
  | bool (b : Bool)
  | int (n : Int)
  | float (x : Binary64)
  | string (s : Bytes)
  | bytes (s : Bytes)
  /-- A list at a place of the store. -/
  | list (place : Nat)
  /-- A dictionary at a place of the store. -/
  | dict (place : Nat)
  | range (start stop step : Int)
  /-- A function of the script at a place of the store. -/
  | function (place : Nat)
  | builtin (b : Builtin)
  deriving DecidableEq, Repr, Inhabited

namespace Value

def typeName : Value → Bytes
  | .none => "NoneType"
  | .bool _ => "bool"
  | .int _ => "int"
  | .float _ => "float"
  | .string _ => "string"
  | .bytes _ => "bytes"
  | .list _ => "list"
  | .dict _ => "dict"
  | .range .. => "range"
  | .function _ => "function"
  | .builtin _ => "builtin_function_or_method"

/-- The value that a name given to every script stands for. -/
def given? (name : Bytes) : Option Value :=
  if name == utf8 "None" then some .none
  else if name == utf8 "True" then some (.bool true)
  else if name == utf8 "False" then some (.bool false)
  else (Builtin.all.find? (·.name == name)).map .builtin

def givenNames : List Bytes :=
  [utf8 "None", utf8 "True", utf8 "False"] ++ Builtin.all.map Builtin.name

end Value

/-- The parts of a list, and how many loops are going through it. -/
structure ListCell where
  items : List Value := []
  readers : Nat := 0
  deriving Repr, Inhabited

/-- The parts of a dictionary in the order of insertion, and how many loops are going through
it. -/
structure DictCell where
  entries : List (Value × Value) := []
  readers : Nat := 0
  deriving Repr, Inhabited

/-- Names with their values, as far as they have one. -/
abbrev Frame := List (Bytes × Option Value)

/-- A function of the script: its parameters, the default values of the last of them, and the
frames around its definition, the innermost first. -/
structure Closure where
  name : Bytes
  pos : Position
  parameters : List Bytes
  defaults : List Value
  body : List Stmt
  frames : List Nat
  deriving Repr, Inhabited

/-- The store. The frame at place zero holds the globals. -/
structure Store where
  lists : Array ListCell := #[]
  dicts : Array DictCell := #[]
  frames : Array Frame := #[]
  closures : Array Closure := #[]
  deriving Inhabited

namespace Store

/-- What a value amounts to; the lists and dictionaries it is found in are known. -/
def viewFrom (s : Store) : Nat → List Value → Value → Data
  | _, _, .none => .none
  | _, _, .bool b => .bool b
  | _, _, .int n => .int n
  | _, _, .float x => .float x
  | _, _, .string t => .string t
  | _, _, .bytes t => .bytes t
  | _, _, .range start stop step => .range start stop step
  | _, _, .builtin b => .builtin b.name
  | _, _, .function i => .function ((s.closures[i]?.map Closure.name).getD []) i
  | 0, _, .list _ => .listAgain
  | 0, _, .dict _ => .dictAgain
  | fuel + 1, around, .list i =>
    if around.contains (.list i) then .listAgain
    else
      .list (((s.lists[i]?.map ListCell.items).getD []).map
        (viewFrom s fuel (.list i :: around)))
  | fuel + 1, around, .dict i =>
    if around.contains (.dict i) then .dictAgain
    else
      .dict (((s.dicts[i]?.map DictCell.entries).getD []).map fun e =>
        (viewFrom s fuel (.dict i :: around) e.1, viewFrom s fuel (.dict i :: around) e.2))

/-- What a value amounts to. Nothing is nested more deeply than there are lists and dictionaries. -/
def view (s : Store) (v : Value) : Data :=
  viewFrom s (s.lists.size + s.dicts.size + 1) [] v

def items (s : Store) (place : Nat) : List Value := (s.lists[place]?.map ListCell.items).getD []

def entries (s : Store) (place : Nat) : List (Value × Value) :=
  (s.dicts[place]?.map DictCell.entries).getD []

def newList (s : Store) (items : List Value) : Value × Store :=
  (.list s.lists.size, { s with lists := s.lists.push { items } })

def newDict (s : Store) (entries : List (Value × Value)) : Value × Store :=
  (.dict s.dicts.size, { s with dicts := s.dicts.push { entries } })

def newFrame (s : Store) (f : Frame) : Nat × Store :=
  (s.frames.size, { s with frames := s.frames.push f })

def newClosure (s : Store) (c : Closure) : Value × Store :=
  (.function s.closures.size, { s with closures := s.closures.push c })

def setItems (s : Store) (place : Nat) (items : List Value) : Store :=
  { s with lists := s.lists.modify place fun c => { c with items } }

def setEntries (s : Store) (place : Nat) (entries : List (Value × Value)) : Store :=
  { s with dicts := s.dicts.modify place fun c => { c with entries } }

/-- Changes the number of loops that are going through a list or a dictionary. -/
def countReaders (s : Store) (change : Nat → Nat) : Value → Store
  | .list i =>
    { s with lists := s.lists.modify i fun c => { c with readers := change c.readers } }
  | .dict i =>
    { s with dicts := s.dicts.modify i fun c => { c with readers := change c.readers } }
  | _ => s

/-- The value of a name in a frame: none if the frame does not know the name, and inside none if it
has no value yet. -/
def inFrame? (s : Store) (name : Bytes) (place : Nat) : Option (Option Value) :=
  ((s.frames[place]?).getD []).lookup name

def frameWith (f : Frame) (name : Bytes) (v : Value) : Frame :=
  match f with
  | [] => [(name, some v)]
  | (n, w) :: rest => if n == name then (n, some v) :: rest else (n, w) :: frameWith rest name v

def setName (s : Store) (place : Nat) (name : Bytes) (v : Value) : Store :=
  { s with frames := s.frames.modify place fun f => frameWith f name v }

end Store

end SpectrumTape.Script
