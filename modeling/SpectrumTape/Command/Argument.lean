import SpectrumTape.Dialect
import SpectrumTape.Setting
import SpectrumTape.Text.Quoted
import SpectrumTape.Number.Reading

/-!
# Arguments of commands

A command says which types its arguments have, and each argument is one word. An optional argument
may be left out at the end of the words and then has the zero value of its type.
-/

namespace SpectrumTape.Command

/-- A type of arguments. -/
inductive ArgType where
  | bool
  | string
  /-- A whole number in a signed word; without a width it is one of 64 bits. -/
  | int (width : Option Nat)
  /-- A whole number in an unsigned word; without a width it is one of 64 bits. -/
  | uint (width : Option Nat)
  | float32
  | float64
  | dialect
  /-- A list of texts, which no single word can give. -/
  | strings
  | optional (type : ArgType)
  deriving DecidableEq, Repr, Inhabited

def ArgType.name : ArgType → Bytes
  | .bool => "bool"
  | .string => "string"
  | .int width => "int" ++ (width.map Bytes.decimal).getD []
  | .uint width => "uint" ++ (width.map Bytes.decimal).getD []
  | .float32 => "float32"
  | .float64 => "float64"
  | .dialect => "keywords.Dialect"
  | .strings => "[]string"
  | .optional type => "*" ++ type.name

/-- The value of an argument. -/
inductive ArgValue where
  | bool (b : Bool)
  | string (s : Bytes)
  | int (n : Int)
  | float32 (x : Binary32)
  | float64 (x : Binary64)
  | dialect (d : Dialect)
  | strings (ss : List Bytes)
  deriving DecidableEq, Repr, Inhabited

def ArgType.zero : ArgType → ArgValue
  | .bool => .bool false
  | .string => .string []
  | .int _ | .uint _ => .int 0
  | .float32 => .float32 (.finite false 0)
  | .float64 => .float64 (.finite false 0)
  | .dialect => .dialect .k48
  | .strings => .strings []
  | .optional type => type.zero

/-- Why a word cannot be converted. -/
inductive Unconvertible where
  /-- The word is no numeral of the kind that a reading function takes. -/
  | numeral (reader : Bytes) (word : Bytes) (error : NumeralError)
  | dialect (error : Dialect.Unknown)
  deriving DecidableEq, Repr, Inhabited

def Unconvertible.message : Unconvertible → Bytes
  | .numeral reader word error =>
    "strconv." ++ reader ++ ": parsing " ++ word.quoted ++ ": " ++ error.message
  | .dialect error => error.message

/-- Why an argument has no value. -/
inductive ArgError where
  | missing
  | unsupported (type : ArgType)
  /-- Nothing can point to a value that is itself pointed to. -/
  | nested
  | unconvertible (word : Bytes) (type : ArgType) (why : Unconvertible)
  deriving DecidableEq, Repr, Inhabited

def ArgError.message : ArgError → Bytes
  | .missing => "expecting argument, got nothing"
  | .unsupported type => "unsupported type: " ++ type.name
  | .nested => "reflect.Value.Addr of unaddressable value"
  | .unconvertible word type why =>
    "convert " ++ word ++ " to " ++ type.name ++ ": " ++ why.message

def ofNumeral {α : Type} (type : ArgType) (reader : String) (word : Bytes) (wrap : α → ArgValue)
    (r : Except NumeralError α) : Except ArgError ArgValue :=
  match r with
  | .ok a => .ok (wrap a)
  | .error e => .error (.unconvertible word type (.numeral (utf8 reader) word e))

/-- Whether an argument of a type may be left out. -/
def ArgType.isOptional : ArgType → Bool
  | .optional _ => true
  | _ => false

def ArgType.ofWord (word : Bytes) : ArgType → Except ArgError ArgValue
  | .bool => .ok (.bool (Setting.isYes word))
  | .string => .ok (.string word)
  | .int width =>
    ofNumeral (.int width) "ParseInt" word .int (Numeral.readSigned 10 (width.getD 64) word)
  | .uint width =>
    ofNumeral (.uint width) "ParseUint" word (fun n : Nat => .int n)
      (Numeral.readUnsigned 10 (width.getD 64) word)
  | .float32 =>
    ofNumeral .float32 "ParseFloat" word .float32 (Reading.readBinary Binary.format32 word)
  | .float64 =>
    ofNumeral .float64 "ParseFloat" word .float64 (Reading.readBinary Binary.format64 word)
  | .dialect =>
    match Dialect.parse word with
    | .ok d => .ok (.dialect d)
    | .error e => .error (.unconvertible word .dialect (.dialect e))
  | .strings => .error (.unsupported .strings)
  | .optional type => do
    let v ← type.ofWord word
    if type.isOptional then .error .nested else .ok v

/-- The values of arguments, the first of which is the first word. -/
def readArguments : List ArgType → List Bytes → Except ArgError (List ArgValue)
  | [], _ => .ok []
  | type :: types, [] =>
    if type.isOptional then do return type.zero :: (← readArguments types [])
    else .error .missing
  | type :: types, word :: words => do
    let v ← type.ofWord word
    return v :: (← readArguments types words)

end SpectrumTape.Command
