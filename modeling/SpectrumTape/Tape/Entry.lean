import SpectrumTape.Text.Bytes

/-!
# Files on a tape

A file has a name, a type, a payload and two words of parameters, whose meaning depends on the
type. Validation finds what is wrong with a file; some issues keep it off the tape, the others are
only worth a warning.
-/

namespace SpectrumTape.Tape

/-- The type byte of a file. -/
structure FileType where
  code : UInt8
  deriving DecidableEq, Repr, Inhabited

namespace FileType

def program : FileType := ⟨0⟩

def numberArray : FileType := ⟨1⟩

def characterArray : FileType := ⟨2⟩

def memory : FileType := ⟨3⟩

def name (t : FileType) : Bytes :=
  if t = program then "Program"
  else if t = numberArray then "Number array"
  else if t = characterArray then "Character array"
  else if t = memory then "Bytes"
  else "FileType(" ++ Bytes.decimal t.code.toNat ++ ")"

end FileType

/-- The autostart line of a program that does not start by itself. -/
def noAutostart : Nat := 32768

/-- The second parameter of every block of memory. -/
def codeConstant : Nat := 32768

/-- The parameters of a file. Those of programs and blocks of memory may be any number until they
are put into a word. -/
inductive Params where
  | program (autostart variableArea : Int)
  | code (address constant : Int)
  | generic (first second : UInt16)
  deriving DecidableEq, Repr, Inhabited

def wordOf (n : Int) : UInt16 := UInt16.ofNat (n % 65536).toNat

def Params.words : Params → UInt16 × UInt16
  | .program autostart variableArea => (wordOf autostart, wordOf variableArea)
  | .code address constant => (wordOf address, wordOf constant)
  | .generic first second => (first, second)

/-- A file. -/
structure Entry where
  name : Bytes
  type : FileType
  params : Option Params := some (.generic 0 0)
  payload : Bytes
  /-- The path of the source it was made from. -/
  source : Bytes := []
  deriving DecidableEq, Repr, Inhabited

namespace Entry

/-- A program, whose variables start right behind it. -/
def ofProgram (name program : Bytes) (autostart : Int) : Entry :=
  { name, type := .program, params := some (.program autostart program.length), payload := program }

def ofCode (name payload : Bytes) (address : Int) : Entry :=
  { name, type := .memory, params := some (.code address codeConstant), payload }

/-- The two words of the parameters, zero if there are none. -/
def words (e : Entry) : UInt16 × UInt16 :=
  match e.params with
  | some p => p.words
  | none => (0, 0)

/-- The autostart line and the variable area of a program. -/
def programParams (e : Entry) : Int × Int :=
  match e.params with
  | some (.program autostart variableArea) => (autostart, variableArea)
  | _ => (e.words.1.toNat, e.words.2.toNat)

/-- The address and the constant of a block of memory. -/
def codeParams (e : Entry) : Int × Int :=
  match e.params with
  | some (.code address constant) => (address, constant)
  | _ => (e.words.1.toNat, e.words.2.toNat)

end Entry

/-! ## Issues -/

/-- Something wrong with a file. -/
inductive Issue where
  | nameTooLong
  | tooManyBytes
  | largePayload
  | wrongAutostart
  | wrongVariableArea
  | programTooBig
  | codeInRom
  | codeHeader
  deriving DecidableEq, Repr, Inhabited

namespace Issue

def all : List Issue :=
  [.nameTooLong, .tooManyBytes, .largePayload, .wrongAutostart, .wrongVariableArea,
    .programTooBig, .codeInRom, .codeHeader]

def code (i : Issue) : Nat := all.idxOf i

def ofCode? (n : Int) : Option Issue := if n < 0 then none else all[n.toNat]?

def isError : Issue → Bool
  | .nameTooLong => false
  | .largePayload => false
  | .codeInRom => false
  | _ => true

def message : Issue → Bytes
  | .nameTooLong => "File name is longer than 10 characters and will be truncated."
  | .tooManyBytes => "Too many bytes in file."
  | .largePayload => "File is bigger than 48KB."
  | .wrongAutostart => "Wrong autostart line in BASIC program header."
  | .wrongVariableArea => "Wrong variable area offset in BASIC program header."
  | .programTooBig => "BASIC program is too big."
  | .codeInRom => "Code block loads into ROM area."
  | .codeHeader => "Wrong header parameter for Code block."

/-- The text that belongs to a code, also where there is no such issue. -/
def messageOfCode (n : Int) : Bytes :=
  match ofCode? n with
  | some i => i.message
  | none => "Unknown issue."

/-- Whether a code counts as an error; one without an issue does. -/
def codeIsError (n : Int) : Bool :=
  match ofCode? n with
  | some i => i.isError
  | none => true

end Issue

def maxNameLength : Nat := 10

/-- The longest content of a block, whose size has to count a marker and a checksum as well. -/
def maxBlockContent : Nat := 65533

/-- From more than this on a payload hardly leaves room for anything else. -/
def largePayloadSize : Nat := 49152

/-- The size of the largest program that fits the memory. -/
def maxProgramSize : Nat := 40000

/-- The first address behind the ROM. -/
def ramStart : Nat := 16384

def memorySize : Nat := 65536

def maxAutostartLine : Nat := 9999

namespace Entry

def programIssues (e : Entry) : List Issue :=
  let (autostart, variableArea) := e.programParams
  let size := e.payload.length
  (if (autostart ≤ 0 || maxAutostartLine < autostart) && autostart != noAutostart then
      [.wrongAutostart] else []) ++
    (if size < variableArea then [.wrongVariableArea] else []) ++
    (if maxProgramSize < size then [.programTooBig] else [])

/-- The address behind a block of memory, computed in a signed word of 64 bits. -/
def codeEnd (e : Entry) : Int :=
  (e.codeParams.1 + e.payload.length).bmod 18446744073709551616

def codeIssues (e : Entry) : List Issue :=
  let (address, constant) := e.codeParams
  (if address < ramStart || memorySize < e.codeEnd then [.codeInRom] else []) ++
    (if constant != codeConstant then [.codeHeader] else [])

def validate (e : Entry) : List Issue :=
  let size := e.payload.length
  (if maxNameLength < e.name.length then [.nameTooLong] else []) ++
    (if maxBlockContent < size then [.tooManyBytes] else []) ++
    (if e.type = .program then e.programIssues
      else if e.type = .memory then e.codeIssues
      else []) ++
    (if largePayloadSize < size then [.largePayload] else [])

end Entry

end SpectrumTape.Tape
