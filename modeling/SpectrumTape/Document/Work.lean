import SpectrumTape.Journal
import SpectrumTape.Document.Cause
import SpectrumTape.Basic.Compiler

/-!
# Work on a document

Building from a document collects files and keeps a journal. A failure ends the work on the
document, and what was collected and noted up to then stays.
-/

namespace SpectrumTape.Document

/-- What documents are built with: the files they name, the dialect and settings of programs, and
constants for every program. -/
structure Environment where
  files : Files := {}
  dialect : Dialect := .k48
  settings : Basic.Settings := {}
  constants : Basic.Constants := []
  deriving Inhabited

/-- The files collected so far, and the journal, the latest event first. -/
structure State where
  entries : List Tape.Entry := []
  journal : List Journal.Event := []
  deriving Inhabited

abbrev Work := ExceptT (Failure Cause) (StateM State)

/-- A program to add. Without a name it is called like its file; without an autostart line, that
is zero, the symbol `autostart` decides. -/
structure BasicFile where
  path : Bytes
  name : Bytes := []
  constants : Basic.Constants := []
  autostart : Int := 0
  deriving Inhabited

/-- A block of memory to add. -/
structure CodeFile where
  path : Bytes
  name : Bytes := []
  address : Int
  deriving Inhabited

def note (e : Journal.Event) : Work Unit :=
  modify fun s => { s with journal := e :: s.journal }

def reportAll (ds : List Diagnostic) : Work Unit :=
  modify fun s => { s with journal := (ds.map Journal.Event.reported).reverse ++ s.journal }

def fail {α : Type} (l : Location) (cause : Cause) : Work α := do
  reportAll [⟨.error, l, cause.report⟩]
  throw (.one (some l) cause)

def collect (c : Journal.Context) (e : Tape.Entry) : Work Unit := do
  modify fun s => { s with entries := s.entries ++ [e] }
  note (c.note .info "add file"
    [.text "type" e.type.name, .text "name" e.name, .number "bytes" e.payload.length])

/-- The name of a file on tape: the given one, or else the last element of its path without the
extension. -/
def entryName (name path : Bytes) : Bytes :=
  if name.isEmpty then Path.withoutExtension (Path.base path) else name

def readSource (files : Files) (path : Bytes) : Except ReadProblem Bytes :=
  files.read (Path.clean path)

/-- The whole part of a number in a signed word of 64 bits; what does not fit becomes the least
word. -/
def wholePart (v : Binary64) : Int :=
  let least : Int := -9223372036854775808
  match v.truncate? with
  | some n => if least ≤ n && n < 9223372036854775808 then n else least
  | none => least

/-- The line a program starts at: the given one, the value of the symbol `autostart`, or none. -/
def autostartLine (l : Location) (given : Int) (symbol : Option Bytes) : Work Int :=
  if given != 0 then pure given
  else
    match symbol with
    | none => pure Tape.noAutostart
    | some value =>
      match Reading.readBinary Binary.format64 value with
      | .ok v => pure (wholePart v)
      | .error _ => fail l (.invalidAutostart value)

def addBasic (env : Environment) (c : Journal.Context) (l : Location) (file : BasicFile) :
    Work Tape.Entry := do
  match readSource env.files file.path with
  | .error _ => fail l (.cannotOpenBasic file.path)
  | .ok source =>
    let (compiler, unusable) := Basic.Compiler.create env.dialect env.settings
    let (compiler, repeated) := compiler.setConstants (file.constants.merge env.constants)
    let (compiler, compiled) := compiler.parse env.dialect file.path source
    reportAll (unusable ++ repeated ++ compiled.diagnostics)
    match compiled.result with
    | .error failure => throw (failure.map .basic)
    | .ok _ =>
      for v in compiler.symbols.toList do
        note (c.note .debug "symbol"
          [.text "name" v.name, .text "value" (v.value.getD [])])
      let autostart ← autostartLine l file.autostart (compiler.valueOf? "autostart")
      let entry := Tape.Entry.ofProgram (entryName file.name file.path) compiler.program autostart
      let entry := { entry with source := file.path }
      collect c entry
      return entry

def addCode (env : Environment) (c : Journal.Context) (l : Location) (file : CodeFile) :
    Work Tape.Entry := do
  match readSource env.files file.path with
  | .error _ => fail l (.cannotOpenCode file.path)
  | .ok content =>
    let entry := Tape.Entry.ofCode (entryName file.name file.path) content file.address
    let entry := { entry with source := file.path }
    collect c entry
    return entry

def build (c : Journal.Context) : Work Bytes := do
  let entries := (← get).entries
  if entries.isEmpty then fail (.ofPath c.document) .noFiles
  else
    let built := Tape.build entries
    reportAll built.diagnostics
    match built.result with
    | .error failure => throw (failure.map .tape)
    | .ok bytes =>
      note (c.note .info "archive built"
        [.number "files" entries.length, .number "bytes" bytes.length])
      return bytes

def reset : Work Unit := modify fun s => { s with entries := [] }

/-- Work in the context of a document: it starts without files, and its failures name the
document. -/
def inDocument (c : Journal.Context) (path : Bytes) (work : Journal.Context → Work Bytes) :
    Work Bytes := do
  let (inner, event) := c.enter path
  note event
  reset
  tryCatch (work inner) fun failure => throw (inner.wrap .inDocument failure)

end SpectrumTape.Document
