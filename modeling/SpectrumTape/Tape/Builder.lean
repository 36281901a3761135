import SpectrumTape.Text.Quoted
import SpectrumTape.Diagnostics
import SpectrumTape.Tape.Block

/-!
# Building an archive

All files are validated before any is written. Every issue is reported; if one of them is an error
there is no archive. A builder collects files and can build their archive at any time.
-/

namespace SpectrumTape.Tape

/-- Why there is no archive. -/
inductive Cause where
  | invalidEntry (message : Bytes)
  | tooLarge (block : Block.TooLarge)
  deriving DecidableEq, Repr, Inhabited

def Cause.message : Cause → Bytes
  | .invalidEntry message => "invalid file entry: " ++ message
  | .tooLarge e => e.message

/-- The type and the name of a file, and what is wrong with it. -/
def issueMessage (e : Entry) (i : Issue) : Bytes :=
  e.type.name ++ " " ++ e.name.quoted ++ ": " ++ i.message

def issueReport (e : Entry) (i : Issue) : Diagnostic :=
  ⟨if i.isError then .error else .warning, .ofPath e.source, issueMessage e i⟩

def issueReports (entries : List Entry) : List Diagnostic :=
  entries.flatMap fun e => e.validate.map (issueReport e)

/-- The faults of files: their issues that are errors. -/
def issueFaults (entries : List Entry) : List (Fault Cause) :=
  entries.flatMap fun e =>
    (e.validate.filter Issue.isError).map fun i =>
      { location := some (.ofPath e.source), cause := .invalidEntry (issueMessage e i) }

/-- What became of a list of files: what was reported, and the archive or why there is none. -/
structure Built where
  diagnostics : List Diagnostic
  result : Except (Failure Cause) Bytes

/-- Writes files one after the other, up to the first that is too large. -/
def serializeAll : List Entry → Except (Fault Cause) Bytes
  | [] => .ok []
  | e :: rest =>
    match e.serialize with
    | .error large => .error { location := some (.ofPath e.source), cause := .tooLarge large }
    | .ok bytes =>
      match serializeAll rest with
      | .ok more => .ok (bytes ++ more)
      | .error f => .error f

def build (entries : List Entry) : Built :=
  let reports := issueReports entries
  match Failure.ofFaults? (issueFaults entries) with
  | some failure => { diagnostics := reports, result := .error failure }
  | none =>
    match serializeAll entries with
    | .ok bytes => { diagnostics := reports, result := .ok bytes }
    | .error fault =>
      { diagnostics := reports ++ [⟨.error, fault.location.getD {}, fault.cause.message⟩]
        result := .error { first := fault } }

/-- The files that were added to a builder, and all that it has reported. -/
structure Builder where
  entries : List Entry := []
  reported : List Diagnostic := []
  deriving Inhabited

namespace Builder

def add (b : Builder) (e : Entry) : Builder := { b with entries := b.entries ++ [e] }

def reset (b : Builder) : Builder := { b with entries := [] }

/-- Builds the archive of the files, and reports what there is to report. -/
def build (b : Builder) : Except (Failure Cause) Bytes × Builder :=
  let built := Tape.build b.entries
  (built.result, { b with reported := b.reported ++ built.diagnostics })

end Builder

end SpectrumTape.Tape
