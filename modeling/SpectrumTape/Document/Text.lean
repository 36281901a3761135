import SpectrumTape.Text.Lines
import SpectrumTape.Document.Directive
import SpectrumTape.Document.Work

/-!
# Text documents

A text document is a list of directives, one on a line. They are followed in their order, and then
the archive is built.
-/

namespace SpectrumTape.Document

/-- Follows a directive whose word is at a place. -/
def follow (env : Environment) (c : Journal.Context) (l : Location) : Directive → Work Unit
  | .basic path name => discard (addBasic env c l { path, name })
  | .code path address name => discard (addCode env c l { path, address, name })

/-- Follows line `number` of the document at `path`. -/
def followLine (env : Environment) (c : Journal.Context) (path : Bytes) (number : Nat)
    (line : Bytes) : Work Unit :=
  match DocLine.parse line with
  | .blank => pure ()
  | .fault column cause => fail ⟨path, number, column⟩ cause
  | .directive column d trailing => do
    follow env c ⟨path, number, column⟩ d
    match trailing with
    | none => pure ()
    | some column => fail ⟨path, number, column⟩ .unexpectedCharacter

/-- Follows lines, the first of which is line `number` of the document. -/
def followLines (env : Environment) (c : Journal.Context) (path : Bytes) :
    Nat → List Bytes → Work Unit
  | _, [] => pure ()
  | number, line :: rest => do
    followLine env c path number line
    followLines env c path (number + 1) rest

/-- Builds the archive of a text document. -/
def processText (env : Environment) (c : Journal.Context) (path source : Bytes) : Work Bytes :=
  inDocument c path fun c => do
    followLines env c path 1 source.lines
    build c

end SpectrumTape.Document
