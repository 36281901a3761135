import SpectrumTape.Text.Rune
import SpectrumTape.Diagnostics

/-!
# The journal

While it works the program keeps a journal of records: a message with a level and attributes. Work
on a document is done in its context, and then the document is the last attribute of each record
and a last line of each failure.
-/

namespace SpectrumTape.Journal

/-- How important a record is. -/
inductive Level where
  | debug
  | info
  | warn
  | error
  deriving DecidableEq, Repr, Inhabited

def Level.name : Level → Bytes
  | .debug => "DEBUG"
  | .info => "INFO"
  | .warn => "WARN"
  | .error => "ERROR"

/-- The value of an attribute. -/
inductive Value where
  | text (s : Bytes)
  | number (n : Int)
  deriving DecidableEq, Repr, Inhabited

/-- A named value. -/
structure Attribute where
  key : Bytes
  value : Value
  deriving DecidableEq, Repr, Inhabited

def Attribute.text (key : String) (value : Bytes) : Attribute := ⟨utf8 key, .text value⟩

def Attribute.number (key : String) (value : Int) : Attribute := ⟨utf8 key, .number value⟩

/-- A message with its attributes. -/
structure Record where
  level : Level
  message : Bytes
  attributes : List Attribute := []
  deriving DecidableEq, Repr, Inhabited

def Level.ofSeverity : Severity → Level
  | .info => .info
  | .warning => .warn
  | .error => .error

/-- The record of a diagnostic: the parts of its place that are known are attributes. -/
def Record.ofDiagnostic (d : Diagnostic) : Record where
  level := .ofSeverity d.severity
  message := d.message
  attributes :=
    (if d.location.path.isEmpty then [] else [.text "file" d.location.path]) ++
      if 0 < d.location.line then
        [.number "line" d.location.line, .number "column" d.location.column]
      else []

/-- An event: something reported, or a record of its own. -/
inductive Event where
  | reported (d : Diagnostic)
  | noted (r : Record)
  deriving DecidableEq, Repr, Inhabited

def Event.record : Event → Record
  | .reported d => .ofDiagnostic d
  | .noted r => r

def Event.diagnostic? : Event → Option Diagnostic
  | .reported d => some d
  | .noted _ => none

/-- The document that work is done for; the empty path stands for none. -/
structure Context where
  document : Bytes := []
  deriving DecidableEq, Repr, Inhabited

namespace Context

def note (c : Context) (level : Level) (message : Bytes) (attributes : List Attribute) : Event :=
  .noted
    { level, message
      attributes :=
        attributes ++
          if c.document.isEmpty then [] else [.text "logs.document" c.document] }

/-- The context of a document, and the record of its start. The document it was entered from is an
attribute. -/
def enter (c : Context) (document : Bytes) : Context × Event :=
  let inner : Context := ⟨document⟩
  let parent : List Attribute :=
    if c.document.isEmpty || c.document == document then []
    else [.text "parent" c.document]
  (inner, inner.note .info "enter document" parent)

/-- A failure in a context: the document is its last fault. -/
def wrap {ε : Type} (c : Context) (inDocument : Bytes → ε) (f : Failure ε) : Failure ε :=
  if c.document.isEmpty then f else f.push { cause := inDocument c.document }

def documentText (document : Bytes) : Bytes := "document: " ++ document

end Context

/-- The name of an attribute as system journals take it: capitals and digits, with an underscore
for every other character. -/
def key (name : Bytes) : Bytes :=
  (Bytes.runes name).map fun r =>
    match r.toUpper with
    | .scalar n => if n < 0x80 && (Ascii.isUpper (UInt8.ofNat n) || Ascii.isDigit (UInt8.ofNat n))
        then UInt8.ofNat n else 0x5F
    | .stray _ => 0x5F

end SpectrumTape.Journal
