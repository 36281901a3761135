import SpectrumTape.Cursor.Basic

/-!
# Sessions with a cursor

A session is a cursor with the states that were kept under a number. Its commands are the public
operations of the cursor, each with the answer that it gives.
-/

namespace SpectrumTape.Cursor

/-- A class of bytes to skip or to search for. -/
inductive Class where
  | space
  | digit
  | alpha
  | alnum
  | hex
  | binary
  | byte (b : UInt8)
  deriving DecidableEq, Repr, Inhabited

def Class.holds : Class → UInt8 → Bool
  | .space => Ascii.isSpace
  | .digit => Ascii.isDigit
  | .alpha => Ascii.isAlpha
  | .alnum => Ascii.isAlnum
  | .hex => Ascii.isHexDigit
  | .binary => Ascii.isBinaryDigit
  | .byte b => (· == b)

/-- An operation on a session. -/
inductive Command where
  | reset
  | resetTo (source : Bytes)
  | setStop (stop : Bool)
  | save (slot : Int)
  | restore (slot : Int)
  | resetCapture
  | stop
  | isEnd
  | move (offset : Int)
  | nextLine
  | skipWhile (class' : Class)
  | searchFor (class' : Class)
  | isByteAt (b : UInt8)
  | source
  | rest
  | text (span : Span)
  | captureText
  | position
  | byteAt (offset : Int)
  | take
  | location
  | limit
  | line
  | capture
  | captureAndReset
  | measure (span : Span)
  deriving DecidableEq, Repr, Inhabited

/-- The answer to a command. -/
inductive Answer where
  | done
  | outOfRange
  | bool (b : Bool)
  | text (s : Bytes)
  | number (n : Int)
  | pair (a b : Int)
  | measured (length : Int) (empty : Bool)
  deriving DecidableEq, Repr, Inhabited

/-- A reading that may lie outside the text, as an answer. -/
def Answer.ofOption {α : Type} (f : α → Answer) : Option α → Answer
  | some a => f a
  | none => .outOfRange

/-- A cursor with the states that were kept. -/
structure Session where
  cursor : Cursor
  saved : List (Int × State) := []
  deriving DecidableEq, Repr, Inhabited

/-- The state kept under a number, the last one if there are several. A number that was never used
stands for the start of an empty text. -/
def Session.savedAt (s : Session) (slot : Int) : State :=
  match s.saved.find? (·.1 == slot) with
  | some (_, state) => state
  | none => {}

/-- What a command answers, and the cursor after it. -/
def perform (c : Cursor) : Command → Answer × Cursor
  | .reset => (.done, c.reset)
  | .resetTo source => (.done, c.resetTo source)
  | .setStop stop => (.done, c.setStop stop)
  | .save _ => (.done, c)
  | .restore _ => (.done, c)
  | .resetCapture => (.done, c.resetCapture)
  | .stop => (.bool c.stopAtLineEnd, c)
  | .isEnd => (.bool c.settle.isEnd, c.settle)
  | .move offset => let (moved, c') := c.settle.move offset; (.bool moved, c')
  | .nextLine => let (more, c') := c.nextLine; (.bool more, c')
  | .skipWhile p => let (found, c') := c.settle.skipWhile p.holds; (.ofOption .bool found, c')
  | .searchFor p => let (found, c') := c.settle.searchFor p.holds; (.ofOption .bool found, c')
  | .isByteAt b =>
    let c := c.settle
    if c.isEnd then (.bool false, c) else (.ofOption (fun x => .bool (x == b)) (c.byteAt? 0), c)
  | .source => (.text c.source.toList, c)
  | .rest => (.ofOption .text c.settle.rest?, c.settle)
  | .text span => (.ofOption .text (c.text? span), c)
  | .captureText => (.ofOption .text (c.capture.text? c.capture.captured), c.capture)
  | .position => (.number c.state.pos, c)
  | .byteAt offset => (.ofOption (fun b => .number b.toNat) (c.settle.byteAt? offset), c.settle)
  | .take => let (b, c') := c.settle.take; (.ofOption (fun b => .number b.toNat) b, c')
  | .location => (.pair c.location.1 c.location.2, c)
  | .limit => (.pair c.settle.limitStart c.settle.limitEnd, c.settle)
  | .line => (.pair c.findLineEnd.state.lineStart c.findLineEnd.state.lineEnd, c.findLineEnd)
  | .capture => (.pair c.capture.captured.start c.capture.captured.stop, c.capture)
  | .captureAndReset =>
    (.pair c.capture.captured.start c.capture.captured.stop, c.capture.resetCapture)
  | .measure span => (.measured span.length span.isEmpty, c)

/-- What a command answers, and the session after it. -/
def Session.step (s : Session) : Command → Answer × Session
  | .save slot => (.done, { s with saved := (slot, s.cursor.state) :: s.saved })
  | .restore slot => (.done, { s with cursor := { s.cursor with state := s.savedAt slot } })
  | command => let (answer, cursor) := s.cursor.perform command; (answer, { s with cursor })

end SpectrumTape.Cursor
