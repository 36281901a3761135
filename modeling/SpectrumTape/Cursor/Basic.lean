import SpectrumTape.Text.Lines

/-!
# A cursor over a text

A cursor walks a text by byte positions. It may be told to stop at line ends: then the end of the
current line looks like the end of the text until the cursor moves to the next line. The end of
the current line is looked for only when it is needed, so a state says whether its line end is
known.

A state can be kept and put back, also after the text was replaced. Reading outside the text is
therefore possible, and every operation that reads says so by `none`.
-/

namespace SpectrumTape

/-- A half open range of byte positions. -/
structure Span where
  start : Int
  stop : Int
  deriving DecidableEq, Repr, Inhabited

namespace Span

/-- The distance between both ends, negative if they are in the wrong order. -/
def length (s : Span) : Int := s.stop - s.start

def isEmpty (s : Span) : Bool := s.stop ≤ s.start

end Span

/-- Where a cursor stands. -/
structure Cursor.State where
  /-- The position of the next byte. -/
  pos : Nat := 0
  lineStart : Nat := 0
  /-- The end of the current line, as far as `lineEndKnown` says so. -/
  lineEnd : Nat := 0
  captureStart : Nat := 0
  captureEnd : Nat := 0
  /-- How many lines lie before the current one. -/
  lineNumber : Nat := 0
  lineEndKnown : Bool := true
  deriving DecidableEq, Repr, Inhabited

/-- A text, the state of the walk over it, and whether the walk stops at line ends. -/
structure Cursor where
  source : Array UInt8
  stopAtLineEnd : Bool := false
  state : Cursor.State := { lineEndKnown := false }
  deriving DecidableEq, Repr, Inhabited

namespace Cursor

/-- The first position from `i` on that holds a line break or ends the text. -/
def lineEndFrom (source : Array UInt8) (i : Nat) : Nat :=
  if h : i < source.size then
    if Bytes.isBreak source[i] then i else lineEndFrom source (i + 1)
  else i
termination_by source.size - i

/-- Looks for the end of the current line unless it is known. -/
def findLineEnd (c : Cursor) : Cursor :=
  if c.state.lineEndKnown then c
  else
    { c with
      state :=
        { c.state with lineEnd := lineEndFrom c.source c.state.lineStart, lineEndKnown := true } }

/-- Makes the bounds of the walk known. -/
def settle (c : Cursor) : Cursor := if c.stopAtLineEnd then c.findLineEnd else c

def reset (c : Cursor) : Cursor := settle { c with state := { lineEndKnown := false } }

def ofBytes (source : Bytes) : Cursor := { source := source.toArray }

def resetTo (c : Cursor) (source : Bytes) : Cursor := reset { c with source := source.toArray }

def setStop (c : Cursor) (stop : Bool) : Cursor := settle { c with stopAtLineEnd := stop }

/-- The line of the cursor and the column in it, both counted from one. -/
def location (c : Cursor) : Int × Int :=
  ((c.state.lineNumber : Int) + 1, (c.state.pos : Int) - c.state.lineStart + 1)

/-! ## Bounds

These describe a settled cursor. -/

def limitStart (c : Cursor) : Nat := if c.stopAtLineEnd then c.state.lineStart else 0

def limitEnd (c : Cursor) : Nat := if c.stopAtLineEnd then c.state.lineEnd else c.source.size

/-- Whether nothing is left up to the end of the walk. -/
def isEnd (c : Cursor) : Bool := c.limitEnd ≤ c.state.pos

/-- The bytes of a range, which has to lie in the text. -/
def text? (c : Cursor) (s : Span) : Option Bytes :=
  if 0 ≤ s.start && s.start ≤ s.stop && s.stop ≤ c.source.size then
    some (c.source.extract s.start.toNat s.stop.toNat).toList
  else none

def rest? (c : Cursor) : Option Bytes := c.text? ⟨c.state.pos, c.limitEnd⟩

/-- The byte at a distance from the cursor, zero outside the bounds. -/
def byteAt? (c : Cursor) (offset : Int) : Option UInt8 :=
  let i := (c.state.pos : Int) + offset
  if i < c.limitStart || c.limitEnd ≤ i then some 0 else c.source[i.toNat]?

/-! ## Moving -/

def moveTo (c : Cursor) (pos : Nat) : Cursor := { c with state := { c.state with pos } }

/-- Moves by a distance, unless the target lies outside the bounds. -/
def move (c : Cursor) (offset : Int) : Bool × Cursor :=
  let target := (c.state.pos : Int) + offset
  if target < c.limitStart || c.limitEnd < target then (false, c)
  else (true, c.moveTo target.toNat)

/-- Takes the next byte; at the end of the walk it is zero and nothing moves. -/
def take (c : Cursor) : Option UInt8 × Cursor :=
  if c.isEnd then (some 0, c)
  else
    match c.source[c.state.pos]? with
    | some b => (some b, c.moveTo (c.state.pos + 1))
    | none => (none, c)

/-- From `pos` on, the first position whose byte does not satisfy `p`, and whether it lies before
the end of the walk. -/
def skipFrom (source : Array UInt8) (p : UInt8 → Bool) (start stop pos : Nat) :
    Option Bool × Nat :=
  if pos < stop then
    match (if pos < start then some 0 else source[pos]?) with
    | none => (none, pos)
    | some b => if p b then skipFrom source p start stop (pos + 1) else (some true, pos)
  else (some false, pos)
termination_by stop - pos

/-- Moves over the bytes that satisfy `p`, and tells whether it stopped before the end. -/
def skipWhile (c : Cursor) (p : UInt8 → Bool) : Option Bool × Cursor :=
  let (found, pos) := skipFrom c.source p c.limitStart c.limitEnd c.state.pos
  (found, c.moveTo pos)

/-- From `pos` on, the position after the first byte that satisfies `p`. -/
def searchFrom (source : Array UInt8) (p : UInt8 → Bool) (stop pos : Nat) : Option Bool × Nat :=
  if pos < stop then
    match source[pos]? with
    | none => (none, pos)
    | some b => if p b then (some true, pos + 1) else searchFrom source p stop (pos + 1)
  else (some false, pos)
termination_by stop - pos

/-- Moves behind the first byte that satisfies `p`, and tells whether there was one. -/
def searchFor (c : Cursor) (p : UInt8 → Bool) : Option Bool × Cursor :=
  let (found, pos) := searchFrom c.source p c.limitEnd c.state.pos
  (found, c.moveTo pos)

/-- How many bytes the line break at a position has: two for a carriage return with a line feed,
zero if there is no break. -/
def breakSize (source : Array UInt8) (pos : Nat) : Nat :=
  match source[pos]? with
  | some b =>
    if b == Ascii.cr then if source[pos + 1]? == some Ascii.lf then 2 else 1
    else if b == Ascii.lf then 1
    else 0
  | none => 0

/-- Moves behind the break of the current line, and tells whether any text is left. -/
def nextLine (c : Cursor) : Bool × Cursor :=
  let c := c.findLineEnd
  let from' := max c.state.lineEnd c.state.pos
  let size := breakSize c.source from'
  let pos := from' + size
  let number := if size = 0 then c.state.lineNumber else c.state.lineNumber + 1
  let c' : Cursor :=
    { c with
      state :=
        { pos, lineStart := pos, lineEnd := pos, captureStart := pos, captureEnd := pos
          lineNumber := number, lineEndKnown := false } }
  (pos < c.source.size, c'.settle)

/-! ## Captures -/

def resetCapture (c : Cursor) : Cursor :=
  { c with state := { c.state with captureStart := c.state.pos, captureEnd := c.state.pos } }

def capture (c : Cursor) : Cursor := { c with state := { c.state with captureEnd := c.state.pos } }

/-- The range from the start of the capture to its end. -/
def captured (c : Cursor) : Span := ⟨c.state.captureStart, c.state.captureEnd⟩

end Cursor

end SpectrumTape
