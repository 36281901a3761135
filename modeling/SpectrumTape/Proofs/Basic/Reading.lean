import SpectrumTape.Cursor.Basic
import SpectrumTape.Basic.Compiler

/-!
# Compiling along a cursor

`compile` cuts a source into lines, reads all its tokens and then runs both passes over them. Here
the same is done along a cursor: each pass walks over the source, looks at bytes and takes texts by
their positions, and gets every token as soon as it is read.

Such a walk can go wrong where `compile` cannot. A position may lie outside the source
(`Halt.outOfRange`), and a loop may go on without reading anything (`Halt.endless`). The texts that
were taken are kept by their ranges.
-/

namespace SpectrumTape.Basic

/-- A pass over the tokens of the source at a path. Every fault of the source stops it, and the place
of a line end makes no difference. -/
structure Pass (σ : Type) where
  path : Bytes
  step : σ → Item → Except (Fault Cause) σ
  step_fault : ∀ s line column cause, step s ⟨line, column, .fault cause⟩ =
    .error { location := some ⟨path, line, column⟩, cause }
  step_lineEnd : ∀ s line column line' column',
    step s ⟨line, column, .lineEnd⟩ = step s ⟨line', column', .lineEnd⟩

namespace Pass

def survey (o : Options) (constants : Symbols) (path : Bytes) : Pass Survey where
  path
  step := Survey.step o constants path
  step_fault _ _ _ _ := rfl
  step_lineEnd _ _ _ _ _ := rfl

def emission (o : Options) (constants symbols : Symbols) (path : Bytes) : Pass Emission where
  path
  step := Emission.step o constants symbols path
  step_fault _ _ _ _ := rfl
  step_lineEnd _ _ _ _ _ := rfl

end Pass

/-- Why a walk ends before its time. -/
inductive Halt where
  /-- The pass failed. -/
  | fault (f : Fault Cause)
  /-- A byte or a text outside the source was asked for. -/
  | outOfRange
  /-- A loop went round more often than the source has bytes. -/
  | endless

/-- A walk under way: its cursor, the ranges of the texts that were taken, the latest one first, and
the state of the pass. -/
structure Reader (σ : Type) where
  cursor : Cursor
  taken : List Span := []
  pass : σ

abbrev Reading (σ : Type) := ExceptT Halt (StateM (Reader σ))

namespace Reading

variable {σ α β γ : Type}

/-! ### Operations of the cursor -/

/-- An operation of the cursor, which may ask for something outside the source. -/
def operate (f : Cursor → Option α × Cursor) : Reading σ α := do
  let r ← get
  let (answer, cursor) := f r.cursor.settle
  set { r with cursor }
  match answer with
  | some a => return a
  | none => throw .outOfRange

def isEnd : Reading σ Bool := operate fun c => (some c.isEnd, c)

/-- The byte at a distance, zero outside the line. -/
def byteAt (offset : Int) : Reading σ UInt8 := operate fun c => (c.byteAt? offset, c)

/-- Moves by a distance. Nobody looks at whether it could be done. -/
def move (offset : Int) : Reading σ Unit := operate fun c => (some (), (c.move offset).2)

def take : Reading σ UInt8 := operate Cursor.take

def skipWhile (p : UInt8 → Bool) : Reading σ Unit :=
  operate fun c => ((c.skipWhile p).1.map fun _ => (), (c.skipWhile p).2)

/-- Goes to the next line, and tells whether any text is left. -/
def nextLine : Reading σ Bool := operate fun c => (some c.nextLine.1, c.nextLine.2)

def resetCapture : Reading σ Unit := operate fun c => (some (), c.resetCapture)

def capture : Reading σ Span := operate fun c => (some c.capture.captured, c.capture)

def text (s : Span) : Reading σ Bytes := do
  modify fun r => { r with taken := s :: r.taken }
  operate fun c => (c.text? s, c)

def captured : Reading σ Bytes := do text (← capture)

/-- What was captured before its last byte. -/
def capturedBefore : Reading σ Bytes := do
  let s ← capture
  text ⟨s.start, s.stop - 1⟩

def remaining : Reading σ Span := operate fun c => (some ⟨c.state.pos, c.limitEnd⟩, c)

def rest : Reading σ Bytes := do text (← remaining)

/-- What is left of the line behind its first byte. -/
def restBehind : Reading σ Bytes := do
  let s ← remaining
  let _ ← text s
  text ⟨s.start + 1, s.stop⟩

/-! ### Tokens and loops -/

/-- Hands a token to the pass, at the place of the cursor. -/
def hand (pass : Pass σ) (t : Token) : Reading σ Unit := do
  let r ← get
  let (line, column) := r.cursor.location
  match pass.step r.pass ⟨line.toNat, column.toNat, t⟩ with
  | .ok s => set { r with pass := s }
  | .error f => throw (.fault f)

/-- The source is at fault at the place of the cursor. -/
def fail (pass : Pass σ) (cause : Cause) : Reading σ α := do
  let (line, column) := (← get).cursor.location
  throw (.fault { location := some ⟨pass.path, line.toNat, column.toNat⟩, cause })

/-- Hands over the token of a value, or fails for what is wrong with it. -/
def handResult (pass : Pass σ) (token : β → Token) : Except Cause β → Reading σ Unit
  | .ok b => hand pass (token b)
  | .error cause => fail pass cause

/-- Goes round until there is a result, but not more often than it may. -/
def rounds (body : β → Reading σ (β ⊕ γ)) : Nat → β → Reading σ γ
  | 0, _ => throw .endless
  | n + 1, b => do
    match ← body b with
    | .inl b => rounds body n b
    | .inr c => return c

/-- A loop. It may go round once for each byte of the source, and once more. -/
def loop (body : β → Reading σ (β ⊕ γ)) (b : β) : Reading σ γ := do
  rounds body ((← get).cursor.source.size + 1) b

/-! ### Numbers -/

def digits (pass : Pass σ) (base : Nat) (isDigit : UInt8 → Bool) (empty large : Cause) :
    Reading σ Unit := do
  resetCapture
  skipWhile isDigit
  handResult pass .number (Literal.numberOfDigits base (← captured) empty large)

/-- Moves over the digits before the point of a number with this first byte. -/
def skipWhole (first : UInt8) : Reading σ Unit :=
  if first == 0x2E then pure () else skipWhile Ascii.isDigit

def skipFraction : Reading σ Unit := do
  if (← byteAt 0) == 0x2E then
    move 1
    skipWhile Ascii.isDigit
  else pure ()

def skipExponent : Reading σ Unit := do
  let e ← byteAt 0
  if e == 0x65 || e == 0x45 then
    let sign ← byteAt 1
    let offset : Nat := if sign == 0x2B || sign == 0x2D then 2 else 1
    if Ascii.isDigit (← byteAt offset) then
      move offset
      skipWhile Ascii.isDigit
    else pure ()
  else pure ()

def decimal (pass : Pass σ) (first : UInt8) : Reading σ Unit := do
  resetCapture
  skipWhole first
  skipFraction
  skipExponent
  handResult pass .number (Literal.numberOfText (← captured))

def number (pass : Pass σ) (binary : Bool) : Reading σ Unit := do
  let first ← byteAt 0
  if first == 0x30 || binary then
    let mark ← byteAt 1
    if mark == 0x78 || mark == 0x58 then
      move 2
      digits pass 16 Ascii.isHexDigit .emptyHexadecimal .largeHexadecimal
    else if first == 0x30 && (mark == 0x62 || mark == 0x42) then
      move 2
      digits pass 2 Ascii.isBinaryDigit .emptyBinary .largeBinary
    else if binary then digits pass 2 Ascii.isBinaryDigit .emptyBinary .largeBinary
    else decimal pass first
  else decimal pass first

/-! ### Strings -/

/-- One round of reading a string, of which `done` is what was read before the capture. -/
def stringRound (v : Vocabulary) (pass : Pass σ) (done : Bytes) :
    Reading σ (Bytes ⊕ Bytes) := do
  if ← isEnd then fail pass .openString
  else
    let b ← take
    if b == Ascii.quote then
      if !(← isEnd) && (← byteAt 0) == Ascii.quote then
        move 1
        return .inl done
      else return .inr done
    else if b == Ascii.backslash then
      match v.findEscape? (← rest) with
      | none => fail pass .stringEscape
      | some found =>
        let before ← capturedBefore
        move found.size
        resetCapture
        return .inl (done ++ before ++ [found.code])
    else return .inl done

def string (v : Vocabulary) (pass : Pass σ) : Reading σ Unit := do
  move 1
  resetCapture
  let done ← loop (stringRound v pass) []
  hand pass (.string (done ++ (← capturedBefore)))

/-! ### Remarks -/

/-- Hands over the bytes that satisfy `p` as they stand. -/
def plainRun (pass : Pass σ) (p : UInt8 → Bool) : Reading σ Unit := do
  resetCapture
  skipWhile p
  hand pass (.plain (← captured))

/-- Hands over the byte at the cursor as it stands. -/
def plainByte (pass : Pass σ) (b : UInt8) : Reading σ Unit := do
  move 1
  hand pass (.plain [b])

/-- Moves over a blank, and hands it over unless another one is before it. -/
def blank (pass : Pass σ) (afterBlank : Bool) : Reading σ Unit := do
  move 1
  if afterBlank then pure () else hand pass (.plain [0x20])

/-- Hands over the code of an escape, the backslash of which is at the cursor. -/
def remarkEscape (v : Vocabulary) (pass : Pass σ) : Reading σ Unit := do
  move 1
  match v.findEscape? (← rest) with
  | none => fail pass .remarkEscape
  | some found =>
    move found.size
    hand pass (.plain [found.code])

def remarkRound (v : Vocabulary) (pass : Pass σ) (afterBlank : Bool) :
    Reading σ (Bool ⊕ Unit) := do
  if ← isEnd then return .inr ()
  else
    let b ← byteAt 0
    if b == Ascii.backslash then
      if Bytes.allBlank (← restBehind) then
        let _ ← nextLine
        return .inl false
      else
        remarkEscape v pass
        return .inl false
    else if Ascii.isSpace b then
      blank pass afterBlank
      return .inl true
    else if Ascii.isAlnum b then
      plainRun pass Ascii.isAlnum
      return .inl false
    else
      plainByte pass b
      return .inl false

/-! ### Lines -/

def lineNumber (pass : Pass σ) : Reading σ Unit := do
  resetCapture
  skipWhile Ascii.isDigit
  let n := Bytes.valueOfDigits 10 (← captured)
  if (← isEnd) || !Ascii.isSpace (← byteAt 0) then fail pass .wrongLineNumber
  else if n < 0x8000000000000000 then hand pass (.lineNumber n)
  else fail pass .wrongLineNumber

def symbol (pass : Pass σ) (first : Bool) : Reading σ Unit := do
  move 1
  resetCapture
  skipWhile Ascii.isWord
  let name ← captured
  if first then
    if (← take) != 0x3A || name.isEmpty then fail pass .invalidLabel else hand pass (.label name)
  else if name.isEmpty then fail pass .invalidReference
  else hand pass (.reference name)

/-- Tells that text behind a line escape is ignored. -/
def ignore (pass : Pass σ) (behind : Bytes) : Reading σ Unit :=
  if Bytes.allBlank behind then pure () else hand pass .ignored

def lineEscape (pass : Pass σ) : Reading σ Unit := do
  ignore pass (← restBehind)
  let _ ← nextLine

/-- Reads a keyword that was found at the cursor, and what belongs to it. -/
def keyword (v : Vocabulary) (pass : Pass σ) (found : Spelling.Found) : Reading σ Unit := do
  move found.size
  if found.code == Code.bin then
    skipWhile Ascii.isSpace
    number pass true
  else if found.code == Code.rem then
    skipWhile Ascii.isSpace
    hand pass (.keyword found.code)
    loop (remarkRound v pass) false
  else hand pass (.keyword found.code)

/-- Reads a keyword, a word of the program or a byte that stands for itself. -/
def word (v : Vocabulary) (pass : Pass σ) (first : Bool) : Reading σ Unit := do
  let b ← byteAt 0
  match v.findKeyword? (← rest) with
  | some found =>
    if first then
      if found.code == Code.bin then fail pass .nonsense
      else
        hand pass .statement
        keyword v pass found
    else keyword v pass found
  | none =>
    if first then fail pass .nonsense
    else if Ascii.isAlpha b then plainRun pass Ascii.isAlnum
    else plainByte pass b

/-- Reads what opens or continues a statement and has this first byte. -/
def element (v : Vocabulary) (pass : Pass σ) (first : Bool) (b : UInt8) : Reading σ Unit :=
  if Ascii.isDigit b then if first then lineNumber pass else number pass false
  else if b == 0x2E then if first then fail pass .wrongLineNumber else number pass false
  else if b == Ascii.quote then if first then fail pass .nonsense else string v pass
  else word v pass first

/-- One round of reading a logical line, `first` until something opened it. -/
def lineRound (v : Vocabulary) (pass : Pass σ) (first : Bool) : Reading σ (Bool ⊕ Unit) := do
  skipWhile Ascii.isSpace
  if ← isEnd then
    hand pass .lineEnd
    return .inr ()
  else
    let b ← byteAt 0
    if b == 0x23 then
      hand pass .lineEnd
      return .inr ()
    else if b == Ascii.backslash then
      lineEscape pass
      return .inl first
    else if b == 0x40 then
      symbol pass first
      return .inl first
    else
      element v pass first b
      return .inl false

/-- One round of reading a source: a logical line, and the way to the next one. -/
def sourceRound (v : Vocabulary) (pass : Pass σ) : Unit → Reading σ (Unit ⊕ Unit) := fun _ => do
  loop (lineRound v pass) true
  if ← nextLine then return .inl () else return .inr ()

def source (v : Vocabulary) (pass : Pass σ) : Reading σ Unit := loop (sourceRound v pass) ()

end Reading

/-! ### Both passes -/

/-- Walks over a source from its start, and tells why the pass failed if it did. -/
def walk {σ : Type} (v : Vocabulary) (pass : Pass σ) (r : Reader σ) :
    Except Halt (Reader σ × Option (Fault Cause)) :=
  match (Reading.source v pass).run.run { r with cursor := r.cursor.reset } with
  | (.ok _, r) => .ok (r, none)
  | (.error (.fault f), r) => .ok (r, some f)
  | (.error halt, _) => .error halt

/-- What becomes of a source whose second pass is over. -/
def Compiled.ofEmission (path : Bytes) (warnings : List Diagnostic) (symbols : Symbols) :
    Emission × Option (Fault Cause) → Compiled
  | (_, some fault) => .failed warnings symbols { first := fault }
  | (e, none) =>
    if e.program.isEmpty then .failed warnings symbols { first := fileFault path .emptyProgram }
    else if (Program.bytes e.program).isEmpty then
      .failed warnings symbols { first := fileFault path .noBytes }
    else { diagnostics := warnings, symbols, result := .ok e.program }

/-- Compiles a source along a cursor that stops at line ends. Gives also the ranges of all texts that
were taken. -/
def compileAlong (o : Options) (dialect : Dialect) (constants : Symbols) (path source : Bytes) :
    Except Halt (Compiled × List Span) :=
  match constants.toList.find? (!·.isResolved) with
  | some v => .ok (.failed [] {} { first := fileFault path (.unresolvedConstant v.name) }, [])
  | none => do
    let v := Vocabulary.ofDialect dialect
    let cursor := (Cursor.ofBytes source).setStop true
    let (r, fault) ← walk v (.survey o constants path) { cursor, pass := {} }
    let symbols := r.pass.symbols
    let warnings := r.pass.warnings.reverse
    match fault with
    | some fault => return (.failed warnings symbols { first := fault }, r.taken)
    | none =>
      match Failure.ofFaults? (r.pass.unresolved.map (fileFault path ∘ .unresolvedVariable)) with
      | some failure => return (.failed warnings symbols failure, r.taken)
      | none => do
        let (r, fault) ← walk v (.emission o constants symbols path)
          { cursor := r.cursor, taken := r.taken, pass := {} }
        return (.ofEmission path warnings symbols (r.pass, fault), r.taken)

end SpectrumTape.Basic
