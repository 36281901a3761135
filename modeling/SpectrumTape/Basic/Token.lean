import SpectrumTape.Text.Lines
import SpectrumTape.Basic.Literal

/-!
# Tokens of a source

A source is a list of lines. A backslash at the end of a line joins the next one to it, so a
logical line may span several lines of the source. `lex` reads the source from left to right, one
token after the other, and ends at the first fault. What a token is depends on whether it is the
first of its logical line and on whether it lies in a remark; `Mode` keeps that.

Each step reads at least one byte or goes to the next line, which bounds the reading.
-/

namespace SpectrumTape.Basic

/-- A piece of a source. -/
inductive Token where
  /-- The number that a line begins with. -/
  | lineNumber (n : Nat)
  /-- A name for the number of the next line. -/
  | label (name : Bytes)
  /-- The start of a line without a number of its own. -/
  | statement
  /-- The value of a name. -/
  | reference (name : Bytes)
  | keyword (code : UInt8)
  | number (n : Number)
  | string (content : Bytes)
  /-- Bytes that stand for themselves. -/
  | plain (bytes : Bytes)
  /-- Text behind a line escape. -/
  | ignored
  /-- The end of a logical line. -/
  | lineEnd
  | fault (cause : Cause)
  deriving DecidableEq, Repr, Inhabited

/-- A token with the place where its reading ended, both counted from one. -/
structure Item where
  line : Nat
  column : Nat
  token : Token
  deriving DecidableEq, Repr, Inhabited

/-- What the next byte is read as. -/
inductive Mode where
  /-- Part of a statement, or the start of a logical line. -/
  | statement (first : Bool)
  /-- Part of a remark, behind a blank or not. -/
  | remark (afterBlank : Bool)
  deriving DecidableEq, Repr, Inhabited

/-- How the reading goes on. -/
inductive Next where
  /-- Nowhere: the source is at fault. -/
  | stop
  /-- On the same line, one byte and `more` further ones on. -/
  | advance (more : Nat) (mode : Mode)
  /-- On the next line, which belongs to the same logical line. -/
  | join (mode : Mode)
  /-- On the next line, with another logical line. -/
  | newLine
  deriving DecidableEq, Repr, Inhabited

/-- One step of the reading: tokens, each with its distance from the start of the step, and how to
go on. -/
structure Step where
  tokens : List (Nat × Token) := []
  next : Next
  deriving DecidableEq, Repr, Inhabited

namespace Step

/-- The source is at fault at a distance from the start of the step. -/
def fail (offset : Nat) (cause : Cause) : Step := ⟨[(offset, .fault cause)], .stop⟩

/-- The step read `size` bytes, at least one, up to the tokens. -/
def read (size : Nat) (tokens : List Token) (mode : Mode) : Step :=
  ⟨tokens.map (size, ·), .advance (size - 1) mode⟩

def ofRead {α : Type} (before : Nat) (token : α → Token) (r : Read α) : Step :=
  match r.result with
  | .ok a => read (before + r.size) [token a] (.statement false)
  | .error cause => fail (before + r.size) cause

end Step

namespace Lexer

def endLine : Step := ⟨[(0, .lineEnd)], .newLine⟩

/-- The number at the start of a line; a blank has to follow it. -/
def lineNumberStep (s : Bytes) : Step :=
  let digits := s.takeWhile Ascii.isDigit
  let size := digits.length
  let n := Bytes.valueOfDigits 10 digits
  match s.drop size with
  | c :: _ =>
    if Ascii.isSpace c && n < 0x8000000000000000 then
      .read size [.lineNumber n] (.statement false)
    else .fail size .wrongLineNumber
  | [] => .fail size .wrongLineNumber

/-- A label `@name:` at the start of a line, from its `@` on. -/
def labelStep (s : Bytes) : Step :=
  let name := (s.drop 1).takeWhile Ascii.isWord
  let size := 1 + name.length
  match s.drop size with
  | c :: _ =>
    if c == 0x3A && !name.isEmpty then .read (size + 1) [.label name] (.statement true)
    else .fail (size + 1) .invalidLabel
  | [] => .fail size .invalidLabel

def referenceStep (s : Bytes) : Step :=
  let name := (s.drop 1).takeWhile Ascii.isWord
  if name.isEmpty then .fail 1 .invalidReference
  else .read (1 + name.length) [.reference name] (.statement false)

/-- The step behind a keyword of `size` bytes. The mark of a binary number has no code of its own
in the program, and a remark starts behind the blanks that follow its keyword. -/
def keywordStep (code : UInt8) (size : Nat) (rest : Bytes) : Step :=
  let blanks := Literal.runLength Ascii.isSpace rest
  if code == Code.bin then
    .ofRead (size + blanks) .number (Literal.readNumber true (rest.drop blanks))
  else if code == Code.rem then .read (size + blanks) [.keyword code] (.remark false)
  else .read size [.keyword code] (.statement false)

/-- A word of the program, or a byte that stands for itself. -/
def plainStep (s : Bytes) : Step :=
  let word := s.takeWhile Ascii.isAlnum
  if s.head?.any Ascii.isAlpha then .read word.length [.plain word] (.statement false)
  else .read 1 [.plain (s.take 1)] (.statement false)

/-- A keyword or whatever else is no literal. The first one of a line has to be a keyword that can
start a statement. -/
def wordStep (v : Vocabulary) (first : Bool) (s : Bytes) : Step :=
  match v.findKeyword? s with
  | some found =>
    let step := keywordStep found.code found.size found.rest
    if first then
      if found.code == Code.bin then .fail 0 .nonsense
      else { step with tokens := (0, .statement) :: step.tokens }
    else step
  | none => if first then .fail 0 .nonsense else plainStep s

/-- A backslash in a statement: the next line is joined, and what follows on this one is
ignored. -/
def lineEscapeStep (first : Bool) (rest : Bytes) : Step :=
  ⟨if Bytes.allBlank rest then [] else [(0, .ignored)], .join (.statement first)⟩

def statementStep (v : Vocabulary) (first : Bool) : Bytes → Step
  | [] => endLine
  | c :: rest =>
    let s := c :: rest
    if Ascii.isSpace c then .read (Literal.runLength Ascii.isSpace s) [] (.statement first)
    else if c == 0x23 then endLine
    else if c == Ascii.backslash then lineEscapeStep first rest
    else if c == 0x40 then if first then labelStep s else referenceStep s
    else if Ascii.isDigit c then
      if first then lineNumberStep s else .ofRead 0 .number (Literal.readNumber false s)
    else if c == 0x2E then
      if first then .fail 0 .wrongLineNumber
      else .ofRead 0 .number (Literal.readNumber false s)
    else if c == Ascii.quote then
      if first then .fail 0 .nonsense else .ofRead 0 .string (Literal.readString v s)
    else wordStep v first s

/-- One step in a remark: blanks next to each other become one, and escapes their codes. -/
def remarkStep (v : Vocabulary) (afterBlank : Bool) : Bytes → Step
  | [] => endLine
  | c :: rest =>
    if c == Ascii.backslash then
      if Bytes.allBlank rest then ⟨[], .join (.remark false)⟩
      else
        match v.findEscape? rest with
        | some found => .read (1 + found.size) [.plain [found.code]] (.remark false)
        | none => .fail 1 .remarkEscape
    else if Ascii.isSpace c then
      .read 1 (if afterBlank then [] else [.plain [0x20]]) (.remark true)
    else if Ascii.isAlnum c then
      let word := (c :: rest).takeWhile Ascii.isAlnum
      .read word.length [.plain word] (.remark false)
    else .read 1 [.plain [c]] (.remark false)

def step (v : Vocabulary) : Mode → Bytes → Step
  | .statement first => statementStep v first
  | .remark afterBlank => remarkStep v afterBlank

def Step.items (s : Step) (line column : Nat) : List Item :=
  s.tokens.map fun (offset, token) => ⟨line, column + offset, token⟩

/-- The tokens from a place on: `here` is what is left of the line, `later` are the lines behind
it. At the end of the source a logical line that was to go on ends as well. -/
def lexFrom (v : Vocabulary) (mode : Mode) (line column : Nat) (here : Bytes)
    (later : List Bytes) : List Item :=
  let s := step v mode here
  Step.items s line column ++
    match s.next with
    | .stop => []
    | .advance more mode =>
      if h : here = [] then []
      else lexFrom v mode line (column + (more + 1)) (here.drop (more + 1)) later
    | .join mode =>
      match later with
      | [] => [⟨line, column, .lineEnd⟩]
      | next :: later => lexFrom v mode (line + 1) 1 next later
    | .newLine =>
      match later with
      | [] => []
      | next :: later => lexFrom v (.statement true) (line + 1) 1 next later
termination_by here.length + later.flatten.length + later.length
decreasing_by
  · have := List.length_pos_iff.mpr h
    simp only [List.length_drop]
    omega
  · simp only [List.flatten_cons, List.length_append, List.length_cons]
    omega
  · simp only [List.flatten_cons, List.length_append, List.length_cons]
    omega

end Lexer

def lex (v : Vocabulary) (source : Bytes) : List Item :=
  match source.lines with
  | [] => []
  | first :: later => Lexer.lexFrom v (.statement true) 1 1 first later

end SpectrumTape.Basic
