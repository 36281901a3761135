import SpectrumTape.Text.Letter
import SpectrumTape.Text.Quoted
import SpectrumTape.Number.Reading
import SpectrumTape.Script.Literal

/-!
# Tokens of scripts

A script is made of lines whose indentation shows which belong together; inside brackets line ends
do not count. Lines and columns are counted from one, a column for each character. The text is
taken apart in steps, each of which gives a token, skips something or finds a fault.
-/

namespace SpectrumTape.Script

/-- A place in a script. -/
structure Position where
  line : Nat := 1
  column : Nat := 1
  deriving DecidableEq, Repr, Inhabited

/-- The smallest parts of a script. -/
inductive Token where
  | endOfFile
  | newline
  | indent
  | outdent
  | name (s : Bytes)
  | int (n : Nat)
  | float (x : Binary64)
  | string (s : Bytes)
  | bytes (s : Bytes)
  /-- Punctuation. -/
  | mark (s : String)
  /-- A word with a meaning of its own. -/
  | word (s : String)
  /-- A word kept for later use. -/
  | reserved
  deriving DecidableEq, Repr, Inhabited

def Token.description : Token → Bytes
  | .endOfFile => "end of file"
  | .newline => "newline"
  | .indent => "indent"
  | .outdent => "outdent"
  | .name _ => "identifier"
  | .int _ => "int literal"
  | .float _ => "float literal"
  | .string _ => "string literal"
  | .bytes _ => "bytes literal"
  | .mark s => "'" ++ utf8 s ++ "'"
  | .word s => s
  | .reserved => "illegal token"

/-- What is wrong with the form of a script, and where. -/
structure SyntaxFault where
  pos : Position
  message : Bytes
  deriving DecidableEq, Repr, Inhabited

/-- A token with its place and the place behind it, or the fault that is found there. -/
inductive Lexeme where
  | token (t : Token) (start stop : Position)
  | fault (f : SyntaxFault)
  deriving DecidableEq, Repr, Inhabited

def keywords : List String :=
  ["and", "break", "continue", "def", "elif", "else", "for", "if", "in", "lambda", "load", "not",
    "or", "pass", "return", "while"]

def reservedWords : List String :=
  ["as", "async", "await", "class", "del", "except", "finally", "from", "global", "import", "is",
    "nonlocal", "raise", "try", "with", "yield"]

/-- The punctuation, longer marks before their initial parts. -/
def marks : List String :=
  ["<<=", ">>=", "//=", "==", "!=", "<=", ">=", "+=", "-=", "*=", "/=", "%=", "&=", "|=", "^=",
    "**", "//", "<<", ">>", "=", "<", ">", "+", "-", "*", "/", "%", "&", "|", "^", "~", ":", ";",
    ",", "(", ")", "[", "]", "\x7b", "\x7d", "."]

/-- The characters of a script: every kind of line end is a line feed, and a byte that belongs to
no character is the replacement character. The flag says whether a carriage return was just
read, which takes a line feed with it. -/
def charactersFrom : Bool → List Rune → List Nat
  | _, [] => []
  | _, .stray _ :: rest => 0xFFFD :: charactersFrom false rest
  | returned, .scalar n :: rest =>
    if n == 0x0D then 0x0A :: charactersFrom true rest
    else if n == 0x0A && returned then charactersFrom false rest
    else n :: charactersFrom false rest

def characters (source : Bytes) : List Nat := charactersFrom false source.runes

def encode (cs : List Nat) : Bytes := cs.flatMap fun n => (Rune.scalar n).encode

def isNameStart (c : Nat) : Bool := c == 0x5F || Letter.isLetter c

def isDigit (c : Nat) : Bool := 0x30 ≤ c && c ≤ 0x39

def isHexDigit (c : Nat) : Bool := c < 0x80 && Ascii.isHexDigit (UInt8.ofNat c)

def isNamePart (c : Nat) : Bool := isNameStart c || isDigit c

/-- What is left of a script, and what was found out about its lines. -/
structure Scanner where
  rest : List Nat
  pos : Position := {}
  /-- Whether a line begins here. -/
  lineStart : Bool := true
  /-- How many brackets are open. -/
  depth : Nat := 0
  /-- The indentations under way, the innermost first. -/
  indents : List Nat := []
  /-- Tokens for a changed indentation that are due: positive ones go in, negative ones out. -/
  due : Int := 0
  deriving DecidableEq, Repr, Inhabited

namespace Scanner

/-- The next character. A script ends at a NUL. -/
def peek? (s : Scanner) : Option Nat :=
  match s.rest with
  | c :: _ => if c == 0 then none else some c
  | [] => none

/-- Whether the next character satisfies a predicate. -/
def sees (s : Scanner) (p : Nat → Bool) : Bool := (s.peek?.map p).getD false

def behind (p : Position) (c : Nat) : Position :=
  if c == 0x0A then ⟨p.line + 1, 1⟩ else ⟨p.line, p.column + 1⟩

def advance (s : Scanner) : Scanner :=
  match s.rest with
  | c :: rest => { s with rest, pos := behind s.pos c }
  | [] => s

def advanceBy (s : Scanner) (n : Nat) : Scanner :=
  (List.replicate n ()).foldl (fun s _ => s.advance) s

/-- The longest initial part of which all characters satisfy `p`, NUL apart. -/
def run (s : Scanner) (p : Nat → Bool) : List Nat := s.rest.takeWhile fun c => c != 0 && p c

/-- The state after all next characters that satisfy `p`. -/
def skip (s : Scanner) (p : Nat → Bool) : Scanner := s.advanceBy (s.run p).length

/-- The characters between two states, the later one being `t`. -/
def upTo (s t : Scanner) : List Nat := s.rest.take (s.rest.length - t.rest.length)

def isBlank (c : Nat) : Bool := c == 0x20 || c == 0x09

/-- The width of blanks that begin at a column; a tab goes to the next multiple of eight. -/
def indentWidth : Nat → List Nat → Nat
  | _, [] => 0
  | column, c :: rest =>
    (if c == 0x09 then 8 - (column - 1) % 8 else 1) + indentWidth (column + 1) rest

def indentTo (s : Scanner) (width : Nat) : Except SyntaxFault Scanner :=
  let current := s.indents.head?.getD 0
  if current < width then .ok { s with due := s.due + 1, indents := width :: s.indents }
  else if width < current then
    let kept := s.indents.dropWhile (width < ·)
    if width == kept.head?.getD 0 then
      .ok { s with due := s.due - ((s.indents.length - kept.length : Nat) : Int), indents := kept }
    else .error ⟨s.pos, "unindent does not match any outer indentation level"⟩
  else .ok s

/-- What a step gives. -/
inductive Step where
  | token (t : Token) (start : Position) (next : Scanner)
  | skip (next : Scanner)
  | fault (f : SyntaxFault)

/-! ## Literals -/

/-- Finds the end of a literal after its opening quote, which is closed by `need` quotes in a row,
and gives what follows that. `seen` counts the quotes just passed. -/
def closingQuote (quote need : Nat) (start : Position) :
    Nat → Scanner → List Nat → Except SyntaxFault Scanner
  | _, _, [] => .error ⟨start, "unexpected EOF in string"⟩
  | seen, s, c :: rest =>
    let s' := s.advance
    if c == quote then
      if seen + 1 == need then .ok s' else closingQuote quote need start (seen + 1) s' rest
    else if c == 0x0A && need == 1 then .error ⟨start, "unexpected newline in string"⟩
    else if c == 0x5C then
      match rest with
      | [] => .error ⟨start, "unexpected EOF in string"⟩
      | _ :: rest' => closingQuote quote need start 0 s'.advance rest'
    else closingQuote quote need start 0 s' rest

/-- Reads a string literal whose quote comes next, after a prefix that begins at `start`. -/
def stringLiteral (s : Scanner) (start : Position) (raw ofBytes : Bool) : Step :=
  match s.rest with
  | [] => .fault ⟨start, "unexpected EOF in string"⟩
  | quote :: rest =>
    let need := if rest.take 2 == [quote, quote] then 3 else 1
    let opened := s.advanceBy need
    match closingQuote quote need start 0 opened opened.rest with
    | .error f => .fault f
    | .ok s' =>
      let inside := opened.upTo s'
      let inside := encode (inside.take (inside.length - need))
      match if raw then .ok inside else Literal.unescape ofBytes inside with
      | .error message => .fault ⟨s.pos, message⟩
      | .ok text => .token (if ofBytes then .bytes text else .string text) start s'

/-- The token of a whole number with digits of a base behind a mark of two characters. -/
def basedNumber (s : Scanner) (base : Nat) (faultAt : Position) (name : String) : Step :=
  let digits := s.advanceBy 2
  let isDigitOf := fun c => c < 0x80 && Numeral.isDigitOf base (UInt8.ofNat c)
  let s' := digits.skip isDigitOf
  if digits.sees isDigitOf then
    .token (.int (Bytes.valueOfDigits base (encode (digits.upTo s')))) s.pos s'
  else .fault ⟨faultAt, "invalid " ++ utf8 name ++ " literal"⟩

/-- The state after the exponent of a float, if one comes next. -/
def skipExponent (s : Scanner) : Except SyntaxFault (Bool × Scanner) :=
  if s.sees fun c => c == 0x65 || c == 0x45 then
    let s := s.advance
    if s.sees fun c => c == 0x2B || c == 0x2D then
      let s := s.advance
      if s.sees isDigit then .ok (true, s.skip isDigit)
      else .error ⟨s.pos, "invalid float literal"⟩
    else .ok (true, s.skip isDigit)
  else .ok (false, s)

/-- The token of decimal digits between two states: a float if it has a point or an exponent. A
whole number does not begin with a zero. -/
def decimalNumber (s t : Scanner) (isFloat : Bool) : Step :=
  let text := encode (s.upTo t)
  if isFloat then
    match Reading.readBinary Binary.format64 text with
    | .ok x => .token (.float x) s.pos t
    | .error _ => .fault ⟨t.pos, "invalid float literal"⟩
  else if text.head? == some 0x30 && text.any (· != 0x30) then
    if text.all Literal.isOctal then
      .fault ⟨t.pos, "obsolete form of octal literal; use 0o" ++ text.drop 1⟩
    else .fault ⟨s.pos, "invalid int literal"⟩
  else .token (.int (Bytes.valueOfDigits 10 text)) s.pos t

/-- Reads a number, the next character being a digit or a point before one. -/
def number (s : Scanner) : Step :=
  let second := (s.rest.drop 1).head?.getD 0
  let lead := s.rest.head? == some 0x30
  if lead && (second == 0x78 || second == 0x58) then s.basedNumber 16 s.pos "hex"
  else if lead && (second == 0x6F || second == 0x4F) then
    s.basedNumber 8 (s.advanceBy 2).pos "octal"
  else if lead && (second == 0x62 || second == 0x42) then
    s.basedNumber 2 (s.advanceBy 2).pos "binary"
  else
    let whole := s.skip isDigit
    let point := whole.sees (· == 0x2E)
    let fraction := if point then whole.advance.skip isDigit else whole
    match fraction.skipExponent with
    | .error f => .fault f
    | .ok (exponent, t) => s.decimalNumber t (point || exponent)

/-! ## Steps -/

def wordToken (text : Bytes) : Token :=
  match keywords.find? (utf8 · == text) with
  | some w => .word w
  | none => if reservedWords.any (utf8 · == text) then .reserved else .name text

def word (s : Scanner) : Step :=
  let isQuote := fun c => c == 0x22 || c == 0x27
  match s.rest with
  | 0x72 :: 0x62 :: c :: _ =>
    if isQuote c then (s.advanceBy 2).stringLiteral s.pos true true else plain
  | 0x72 :: c :: _ => if isQuote c then s.advance.stringLiteral s.pos true false else plain
  | 0x62 :: c :: _ => if isQuote c then s.advance.stringLiteral s.pos false true else plain
  | _ => plain
where
  plain : Step :=
    let t := s.skip isNamePart
    .token (wordToken (encode (s.upTo t))) s.pos t

def punctuation (s : Scanner) (c : Nat) : Step :=
  let found := marks.find? fun m => (Bytes.dropPrefix? (utf8 m) (encode (s.rest.take 3))).isSome
  let quoted := "'" ++ Quoted.rune (.scalar c) ++ "'"
  match found with
  | none =>
    if c == 0x21 then .fault ⟨s.pos, "unexpected '!'"⟩
    else .fault ⟨s.pos, "unexpected input character " ++ quoted⟩
  | some m =>
    let t := s.advanceBy m.length
    if ["(", "[", "\x7b"].contains m then
      .token (.mark m) s.pos { t with depth := t.depth + 1 }
    else if [")", "]", "\x7d"].contains m then
      if s.depth == 0 then .fault ⟨s.pos, "unexpected " ++ quoted⟩
      else .token (.mark m) s.pos { t with depth := t.depth - 1 }
    else .token (.mark m) s.pos t

/-- Reads what begins at a character that is neither blank nor the end of the script. -/
def visible (s : Scanner) (c : Nat) : Step :=
  if c == 0x5C then
    let t := s.advance
    if t.sees (· == 0x0A) then .skip t.advance
    else .fault ⟨t.pos, "stray backslash in program"⟩
  else if c == 0x22 || c == 0x27 then s.stringLiteral s.pos false false
  else if isNameStart c then s.word
  else if isDigit c || (c == 0x2E && s.advance.sees isDigit) then s.number
  else s.punctuation c

/-- Reads on in a line. `fresh` says whether the line just began, and `blank` whether it holds
nothing. -/
def inLine (s : Scanner) (fresh blank : Bool) : Step :=
  let s := s.skip isBlank
  let s := if s.sees (· == 0x23) then s.skip (· != 0x0A) else s
  match s.peek? with
  | none =>
    if s.indents.isEmpty then .token .endOfFile s.pos s
    else if fresh then
      .skip { s with due := -((s.indents.length : Nat) : Int), indents := [] }
    else .token .newline s.pos { s with lineStart := true }
  | some c =>
    if c == 0x0A then
      let t := { s.advance with lineStart := true }
      if 0 < s.depth || blank then .skip t else .token .newline s.pos t
    else s.visible c

def step (s : Scanner) : Step :=
  let fresh := s.lineStart
  let width := if fresh then indentWidth s.pos.column (s.run isBlank) else 0
  let s := if fresh then { s.skip isBlank with lineStart := false } else s
  let blank := fresh && (s.peek?.isNone || s.sees fun c => c == 0x23 || c == 0x0A)
  match if fresh && !blank && s.depth == 0 then s.indentTo width else .ok s with
  | .error f => .fault f
  | .ok s =>
    if 0 < s.due then .token .indent s.pos { s with due := s.due - 1 }
    else if s.due < 0 then .token .outdent s.pos { s with due := s.due + 1 }
    else s.inLine fresh blank

/-- The tokens of what is left, up to the end of the script or the first fault. -/
def lexemes : Nat → Scanner → List Lexeme
  | 0, s => [.token .endOfFile s.pos s.pos]
  | fuel + 1, s =>
    match s.step with
    | .fault f => [.fault f]
    | .skip s' => lexemes fuel s'
    | .token .endOfFile start s' => [.token .endOfFile start s'.pos]
    | .token t start s' => .token t start s'.pos :: lexemes fuel s'

end Scanner

/-- The tokens of a script. A character takes part in at most four steps: one that reads it and,
where it begins a line, those that open and close the indentation. -/
def tokenize (source : Bytes) : List Lexeme :=
  let cs := characters source
  Scanner.lexemes (4 * cs.length + 4) { rest := cs }

end SpectrumTape.Script
