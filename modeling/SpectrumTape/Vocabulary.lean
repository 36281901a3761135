import SpectrumTape.Dialect

/-!
# The vocabulary of a dialect

Every keyword of the language has a code of one byte and one or two spellings. Inside strings and
remarks an escape, written after a backslash, stands for a graphic character or for one that would
otherwise be special.

Of the spellings that fit the start of a text the longest is taken. Keywords are compared without
regard to the case of letters, and one made of letters only has to end where the word ends.
-/

namespace SpectrumTape

/-- A keyword with its spellings. -/
structure Keyword where
  primary : Bytes
  alternate : Option Bytes := none
  code : UInt8
  deriving DecidableEq, Repr, Inhabited

/-- A sequence that stands for a character when a backslash is before it. -/
structure Escape where
  sequence : Bytes
  code : UInt8
  deriving DecidableEq, Repr, Inhabited

namespace Code

/-- Ends a line of a program. -/
def endOfLine : UInt8 := 0x0D

def number : UInt8 := 0x0E

/-- The first keyword of every dialect. -/
def rnd : UInt8 := 0xA5

/-- The mark of a binary number. -/
def bin : UInt8 := 0xC4

def rem : UInt8 := 0xEA

end Code

/-- One spelling and the code it stands for. -/
structure Spelling where
  text : Bytes
  code : UInt8
  deriving DecidableEq, Repr, Inhabited

namespace Spelling

/-- Whether a spelling has to end where the word ends. -/
def isWord (s : Spelling) : Bool := s.text.all Ascii.isAlpha

/-- Longer spellings come first, and those of one length in the order of their codes. -/
def before (a b : Spelling) : Bool :=
  b.text.length < a.text.length || (a.text.length == b.text.length && a.code ≤ b.code)

/-- What follows the spelling at the start of a text, letters being compared without their case. -/
def afterFolded? : Bytes → Bytes → Option Bytes
  | [], s => some s
  | _ :: _, [] => none
  | a :: as, b :: bs =>
    if Ascii.toLower a == Ascii.toLower b then afterFolded? as bs else none

/-- What follows the spelling at the start of a text, if a keyword may end there. -/
def keywordRest? (s : Spelling) (text : Bytes) : Option Bytes :=
  match afterFolded? s.text text with
  | some (c :: rest) => if s.isWord && Ascii.isWord c then none else some (c :: rest)
  | r => r

/-- What follows an escape sequence at the start of a text. -/
def escapeRest? (s : Spelling) (text : Bytes) : Option Bytes := Bytes.dropPrefix? s.text text

/-- A spelling that was found: its code, how many bytes it takes, and what follows it. -/
structure Found where
  code : UInt8
  size : Nat
  rest : Bytes
  deriving DecidableEq, Repr, Inhabited

/-- The first of the spellings that fits the start of a text. -/
def firstFound (rest? : Spelling → Bytes → Option Bytes) (text : Bytes) :
    List Spelling → Option Found
  | [] => none
  | s :: more =>
    match rest? s text with
    | some rest => some ⟨s.code, s.text.length, rest⟩
    | none => firstFound rest? text more

end Spelling

def Keyword.spellings (k : Keyword) : List Spelling :=
  ⟨k.primary, k.code⟩ :: (k.alternate.map (⟨·, k.code⟩)).toList

def Escape.spelling (e : Escape) : Spelling := ⟨e.sequence, e.code⟩

/-- The keywords and escapes of a dialect, and all their spellings, longest first. -/
structure Vocabulary where
  dialect : Dialect
  keywords : List Keyword
  escapes : List Escape
  keywordSpellings : List Spelling
  escapeSpellings : List Spelling
  deriving DecidableEq, Repr, Inhabited

namespace Vocabulary

/-- The spellings of the keywords that every dialect has, in the order of their codes. -/
def commonSpellings : List (String × Option String) :=
  [("rnd", none), ("inkey$", none), ("pi", none), ("fn", none), ("point", none),
    ("screen$", none), ("attr", none), ("at", none), ("tab", none), ("val$", none),
    ("code", none), ("val", none), ("len", none), ("sin", none), ("cos", none), ("tan", none),
    ("asn", none), ("acs", none), ("atn", none), ("ln", none), ("exp", none), ("int", none),
    ("sqr", none), ("sgn", none), ("abs", none), ("peek", none), ("in", none), ("usr", none),
    ("str$", none), ("chr$", none), ("not", none), ("bin", none), ("or", none), ("and", none),
    ("<=", none), (">=", none), ("<>", none), ("line", none), ("then", none), ("to", none),
    ("step", none), ("def fn", some "deffn"), ("cat", none), ("format", none), ("move", none),
    ("erase", none), ("open #", some "open#"), ("close #", some "close#"), ("merge", none),
    ("verify", none), ("beep", none), ("circle", none), ("ink", none), ("paper", none),
    ("flash", none), ("bright", none), ("inverse", none), ("over", none), ("out", none),
    ("lprint", none), ("llist", none), ("stop", none), ("read", none), ("data", none),
    ("restore", none), ("new", none), ("border", none), ("continue", none), ("dim", none),
    ("rem", none), ("for", none), ("go to", some "goto"), ("go sub", some "gosub"),
    ("input", none), ("load", none), ("list", none), ("let", none), ("pause", none),
    ("next", none), ("poke", none), ("print", none), ("plot", none), ("run", none),
    ("save", none), ("randomize", some "randomise"), ("if", none), ("cls", none),
    ("draw", none), ("clear", none), ("return", none), ("copy", none)]

def commonKeywords : List Keyword :=
  commonSpellings.zipIdx.map fun ((primary, alternate), i) =>
    { primary := utf8 primary, alternate := alternate.map utf8, code := Code.rnd + UInt8.ofNat i }

def extraKeywords : List Keyword :=
  [{ primary := "spectrum", code := 0xA3 }, { primary := "play", code := 0xA4 }]

/-- The block graphics, in the order of their codes. -/
def blockGraphics : List String :=
  ["  ", " '", "' ", "''", " .", " :", "'.", "':", ". ", ".'", ": ", ":'", "..", ".:", ":.", "::"]

/-- The escapes of the user defined graphics: letters, as many as the dialect has left for them. -/
def userGraphics (count : Nat) : List Escape :=
  (List.range count).map fun i => ⟨[0x61 + UInt8.ofNat i], 0x90 + UInt8.ofNat i⟩

def keywordsOf (dialect : Dialect) : List Keyword :=
  commonKeywords ++ if dialect == .k128 then extraKeywords else []

/-- The escapes of a dialect. The two more keywords of the larger machine take the codes of two
user defined graphics. -/
def escapesOf (dialect : Dialect) : List Escape :=
  (blockGraphics.zipIdx.map fun (s, i) => ⟨utf8 s, 0x80 + UInt8.ofNat i⟩) ++
    userGraphics (if dialect == .k128 then 19 else 21) ++
    [⟨"*", 0x7F⟩, ⟨"`", 0x60⟩, ⟨"\\", 0x5C⟩, ⟨"@", 0x40⟩]

def ofDialect (dialect : Dialect) : Vocabulary where
  dialect
  keywords := keywordsOf dialect
  escapes := escapesOf dialect
  keywordSpellings := ((keywordsOf dialect).flatMap Keyword.spellings).mergeSort Spelling.before
  escapeSpellings := ((escapesOf dialect).map Escape.spelling).mergeSort Spelling.before

/-- The keyword at the start of a text. -/
def findKeyword? (v : Vocabulary) (text : Bytes) : Option Spelling.Found :=
  Spelling.firstFound Spelling.keywordRest? text v.keywordSpellings

/-- The escape at the start of a text, the backslash being already taken. -/
def findEscape? (v : Vocabulary) (text : Bytes) : Option Spelling.Found :=
  Spelling.firstFound Spelling.escapeRest? text v.escapeSpellings

/-- The first spelling of the keyword with a code. -/
def name? (v : Vocabulary) (code : UInt8) : Option Bytes :=
  (v.keywords.find? (·.code == code)).map Keyword.primary

end Vocabulary

end SpectrumTape
