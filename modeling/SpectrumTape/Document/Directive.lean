import SpectrumTape.Number.Numeral
import SpectrumTape.Document.Cause

/-!
# Directives

Each line of a text document holds at most one directive:

* `basic "path" [name]` adds a program,
* `code "path" address [name]` adds a block of memory.

A comment starts with `#`. The directive of a line takes effect before the rest of the line is
looked at, so a line says both what it directs and what is wrong behind that.
-/

namespace SpectrumTape.Document

/-- What a line directs. The empty name stands for one made from the path. -/
inductive Directive where
  | basic (path name : Bytes)
  | code (path : Bytes) (address : Nat) (name : Bytes)
  deriving DecidableEq, Repr, Inhabited

/-- A line of a document. Columns are counted from one. -/
inductive DocLine where
  /-- Nothing but blanks and a comment. -/
  | blank
  /-- A directive whose word is at a column, and the column of text that should not be there. -/
  | directive (column : Nat) (d : Directive) (trailing : Option Nat)
  | fault (column : Nat) (cause : Cause)
  deriving DecidableEq, Repr, Inhabited

/-- The rest of a line and the column where it begins. -/
structure Rest where
  column : Nat
  text : Bytes
  deriving DecidableEq, Repr, Inhabited

namespace Rest

def drop (r : Rest) (n : Nat) : Rest := ⟨r.column + n, r.text.drop n⟩

/-- The longest initial part of which all bytes satisfy `p`, and what follows it. -/
def takeWhile (p : UInt8 → Bool) (r : Rest) : Bytes × Rest :=
  let word := r.text.takeWhile p
  (word, r.drop word.length)

def skipBlanks (r : Rest) : Rest := (r.takeWhile Ascii.isSpace).2

/-- Whether only a comment is left. -/
def isDone (r : Rest) : Bool := r.text.isEmpty || r.text.head? == some 0x23

/-- A cause of failure at a column. -/
structure Fault where
  column : Nat
  cause : Cause
  deriving DecidableEq, Repr, Inhabited

def readString (r : Rest) : Except Fault (Bytes × Rest) :=
  let r := r.skipBlanks
  match r.text with
  | [] => .error ⟨r.column, .stringExpected⟩
  | c :: _ =>
    let inside := r.drop 1
    if c == Ascii.quote then
      let (content, after) := inside.takeWhile (· != Ascii.quote)
      if after.text.isEmpty then .error ⟨after.column, .stringEndExpected⟩
      else .ok (content, after.drop 1)
    else .error ⟨inside.column, .stringExpected⟩

def readName (r : Rest) : Except Fault (Bytes × Rest) :=
  let r := r.skipBlanks
  if r.text.head? == some Ascii.quote then r.readString else .ok (r.takeWhile Ascii.isWord)

def addressOf (base : Nat) (missing : Cause) (digits : Bytes) (after : Rest) :
    Except Fault (Nat × Rest) :=
  if digits.isEmpty then .error ⟨after.column, missing⟩
  else
    match Numeral.readUnsigned base 16 digits with
    | .ok n => .ok (n, after)
    | .error _ => .error ⟨after.column, .addressOutOfRange digits⟩

/-- Reads an address, in decimal or after `0x` in hexadecimal. -/
def readAddress (r : Rest) : Except Fault (Nat × Rest) :=
  let r := r.skipBlanks
  let mark := (r.text.drop 1).head?.getD 0
  if r.text.head? == some 0x30 && Ascii.toLower mark == 0x78 then
    let (digits, after) := (r.drop 2).takeWhile Ascii.isHexDigit
    addressOf 16 .hexadecimalExpected digits after
  else
    let (digits, after) := r.takeWhile Ascii.isDigit
    addressOf 10 .decimalExpected digits after

def readBasic (r : Rest) : Except Fault (Directive × Rest) := do
  let (path, r) ← r.readString
  let (name, r) ← r.readName
  return (.basic path name, r)

def readCode (r : Rest) : Except Fault (Directive × Rest) := do
  let (path, r) ← r.readString
  let (address, r) ← r.readAddress
  let (name, r) ← r.readName
  return (.code path address name, r)

/-- A directive that was read, or why it was not. -/
def finish (column : Nat) : Except Fault (Directive × Rest) → DocLine
  | .ok (d, r) =>
    let r := r.skipBlanks
    .directive column d (if r.isDone then none else some r.column)
  | .error f => .fault f.column f.cause

end Rest

def DocLine.parse (line : Bytes) : DocLine :=
  let r := Rest.skipBlanks ⟨1, line⟩
  if r.isDone then .blank
  else
    let (word, after) := r.takeWhile Ascii.isAlpha
    let command := word.map Ascii.toLower
    if command == utf8 "basic" then Rest.finish r.column after.readBasic
    else if command == utf8 "code" then Rest.finish r.column after.readCode
    else if command.isEmpty then .fault r.column .unexpectedCharacter
    else .fault r.column (.unknownCommand command)

end SpectrumTape.Document
