import SpectrumTape.Config.Value
import SpectrumTape.Text.Letter

/-!
# Reading configurations

A configuration is a list of fields, `name: value`. Fields are separated by commas; the end of a
line counts as one behind anything that can end a value. A comment goes from `//` to the end of the
line. The value of a field may be a field again, which then is the only one of a structure. Private
fields may be anywhere, and nothing else sees them.
-/

namespace SpectrumTape.Config

/-- The smallest parts of a configuration. -/
inductive Token where
  | name (s : Bytes)
  | text (s : Bytes)
  | number (v : Value)
  | mark (c : Nat)
  deriving Repr, Inhabited

def Token.comma : Token := .mark 0x2C

/-- Whether a line end behind a token counts as a comma. -/
def Token.endsValue : Token → Bool
  | .name _ | .text _ | .number _ => true
  | .mark c => c == 0x5D || c == 0x7D

def Token.isMark (c : Nat) : Token → Bool
  | .mark d => c == d
  | _ => false

def isNameStart (c : Nat) : Bool := c == 0x5F || c == 0x24 || Letter.isLetter c

def isDigit (c : Nat) : Bool := 0x30 ≤ c && c ≤ 0x39

def isNamePart (c : Nat) : Bool := isNameStart c || isDigit c

def encode (cs : List Nat) : Bytes := cs.flatMap fun n => (Rune.scalar n).encode

/-- The characters of a source, which has to be well formed and without NUL. -/
def characters? (source : Bytes) : Option (List Nat) :=
  source.runes.mapM fun
    | .scalar n => if n == 0 then none else some n
    | .stray _ => none

/-! ## Numbers -/

/-- The digits of a run without the underscores, each of which has to stand between two digits. -/
def digitsOf? (run : List Nat) : Option Bytes :=
  let bytes := encode run
  let digits := bytes.filter (· != 0x5F)
  let outside := bytes.head? == some 0x5F || bytes.getLast? == some 0x5F
  let doubled := (bytes.zip (bytes.drop 1)).any fun p => p.1 == 0x5F && p.2 == 0x5F
  if digits.isEmpty || outside || doubled then none else some digits

def basedNumber? (base : Nat) (run : List Nat) : Option Value := do
  let digits ← digitsOf? run
  if digits.all (Numeral.isDigitOf base) then
    some (.int (Bytes.valueOfDigits base digits))
  else none

/-- A whole decimal number, without a zero in front. -/
def wholeNumber? (run : List Nat) : Option Value := do
  let digits ← digitsOf? run
  if digits.head? == some 0x30 && 1 < digits.length then none
  else some (.int (Bytes.valueOfDigits 10 digits))

def optionalDigits? (run : List Nat) : Option Bytes :=
  if run.isEmpty then some [] else digitsOf? run

/-- The value of an exponent with its sign; without one it is zero. -/
def exponentValue? : Option (Bool × List Nat) → Option Int
  | none => some 0
  | some (negative, run) => do
    let digits ← digitsOf? run
    let n : Int := Bytes.valueOfDigits 10 digits
    return if negative then -n else n

/-- A decimal number with a fraction or an exponent. -/
def floatNumber? (whole fraction : List Nat) (exponent : Option (Bool × List Nat)) :
    Option Value := do
  let w ← optionalDigits? whole
  let f ← optionalDigits? fraction
  let e ← exponentValue? exponent
  if (w ++ f).isEmpty then none
  else some (.ofDecimal (Bytes.valueOfDigits 10 (w ++ f)) (e - (f.length : Nat)))

/-- Whether a character can be in a run of digits. -/
def isDigitPart (c : Nat) : Bool := isDigit c || c == 0x5F

/-- Reads the exponent of a number behind its mark, and gives what follows. -/
def exponentOf (cs : List Nat) : (Bool × List Nat) × List Nat :=
  let (negative, cs) :=
    match cs with
    | 0x2D :: rest => (true, rest)
    | 0x2B :: rest => (false, rest)
    | _ => (false, cs)
  ((negative, cs.takeWhile isDigitPart), cs.dropWhile isDigitPart)

def number? (cs : List Nat) : Option (Value × List Nat) := do
  let based (base : Nat) (rest : List Nat) : Option (Value × List Nat) := do
    let v ← basedNumber? base (rest.takeWhile isNamePart)
    return (v, rest.dropWhile isNamePart)
  let (v, rest) ←
    match cs with
    | 0x30 :: 0x78 :: rest | 0x30 :: 0x58 :: rest => based 16 rest
    | 0x30 :: 0x6F :: rest => based 8 rest
    | 0x30 :: 0x62 :: rest => based 2 rest
    | _ => do
      let whole := cs.takeWhile isDigitPart
      let rest := cs.dropWhile isDigitPart
      let (point, fraction, rest) :=
        match rest with
        | 0x2E :: rest' => (true, rest'.takeWhile isDigitPart, rest'.dropWhile isDigitPart)
        | _ => (false, [], rest)
      let (exponent, rest) :=
        match rest with
        | c :: rest' =>
          if c == 0x65 || c == 0x45 then
            let (e, after) := exponentOf rest'
            (some e, after)
          else (none, rest)
        | [] => (none, rest)
      let v ←
        if point || exponent.isSome then floatNumber? whole fraction exponent
        else wholeNumber? whole
      return (v, rest)
  match rest with
  | c :: _ => if isNamePart c then none else some (v, rest)
  | [] => some (v, rest)

/-! ## Texts -/

/-- The character that a letter stands for behind a backslash. -/
def escaped? : Nat → Option Nat
  | 0x61 => some 0x07
  | 0x62 => some 0x08
  | 0x66 => some 0x0C
  | 0x6E => some 0x0A
  | 0x72 => some 0x0D
  | 0x74 => some 0x09
  | 0x76 => some 0x0B
  | 0x2F => some 0x2F
  | 0x5C => some 0x5C
  | 0x22 => some 0x22
  | _ => none

/-- The character with a number of hexadecimal digits. -/
def numbered? (size : Nat) (cs : List Nat) : Option Nat :=
  let digits := encode (cs.take size)
  if digits.length == size && digits.all Ascii.isHexDigit then
    let n := Bytes.valueOfDigits 16 digits
    if n < 0xD800 || (0xE000 ≤ n && n ≤ 0x10FFFF) then some n else none
  else none

/-- Reads a text up to its closing quote, `skip` characters being already read, and gives what
follows. -/
def text? : Nat → List Nat → Option (List Nat × List Nat)
  | _, [] => none
  | skip + 1, _ :: rest => text? skip rest
  | 0, c :: rest =>
    if c == 0x22 then some ([], rest)
    else if c == 0x0A then none
    else if c == 0x5C then
      match rest with
      | [] => none
      | d :: more => do
        let (found, size) ←
          if d == 0x75 then (numbered? 4 more).map (·, 5)
          else if d == 0x55 then (numbered? 8 more).map (·, 9)
          else (escaped? d).map (·, 1)
        let (inside, after) ← text? size rest
        return (found :: inside, after)
    else do
      let (inside, after) ← text? 0 rest
      return (c :: inside, after)

/-! ## Tokens -/

def isMarkChar (c : Nat) : Bool :=
  c == 0x3A || c == 0x2C || c == 0x5B || c == 0x5D || c == 0x7B || c == 0x7D || c == 0x2D ||
    c == 0x2B

/-- The tokens of characters. `ended` says whether a line end counts as a comma here. -/
def tokens? : Nat → Bool → List Nat → Option (List Token)
  | 0, _, _ => none
  | _ + 1, ended, [] => some (if ended then [.comma] else [])
  | fuel + 1, ended, c :: rest =>
    if c == 0x0A then
      if ended then do return .comma :: (← tokens? fuel false rest) else tokens? fuel false rest
    else if c == 0x20 || c == 0x09 || c == 0x0D then tokens? fuel ended rest
    else if c == 0x2F then
      match rest with
      | 0x2F :: more => tokens? fuel ended (more.dropWhile (· != 0x0A))
      | _ => none
    else if c == 0x22 then do
      let (inside, after) ← text? 0 rest
      if inside.isEmpty && after.head? == some 0x22 then none
      else return .text (encode inside) :: (← tokens? fuel true after)
    else if isDigit c || (c == 0x2E && ((rest.head?).map isDigit).getD false) then do
      let (v, after) ← number? (c :: rest)
      return .number v :: (← tokens? fuel true after)
    else if isNameStart c then
      let name := c :: rest.takeWhile isNamePart
      do return .name (encode name) :: (← tokens? fuel true (rest.dropWhile isNamePart))
    else if isMarkChar c then do
      let t := Token.mark c
      return t :: (← tokens? fuel t.endsValue rest)
    else none

/-! ## Grammar -/

/-- The name of a field, if one comes next, and what follows its colon. A name with an underscore in
front is private unless it is quoted, and then there is none. -/
def label? : List Token → Option (Option Bytes × List Token)
  | .name s :: .mark 0x3A :: rest =>
    some (if s.head? == some 0x5F then none else some s, rest)
  | .text s :: .mark 0x3A :: rest => some (some s, rest)
  | _ => none

def wordValue? (s : Bytes) : Option Value :=
  if s == utf8 "true" then some (.bool true)
  else if s == utf8 "false" then some (.bool false)
  else if s == utf8 "null" then some .null
  else none

mutual

/-- Reads the value of a field, and gives what follows. -/
def fieldValue? : Nat → List Token → Option (Value × List Token)
  | 0, _ => none
  | fuel + 1, ts =>
    match label? ts with
    | some (name, rest) => do
      let (v, after) ← fieldValue? fuel rest
      return (.struct (name.map (·, v)).toList, after)
    | none => value? fuel ts

def value? : Nat → List Token → Option (Value × List Token)
  | 0, _ => none
  | fuel + 1, ts =>
    match ts with
    | .number v :: rest => some (v, rest)
    | .text s :: rest => some (.text s, rest)
    | .name s :: rest => (wordValue? s).map (·, rest)
    | .mark c :: rest =>
      if c == 0x2D then do
        let (v, after) ← value? fuel rest
        return (← v.negate?, after)
      else if c == 0x2B then do
        let (v, after) ← value? fuel rest
        if v.isNumber then some (v, after) else none
      else if c == 0x7B then do
        let (fs, after) ← fields? fuel (some 0x7D) [] rest
        return (.struct fs, after)
      else if c == 0x5B then do
        let (items, after) ← items? fuel rest
        return (.list items, after)
      else none
    | [] => none

/-- Reads the items of a list up to its bracket, and gives what follows. -/
def items? : Nat → List Token → Option (List Value × List Token)
  | 0, _ => none
  | fuel + 1, ts =>
    match ts with
    | .mark 0x5D :: rest => some ([], rest)
    | _ => do
      let (v, after) ← value? fuel ts
      match after with
      | .mark 0x5D :: rest => return ([v], rest)
      | .mark 0x2C :: rest =>
        let (vs, after) ← items? fuel rest
        return (v :: vs, after)
      | _ => none

/-- Reads fields behind those already read, up to the closing mark or the end, and gives what
follows. A structure that stands where a field could be gives its fields. -/
def fields? : Nat → Option Nat → List (Bytes × Value) → List Token →
    Option (List (Bytes × Value) × List Token)
  | 0, _, _, _ => none
  | fuel + 1, close, done, ts =>
    let closed (ts : List Token) : Option (List Token) :=
      match close, ts with
      | none, [] => some []
      | some c, t :: rest => if t.isMark c then some rest else none
      | _, _ => none
    match closed ts with
    | some rest => some (done, rest)
    | none => do
      let (v, after) ← fieldValue? fuel ts
      match v with
      | .struct fs =>
        let done ← Value.unifyFields done fs
        match closed after, after with
        | some rest, _ => return (done, rest)
        | none, .mark 0x2C :: rest => fields? fuel close done rest
        | none, _ => none
      | _ => none

end

/-- The fields of a configuration, if it is well formed. -/
def fieldsOf? (source : Bytes) : Option (List (Bytes × Value)) := do
  let cs ← characters? source
  let ts ← tokens? (cs.length + 2) false cs
  let (fs, _) ← fields? (4 * ts.length + 4) none [] ts
  return fs

end SpectrumTape.Config
