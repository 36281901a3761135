import SpectrumTape.Basic.Program

/-!
# Listings

A listing shows the bytes of a program as text, one line of text for each program line. It is made
for reading: the five byte forms of numbers are left out, and codes without a name are written by
their number.
-/

namespace SpectrumTape.Basic.Listing

/-- Why the bytes are no program. -/
inductive Problem where
  | shortHeader
  | shortBody (number size : Nat)
  deriving DecidableEq, Repr, Inhabited

def Problem.message : Problem → Bytes
  | .shortHeader => "truncated line header"
  | .shortBody number size =>
    "line " ++ Bytes.decimal number ++ ": length " ++ Bytes.decimal size ++ " exceeds program"

def codeText (v : Vocabulary) (code : UInt8) : Bytes :=
  if code == Code.endOfLine then []
  else if 0x20 ≤ code && code < 0x7F then [code]
  else
    match v.name? code with
    | some name => " " ++ name.map Ascii.toUpper ++ " "
    | none => "\\x" ++ Bytes.hexUpper 2 code.toNat

/-- The text of a body of which the next `skip` bytes belong to a number. -/
def bodyText (v : Vocabulary) : Nat → Bytes → List Bytes
  | _, [] => []
  | skip + 1, _ :: rest => bodyText v skip rest
  | 0, code :: rest =>
    if code == Code.number then bodyText v 5 rest else codeText v code :: bodyText v 0 rest

def lineText (v : Vocabulary) (number : Nat) (body : Bytes) : Bytes :=
  Bytes.decimal number ++ (bodyText v 0 body).flatten ++ "\n"

/-- A listing as far as the bytes go, and the problem that ended it. -/
structure Listed where
  text : Bytes
  problem : Option Problem := none
  deriving DecidableEq, Repr, Inhabited

/-- The lines at the start of a program, and what ended them. -/
def split : Bytes → List (Nat × Bytes) × Option Problem
  | [] => ([], none)
  | a :: b :: c :: d :: rest =>
    let number := a.toNat * 256 + b.toNat
    let size := c.toNat + d.toNat * 256
    let body := rest.take size
    if body.length < size then ([], some (.shortBody number size))
    else
      let (lines, problem) := split (rest.drop size)
      ((number, body) :: lines, problem)
  | _ => ([], some .shortHeader)
termination_by s => s.length
decreasing_by simp only [List.length_drop, List.length_cons]; omega

def list (v : Vocabulary) (program : Bytes) : Listed :=
  let (lines, problem) := split program
  { text := lines.flatMap fun (number, body) => lineText v number body, problem }

end SpectrumTape.Basic.Listing
