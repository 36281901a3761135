import SpectrumTape.Text.Rune

/-!
# The nearest word

A suggestion for a word that is not known: the known word that differs from it in the fewest
letters, if at most about half of them differ. Underscores and the case of letters do not count.
-/

namespace SpectrumTape.Nearest

/-- A further row of distances: `above` holds those from an initial part of one word to all initial
parts of the other, `left` is the distance that the new row has so far. -/
def row (c : UInt8) : Bytes → List Nat → Nat → List Nat
  | d :: ds, diagonal :: up :: more, left =>
    let best := min (min (up + 1) (left + 1)) (if c == d then diagonal else diagonal + 1)
    best :: row c ds (up :: more) best
  | _, _, _ => []

/-- The rows of distances for the letters of a word, from a first row on; gives the last one. -/
def rows (word : Bytes) : Nat → Bytes → List Nat → List Nat
  | _, [], above => above
  | n, c :: rest, above => rows word (n + 1) rest ((n + 1) :: row c word above (n + 1))

/-- How many letters have to be put in, taken out or replaced to make one word the other. -/
def distance (a b : Bytes) : Nat :=
  ((rows b 0 a (List.range (b.length + 1))).getLast?).getD 0

/-- A word without underscores and in small letters. -/
def fold (word : Bytes) : Bytes := word.toLowerWord.filter (· != 0x5F)

/-- Chooses the nearest of words, given the best one so far and a bound on its distance. -/
def choose (target : Bytes) : Option Bytes → Nat → List Bytes → Option Bytes
  | best, _, [] => best
  | best, bound, w :: rest =>
    let d := distance target (fold w)
    if d < bound then choose target (some w) d rest else choose target best bound rest

/-- The word nearest to another, if one is near enough. Of equally near ones the first is taken. -/
def find? (word : Bytes) (known : List Bytes) : Option Bytes :=
  let target := fold word
  choose target none ((target.length + 1) / 2) known

def hint (word : Bytes) (known : List Bytes) : Bytes :=
  match find? word known with
  | some w => " (did you mean " ++ w ++ "?)"
  | none => []

end SpectrumTape.Nearest
