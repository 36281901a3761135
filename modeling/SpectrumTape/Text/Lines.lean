import SpectrumTape.Text.Bytes

/-!
# Lines of a text

A line ends at a line feed, a carriage return, or the pair of them. A terminator at the very end
of the text opens no further line, and the empty text has one empty line.
-/

namespace SpectrumTape.Bytes

def isBreak (c : UInt8) : Bool := c == Ascii.lf || c == Ascii.cr

/-- The lines of `text`, the bytes of the line under way being `done` in reverse. -/
def linesFrom : Bytes → Bytes → List Bytes
  | done, [] => [done.reverse]
  | done, c :: rest =>
    if c == Ascii.cr then
      match rest with
      | [] => [done.reverse]
      | d :: rest' =>
        if d == Ascii.lf then
          if rest'.isEmpty then [done.reverse] else done.reverse :: linesFrom [] rest'
        else done.reverse :: linesFrom [] (d :: rest')
    else if c == Ascii.lf then
      if rest.isEmpty then [done.reverse] else done.reverse :: linesFrom [] rest
    else linesFrom (c :: done) rest

/-- The lines of a text, without their terminators. -/
def lines (text : Bytes) : List Bytes := linesFrom [] text

end SpectrumTape.Bytes
