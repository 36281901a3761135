import SpectrumTape.Proofs.Basic.Inlining
import SpectrumTape.Proofs.Basic.LineReading
import SpectrumTape.Proofs.Basic.Listing

/-!
# Sizes of lines

In front of its body a line has the size of the body in two bytes, as far as they hold it
(`Line.sizeField_eq`). There is no limit to the size, so a line may say less than it has. The lines of
a program can be found in its bytes exactly if that happens to none of them (`parse_sizes`).
-/

namespace SpectrumTape.Basic

/-- The size that a line says it has, low byte first behind the two bytes of its number. -/
def Line.sizeField (l : Line) : Nat := (l.bytes.getD 2 0).toNat + 256 * (l.bytes.getD 3 0).toNat

theorem Line.sizeField_eq (l : Line) : l.sizeField = l.body.length % 65536 := by
  have hfield : l.sizeField =
      (UInt8.ofNat l.body.length).toNat + 256 * (UInt8.ofNat (l.body.length / 256)).toNat := rfl
  rw [hfield, UInt8.toNat_ofNat', UInt8.toNat_ofNat']
  omega

theorem Line.sizeField_eq_length_iff (l : Line) :
    l.sizeField = l.body.length ↔ l.body.length < 65536 := by
  rw [sizeField_eq]
  omega

/-! ### Finding the lines -/

namespace Listing

theorem length_body_of_split {l : Line} {rest body : Bytes} {number : Nat}
    {lines : List (Nat × Bytes)} {problem : Option Problem}
    (h : split (l.bytes ++ rest) = ((number, body) :: lines, problem)) :
    body.length = l.sizeField := by
  have hbytes : l.bytes ++ rest = UInt8.ofNat (l.number / 256) :: UInt8.ofNat l.number ::
      UInt8.ofNat l.body.length :: UInt8.ofNat (l.body.length / 256) :: (l.body ++ rest) := rfl
  rw [hbytes, split] at h
  dsimp only at h
  split_ifs at h with hshort
  · cases h
  · cases h
    have hfield : l.sizeField = (UInt8.ofNat l.body.length).toNat +
        256 * (UInt8.ofNat (l.body.length / 256)).toNat := rfl
    rw [List.length_take] at hshort ⊢
    omega

/-- **The lines of a program are found in its bytes exactly if all sizes are right.** -/
theorem split_bytes_iff {p : Program} (hnumber : ∀ l ∈ p, l.number < 65536) :
    split (Program.bytes p) = (p.map fun l => (l.number, l.body), none) ↔
      ∀ l ∈ p, l.body.length < 65536 := by
  refine ⟨fun h => ?_, fun h => split_bytes fun l hl => ⟨hnumber l hl, h l hl⟩⟩
  induction p with
  | nil => exact List.forall_mem_nil _
  | cons l p ih =>
    obtain ⟨hl, hnumber⟩ := List.forall_mem_cons.mp hnumber
    rw [Program.bytes, List.flatMap_cons] at h
    have hsize : l.body.length < 65536 := by
      rw [← l.sizeField_eq_length_iff]
      exact (length_body_of_split h).symm
    rw [split_line_append ⟨hl, hsize⟩] at h
    obtain ⟨hlines, hproblem⟩ := Prod.mk.inj h
    have hrest := ih hnumber (Prod.ext (List.cons.inj hlines).2 hproblem)
    exact List.forall_mem_cons.mpr ⟨hsize, hrest⟩

end Listing

/-! ### Lines of programs -/

/-- **Every line says its size modulo two bytes.** In the program of any source the size of a line is
that of its body, up to the byte that ends it, if and only if two bytes hold that; and the lines can be
told apart again if and only if this is so for all of them. -/
theorem parse_sizes (c : Compiler) (dialect : Dialect) (path source : Bytes) {p : Program}
    (h : (c.parse dialect path source).2.result = .ok p) :
    let after := (c.parse dialect path source).1
    after.program = p.flatMap Line.bytes ∧
    List.Forall₂
      (fun l line => l.Writes c.options c.constants after.symbols line ∧
        line.sizeField = line.body.length % 65536 ∧
        (line.sizeField = line.body.length ↔ line.body.length < 65536))
      (openedLines (.ofDialect dialect) source) p ∧
    (Listing.split after.program = (p.map fun line => (line.number, line.body), none) ↔
      ∀ line ∈ p, line.body.length < 65536) := by
  intro after
  have hprogram : after.program = Program.bytes p := Compiler.program_parse h
  refine ⟨hprogram, ?_, ?_⟩
  · exact forall₂_written h fun l line _ _ hwrites =>
      ⟨hwrites, line.sizeField_eq, line.sizeField_eq_length_iff⟩
  · obtain ⟨s, frames, -, -, -, -, rfl, -, hascending⟩ := compile_frames h
    rw [hprogram]
    refine Listing.split_bytes_iff fun line hline => ?_
    obtain ⟨f, hf, rfl⟩ := List.mem_map.mp hline
    exact Nat.lt_of_le_of_lt (hascending.le f hf) (by decide)

theorem parse_sizes_joinedSource :
    let parsed := countingCompiler.parse .k48 [] joinedSource
    parsed.2.result = .ok joinedProgram ∧ parsed.1.program = joinedProgram.flatMap Line.bytes ∧
      List.Forall₂
        (fun l line => l.Writes countingCompiler.options countingCompiler.constants
            parsed.1.symbols line ∧
          line.sizeField = line.body.length % 65536 ∧
          (line.sizeField = line.body.length ↔ line.body.length < 65536))
        (openedLines (.ofDialect .k48) joinedSource) joinedProgram ∧
      joinedProgram.map Line.sizeField = [13, 11, 5] ∧
      Listing.split parsed.1.program =
        (joinedProgram.map fun line => (line.number, line.body), none) := by
  intro parsed
  obtain ⟨hprogram, hlines, hsplit⟩ :=
    parse_sizes countingCompiler .k48 [] joinedSource parse_joinedSource
  exact ⟨parse_joinedSource, hprogram, hlines, by decide, hsplit.mpr (by decide)⟩

/-! ### A line that is too long -/

/-- A line whose remark is a run of digits. -/
def digitsSource (digits : Bytes) : Bytes := utf8 "10 REM" ++ 0x20 :: digits

section digits

variable {digits : Bytes} (hne : digits ≠ []) (hdigits : ∀ c ∈ digits, Ascii.isDigit c = true)

include hne hdigits

theorem step_remOfDigits :
    Lexer.step (.ofDialect .k48) (.statement false) (utf8 "REM" ++ 0x20 :: digits) =
      .read 4 [.keyword Code.rem] (.remark false) := by
  obtain ⟨d, rest, rfl⟩ := List.exists_cons_of_ne_nil hne
  have hd : Ascii.isDigit d = true := hdigits d List.mem_cons_self
  have hrem : (Vocabulary.ofDialect .k48).findKeyword? (utf8 "REM") = some ⟨Code.rem, 3, []⟩ := by
    rw [Vocabulary.ofDialect_eq]
    decide +kernel
  have hfound := Vocabulary.findKeyword?_append .k48 (Or.inr ⟨d, rest, rfl, hd⟩) (utf8 "REM")
  rw [hrem] at hfound
  have hblanks : (0x20 :: d :: rest).takeWhile Ascii.isSpace = [0x20] := by
    have hspace := Ascii.isSpace_of_isWord (Ascii.isWord_of_isDigit hd)
    rw [List.takeWhile_cons_of_pos rfl, List.takeWhile_cons_of_neg (by simp [hspace])]
  have hstep := Lexer.statementStep_of_rem hfound false
  rw [List.nil_append, hblanks] at hstep
  exact hstep

theorem step_digits_remark :
    Lexer.step (.ofDialect .k48) (.remark false) digits =
      .read digits.length [.plain digits] (.remark false) := by
  have hword : ∀ c ∈ digits, Ascii.isAlnum c = true := by
    intro c hc
    simp [Ascii.isAlnum, hdigits c hc]
  obtain ⟨d, rest, rfl⟩ := List.exists_cons_of_ne_nil hne
  rw [Lexer.step, Lexer.remarkStep_of_isAlnum (hword d List.mem_cons_self),
    List.takeWhile_eq_self_iff.mpr hword]

theorem lex_digitsSource :
    lex (.ofDialect .k48) (digitsSource digits) =
      [⟨1, 3, .lineNumber 10⟩, ⟨1, 8, .keyword Code.rem⟩, ⟨1, 8 + digits.length, .plain digits⟩,
        ⟨1, 8 + digits.length, .lineEnd⟩] := by
  have hplain : ∀ c ∈ digitsSource digits, Bytes.isBreak c = false := by
    refine List.forall_mem_append.mpr ⟨by decide +kernel, List.forall_mem_cons.mpr ⟨rfl, ?_⟩⟩
    exact fun c hc => Ascii.isBreak_of_isWord (Ascii.isWord_of_isDigit (hdigits c hc))
  have hsource : digitsSource digits =
      0x31 :: 0x30 :: 0x20 :: (utf8 "REM" ++ 0x20 :: digits) := rfl
  have hnumber : Lexer.step (.ofDialect .k48) (.statement true) (digitsSource digits) =
      .read 2 [.lineNumber 10] (.statement false) := by
    rw [hsource]
    rfl
  have hremark : (utf8 "REM" ++ 0x20 :: digits).drop 4 = digits := rfl
  have hend (column : Nat) : Lexer.lexFrom (.ofDialect .k48) (.remark false) 1 column [] [] =
      [⟨1, column, .lineEnd⟩] := by
    rw [Lexer.lexFrom]
    rfl
  rw [lex, Bytes.lines_plain hplain]
  dsimp only
  rw [Lexer.lexFrom_read hnumber (by decide) (List.cons_ne_nil _ _), hsource]
  simp only [List.drop_succ_cons, List.drop_zero]
  rw [Lexer.lexFrom_blank rfl,
    Lexer.lexFrom_read (step_remOfDigits hne hdigits) (by decide) (List.cons_ne_nil _ _), hremark,
    Lexer.lexFrom_read (step_digits_remark hne hdigits) (List.length_pos_iff.mpr hne) hne,
    List.drop_length, hend]
  rfl

theorem parse_digitsSource :
    (Compiler.parse {} .k48 [] (digitsSource digits)).2.result =
      .ok [⟨10, Code.rem :: (digits ++ [0x0D])⟩] := by
  have hcompile : (Compiler.parse {} .k48 [] (digitsSource digits)).2 =
      compileItems .standard {} [] (lex (.ofDialect .k48) (digitsSource digits)) := rfl
  have hbody : (Code.endOfLine :: (digits.reverse ++ [Code.rem])).reverse =
      Code.rem :: (digits ++ [0x0D]) := by
    rw [List.reverse_cons, List.reverse_append, List.reverse_reverse]
    rfl
  rw [hcompile, lex_digitsSource hne hdigits, ← hbody]
  rfl

end digits

/-- A body of as many bytes as two bytes can count, and one more: the line says that it has none. -/
theorem parse_sizes_longRemark :
    let digits := List.replicate 65534 0x30
    let line : Line := ⟨10, Code.rem :: (digits ++ [0x0D])⟩
    (Compiler.parse {} .k48 [] (digitsSource digits)).2.result = .ok [line] ∧
      line.body.length = 65536 ∧ line.sizeField = 0 := by
  intro digits line
  have hne : digits ≠ [] := by
    rw [← List.length_pos_iff, List.length_replicate]
    decide
  have hdigits : ∀ c ∈ digits, Ascii.isDigit c = true := by
    intro c hc
    rw [List.eq_of_mem_replicate hc]
    rfl
  have hlength : line.body.length = 65536 := by
    rw [List.length_cons, List.length_append, List.length_replicate]
    rfl
  refine ⟨parse_digitsSource hne hdigits, hlength, ?_⟩
  rw [line.sizeField_eq, hlength]

end SpectrumTape.Basic
