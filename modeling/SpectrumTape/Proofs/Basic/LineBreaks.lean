import SpectrumTape.Proofs.Basic.Frame
import SpectrumTape.Proofs.Basic.SourceWalk
import SpectrumTape.Proofs.Text.Lines

/-!
# Breaks between the lines of a source

A source may end its lines with a line feed, a carriage return, or both. The positions of a walk over
it are then others, but not the lines it comes through, so neither compiler nor cursor can tell which
break it is (`parse_withBreaks`).
-/

namespace SpectrumTape.Basic

theorem lex_withBreaks (v : Vocabulary) {brk source : Bytes} (hbrk : brk ∈ Bytes.breaks)
    (hsource : Ascii.cr ∉ source) : lex v (source.withBreaks brk) = lex v source := by
  unfold lex
  rw [Bytes.lines_withBreaks hbrk hsource]

def Reader.start {σ : Type} (source : Bytes) (pass : σ) : Reader σ :=
  { cursor := (Cursor.ofBytes source).setStop true, pass }

theorem walk_congr {σ : Type} {dialect : Dialect} (pass : Pass σ) (s : σ) {source source' : Bytes}
    (hlex : lex (.ofDialect dialect) source' = lex (.ofDialect dialect) source) :
    ∃ r r' fault, walk (.ofDialect dialect) pass (.start source s) = .ok (r, fault) ∧
      walk (.ofDialect dialect) pass (.start source' s) = .ok (r', fault) ∧ r'.pass = r.pass := by
  have hwords : ∀ {text : Bytes} {found : Spelling.Found},
      (Vocabulary.ofDialect dialect).findKeyword? text = some found → 0 < found.size :=
    Vocabulary.findKeyword?_pos
  have hwalk (text : Bytes) : ∃ r fault,
      walk (.ofDialect dialect) pass (.start text s) = .ok (r, fault) ∧
      runSteps pass.step s (lex (.ofDialect dialect) text) = (r.pass, fault) := by
    have hrange : (Reader.start text s).InRange text := List.forall_mem_nil _
    obtain ⟨r, fault, hwalk, hrun, -, -⟩ := walk_eq hwords pass rfl rfl hrange
    exact ⟨r, fault, hwalk, hrun⟩
  obtain ⟨r, fault, hfirst, hrun⟩ := hwalk source
  obtain ⟨r', fault', hsecond, hrun'⟩ := hwalk source'
  rw [hlex, hrun] at hrun'
  obtain ⟨hpass, rfl⟩ := Prod.mk.inj hrun'
  exact ⟨r, r', fault, hfirst, hsecond, hpass.symm⟩

/-- **A source compiles alike with all breaks**: whether each line feed of it stands alone, has a
carriage return before it or is one, what is reported and where, the program and the symbols are the
same. The same goes for every pass that walks over the source with a cursor. -/
theorem parse_withBreaks (c : Compiler) (dialect : Dialect) (path : Bytes) {source : Bytes}
    (hsource : Ascii.cr ∉ source) :
    ∀ brk ∈ [[Ascii.cr, Ascii.lf], [Ascii.cr]],
      c.parse dialect path (source.withBreaks brk) = c.parse dialect path source ∧
      ∀ {σ : Type} (pass : Pass σ) (s : σ), ∃ r r' fault,
        walk (.ofDialect dialect) pass (.start source s) = .ok (r, fault) ∧
        walk (.ofDialect dialect) pass (.start (source.withBreaks brk) s) = .ok (r', fault) ∧
        r'.pass = r.pass := by
  intro brk hbrk
  have hbreak : brk ∈ Bytes.breaks := by
    simp only [Bytes.breaks, List.mem_cons, List.not_mem_nil, or_false] at hbrk ⊢
    tauto
  have hlex := lex_withBreaks (.ofDialect dialect) hbreak hsource
  constructor
  · unfold Compiler.parse compile
    rw [hlex]
  · intro σ pass s
    exact walk_congr pass s hlex

/-- A source with an empty line, a joined line, text behind a line escape and a fault. -/
def brokenSource : Bytes := "@loop: PRINT \"a\" \\\n ; 1\n\n200 GO TO \\ junk\n @loop\n150 STOP"

theorem parse_withBreaks_brokenSource :
    Ascii.cr ∉ brokenSource ∧
      (brokenSource.withBreaks [Ascii.cr, Ascii.lf]).length = brokenSource.length + 5 ∧
      (countingCompiler.parse .k48 [] (brokenSource.withBreaks [Ascii.cr, Ascii.lf])).2.diagnostics =
        [⟨.warning, ⟨[], 4, 11⟩, Survey.ignoredText⟩,
          ⟨.error, ⟨[], 6, 4⟩, Cause.message .lesserLineNumber⟩] ∧
      countingCompiler.parse .k48 [] (brokenSource.withBreaks [Ascii.cr]) =
        countingCompiler.parse .k48 [] brokenSource := by
  have hsource : Ascii.cr ∉ brokenSource := by decide +kernel
  have hbreaks := parse_withBreaks countingCompiler .k48 [] hsource
  have hboth := (hbreaks [Ascii.cr, Ascii.lf] (by simp)).1
  have hreturn := (hbreaks [Ascii.cr] (by simp)).1
  refine ⟨hsource, by decide +kernel, ?_, hreturn⟩
  rw [hboth]
  unfold Compiler.parse compile
  rw [Vocabulary.ofDialect_eq]
  decide +kernel

end SpectrumTape.Basic
