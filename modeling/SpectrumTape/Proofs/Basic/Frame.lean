import SpectrumTape.Basic.Compiler
import SpectrumTape.Proofs.Vocabulary
import SpectrumTape.Proofs.Basic.Emission

/-!
# The frames of a program

On tape a program is a row of frames, one for each logical line of the source that has an opening,
in the order of the source (`parse_framed`). A frame has a number of its own or is a step above the
frame before it, and holds the bytes of the tokens of its line.

The emission is followed from one end of a line to the next (`logicalFrom_cases`). At these places
every line of the program is complete, so what a run writes is put together from what the tokens of
single logical lines write.
-/

namespace SpectrumTape.Basic

/-! ### Frames -/

/-- A line of a program without the byte that ends it. -/
structure Frame where
  number : Nat
  tokens : Bytes
  deriving DecidableEq, Repr

def Frame.line (f : Frame) : Line := ⟨f.number, f.tokens ++ [Code.endOfLine]⟩

/-- The bytes of a frame: the number, high byte first, the size of all that follows, low byte first
and as far as two bytes hold it, the bytes of the tokens, and one that ends the line. -/
def Frame.Encodes (f : Frame) (bytes : Bytes) : Prop :=
  ∃ high low sizeLow sizeHigh : UInt8,
    bytes = high :: low :: sizeLow :: sizeHigh :: (f.tokens ++ [0x0D]) ∧
      256 * high.toNat + low.toNat = f.number ∧
      sizeLow.toNat + 256 * sizeHigh.toNat = (f.tokens ++ [0x0D]).length % 65536

theorem Frame.encodes_bytes_line {f : Frame} (hf : f.number ≤ 9999) : f.Encodes f.line.bytes := by
  refine ⟨_, _, _, _, rfl, ?_, ?_⟩
  · simp only [line, UInt8.toNat_ofNat']
    omega
  · simp only [line, Code.endOfLine, UInt8.toNat_ofNat']
    omega

theorem encodes_lines {frames : List Frame} (hframes : ∀ f ∈ frames, f.number ≤ 9999) :
    List.Forall₂ Frame.Encodes frames (frames.map fun f => f.line.bytes) := by
  rw [List.forall₂_map_right_iff, List.forall₂_same]
  exact fun f hf => Frame.encodes_bytes_line (hframes f hf)

/-- The frames of logical lines behind a line with the number `previous`, if there is one: a logical
line without an opening has none, and every other one has the frame that its opening and its tokens
ask for. -/
inductive Framed (o : Options) (constants symbols : Symbols) :
    Option Nat → List LogicalLine → List Frame → Prop where
  | nil {previous : Option Nat} : Framed o constants symbols previous [] []
  | silent {previous : Option Nat} {l : LogicalLine} {ls : List LogicalLine} {frames : List Frame}
      (hopening : l.opening = none) (hrest : Framed o constants symbols previous ls frames) :
      Framed o constants symbols previous (l :: ls) frames
  | frame {previous : Option Nat} {l : LogicalLine} {ls : List LogicalLine} {f : Frame}
      {frames : List Frame} {op : Opening} (hopening : l.opening = some op)
      (hnumber : f.number = op.numberBehind o previous)
      (htokens : tokensBytes o constants symbols l.tokens = .ok f.tokens)
      (hrest : Framed o constants symbols (some f.number) ls frames) :
      Framed o constants symbols previous (l :: ls) (f :: frames)

/-- The numbers of frames ascend from above `last` to the greatest one allowed. -/
structure Ascending (last : Nat) (frames : List Frame) : Prop where
  above : ∀ f ∈ frames, last < f.number
  le : ∀ f ∈ frames, f.number ≤ 9999
  pairwise : frames.Pairwise fun f g => f.number < g.number

theorem ascending_nil (last : Nat) : Ascending last [] := ⟨by simp, by simp, .nil⟩

theorem Ascending.cons {last : Nat} {f : Frame} {frames : List Frame} (hlast : last < f.number)
    (hle : f.number ≤ 9999) (h : Ascending f.number frames) : Ascending last (f :: frames) where
  above := List.forall_mem_cons.mpr ⟨hlast, fun g hg => hlast.trans (h.above g hg)⟩
  le := List.forall_mem_cons.mpr ⟨hle, h.le⟩
  pairwise := List.pairwise_cons.mpr ⟨h.above, h.pairwise⟩

/-! ### From one end of a line to the next -/

theorem logicalFrom_cases (lines : List Bytes) (taken : Nat) (tokens : List Token)
    (items : List Item) :
    (logicalFrom lines taken tokens items = [] ∧ ∀ i ∈ items, i.token ≠ .lineEnd) ∨
      ∃ before i rest, items = before ++ i :: rest ∧ i.token = .lineEnd ∧
        logicalFrom lines taken tokens items =
          ⟨lines.take (i.line - taken), tokens ++ before.map Item.token⟩ ::
            logicalFrom (lines.drop (i.line - taken)) i.line [] rest := by
  induction items generalizing tokens with
  | nil => exact Or.inl ⟨rfl, by simp⟩
  | cons i items ih =>
    by_cases hi : i.token = .lineEnd
    · exact Or.inr ⟨[], i, items, rfl, hi, by rw [logicalFrom, if_pos hi]; simp⟩
    · rw [logicalFrom, if_neg hi]
      rcases ih (tokens ++ [i.token]) with ⟨hnil, hitems⟩ | ⟨before, j, rest, rfl, hj, hcons⟩
      · exact Or.inl ⟨hnil, List.forall_mem_cons.mpr ⟨hi, hitems⟩⟩
      · exact Or.inr ⟨i :: before, j, rest, rfl, hj, by rw [hcons]; simp⟩

namespace Emission

variable {o : Options} {constants symbols : Symbols} {path : Bytes} {e e' : Emission}

theorem behind_lines {t : Token} (ht : t ≠ .lineEnd) (numbering : Numbering) (bytes : Bytes) :
    (e.behind numbering bytes t).lines = e.lines := by
  cases t with
  | lineEnd => exact absurd rfl ht
  | _ => rfl

theorem run_lines {items : List Item} (hitems : ∀ i ∈ items, i.token ≠ .lineEnd)
    (hrun : runSteps (step o constants symbols path) e items = (e', none)) :
    e'.lines = e.lines := by
  induction items generalizing e with
  | nil =>
    cases hrun
    rfl
  | cons i items ih =>
    obtain ⟨hi, hitems⟩ := List.forall_mem_cons.mp hitems
    obtain ⟨e₁, hstep, hrun⟩ := runSteps_cons_eq_none_iff.mp hrun
    obtain ⟨numbering, bytes, -, -, rfl⟩ := step_eq_ok_iff.mp hstep
    exact (ih hitems hrun).trans (behind_lines hi numbering bytes)

theorem run_ne_fault {items : List Item}
    (hrun : runSteps (step o constants symbols path) e items = (e', none)) :
    ∀ i ∈ items, ∀ cause, i.token ≠ .fault cause := by
  induction items generalizing e with
  | nil => simp
  | cons i items ih =>
    obtain ⟨e₁, hstep, hrun⟩ := runSteps_cons_eq_none_iff.mp hrun
    refine List.forall_mem_cons.mpr ⟨fun cause hi => ?_, ih hrun⟩
    obtain ⟨numbering, bytes, -, hbytes, -⟩ := step_eq_ok_iff.mp hstep
    rw [hi] at hbytes
    cases hbytes

/-- What a run writes behind complete lines. -/
theorem run_framed {items : List Item} {lines : List Bytes} {taken : Nat} (he : e.Between o)
    (hshaped : ∀ l ∈ logicalFrom lines taken [] items, Shaped l.opening l.tokens)
    (hrun : runSteps (step o constants symbols path) e items = (e', none)) :
    ∃ frames : List Frame, e'.lines.reverse = e.lines.reverse ++ frames.map Frame.line ∧
      Framed o constants symbols e.numbering.previous (logicalFrom lines taken [] items) frames ∧
      Ascending e.numbering.last frames := by
  -- Induction over the logical lines, each of which takes the items up to the next end of a line.
  generalize hls : logicalFrom lines taken [] items = ls at hshaped ⊢
  induction ls generalizing items lines taken e with
  | nil =>
    rcases logicalFrom_cases lines taken [] items with ⟨-, hitems⟩ | ⟨_, _, _, _, _, hcons⟩
    · exact ⟨[], by simp [run_lines hitems hrun], .nil, ascending_nil _⟩
    · simp [hls] at hcons
  | cons l ls ih =>
    rcases logicalFrom_cases lines taken [] items with ⟨hnil, -⟩ | ⟨before, i, rest, rfl, hi, hcons⟩
    · simp [hls] at hnil
    rw [hls, List.nil_append] at hcons
    obtain ⟨rfl, rfl⟩ := List.cons_eq_cons.mp hcons
    obtain ⟨hline, hshaped⟩ := List.forall_mem_cons.mp hshaped
    rw [← List.singleton_append, ← List.append_assoc] at hrun
    obtain ⟨e₁, hfirst, hrest⟩ := runSteps_append_eq_none_iff.mp hrun
    generalize hop : LogicalLine.opening _ = op at hline
    cases op with
    | none =>
      obtain ⟨he₁, hlines, hlast⟩ := run_silent he hline hi hfirst
      have hprevious : e₁.numbering.previous = e.numbering.previous := by
        rw [Numbering.previous, Numbering.previous, hlast]
      obtain ⟨frames, hwritten, hframed, hascending⟩ := ih he₁ hrest rfl hshaped
      rw [hlines] at hwritten
      rw [hprevious] at hframed
      rw [hlast] at hascending
      exact ⟨frames, hwritten, .silent hop hframed, hascending⟩
    | some op =>
      obtain ⟨⟨hpos, hle, hlast⟩, bytes, hbytes, rfl⟩ := run_opened he hline hi hfirst
      have he₁ : Between o ⟨{ last := op.numberBehind o e.numbering.previous },
          ⟨op.numberBehind o e.numbering.previous, bytes ++ [Code.endOfLine]⟩ :: e.lines, none⟩ :=
        ⟨rfl, Numbering.regular_start o _⟩
      obtain ⟨frames, hwritten, hframed, hascending⟩ := ih he₁ hrest rfl hshaped
      refine ⟨⟨op.numberBehind o e.numbering.previous, bytes⟩ :: frames, ?_, ?_, ?_⟩
      · rw [hwritten]
        simp [Frame.line]
      · refine .frame hop rfl hbytes ?_
        rwa [Numbering.previous, if_neg (Nat.one_le_iff_ne_zero.mp hpos)] at hframed
      · exact hascending.cons hlast hle

end Emission

/-! ### Programs -/

theorem Program.bytes_ne_nil {p : Program} (hp : p ≠ []) : Program.bytes p ≠ [] := by
  cases p with
  | nil => exact absurd rfl hp
  | cons l p => simp [bytes, Line.bytes, Line.header]

/-- How the second pass ends: at a fault, with a program that has no lines, or with one that has
some. A program that has lines also has bytes. -/
inductive Emitted (path : Bytes) (warnings : List Diagnostic) (symbols : Symbols) :
    Emission × Option (Fault Cause) → Compiled → Prop where
  | stopped (e : Emission) (f : Fault Cause) :
      Emitted path warnings symbols (e, some f) (.failed warnings symbols { first := f })
  | empty (e : Emission) :
      Emitted path warnings symbols (e, none)
        (.failed warnings symbols { first := fileFault path .emptyProgram })
  | written (e : Emission) (hprogram : e.program ≠ []) :
      Emitted path warnings symbols (e, none)
        { diagnostics := warnings, symbols, result := .ok e.program }

theorem emitted_emit (o : Options) (constants : Symbols) (path : Bytes) (items : List Item)
    (warnings : List Diagnostic) (symbols : Symbols) :
    Emitted path warnings symbols (Emission.run o constants symbols path items)
      (emit o constants path items warnings symbols) := by
  unfold emit
  rcases Emission.run o constants symbols path items with ⟨e, _ | f⟩
  · by_cases hprogram : e.program = []
    · simp only [hprogram, List.isEmpty_nil, if_true]
      exact .empty e
    · have hempty : e.program.isEmpty = false := by simpa using hprogram
      have hbytes : (Program.bytes e.program).isEmpty = false := by
        simpa using Program.bytes_ne_nil hprogram
      simp only [hempty, hbytes, Bool.false_eq_true, if_false]
      exact .written e hprogram
  · exact .stopped e f

theorem emit_eq_ok {o : Options} {constants symbols : Symbols} {path : Bytes} {items : List Item}
    {warnings : List Diagnostic} {p : Program}
    (h : (emit o constants path items warnings symbols).result = .ok p) :
    (emit o constants path items warnings symbols).symbols = symbols ∧ p ≠ [] ∧
      ∃ e, Emission.run o constants symbols path items = (e, none) ∧ e.program = p := by
  have hemitted := emitted_emit o constants path items warnings symbols
  generalize emit o constants path items warnings symbols = compiled at h hemitted ⊢
  generalize Emission.run o constants symbols path items = outcome at hemitted ⊢
  cases hemitted with
  | stopped e f => cases h
  | empty e => cases h
  | written e hprogram =>
    cases h
    exact ⟨rfl, hprogram, e, rfl, rfl⟩

theorem compileItems_eq_ok {o : Options} {constants : Symbols} {path : Bytes} {items : List Item}
    {p : Program} (h : (compileItems o constants path items).result = .ok p) :
    p ≠ [] ∧ ∃ e, Emission.run o constants (compileItems o constants path items).symbols path items =
      (e, none) ∧ e.program = p := by
  unfold compileItems at h ⊢
  rcases hrun : Survey.run o constants path items with ⟨s, _ | fault⟩
  · simp only [hrun] at h ⊢
    split at h
    · cases h
    · obtain ⟨hsymbols, hp, hemission⟩ := emit_eq_ok h
      rw [hsymbols]
      exact ⟨hp, hemission⟩
  · simp only [hrun] at h
    cases h

theorem compile_eq_ok {o : Options} {dialect : Dialect} {constants : Symbols} {path source : Bytes}
    {p : Program} (h : (compile o dialect constants path source).result = .ok p) :
    p ≠ [] ∧ ∃ e, Emission.run o constants (compile o dialect constants path source).symbols path
      (lex (Vocabulary.ofDialect dialect) source) = (e, none) ∧ e.program = p := by
  unfold compile at h ⊢
  split at h
  · cases h
  · exact compileItems_eq_ok h

theorem Compiler.program_parse {c : Compiler} {dialect : Dialect} {path source : Bytes}
    {p : Program} (h : (c.parse dialect path source).2.result = .ok p) :
    (c.parse dialect path source).1.program = Program.bytes p := by
  have hcompile : (compile c.options dialect c.constants path source).result = .ok p := h
  simp only [Compiler.parse, hcompile]

/-- **A compiled program is a row of frames**, one for each logical line that opens with a number or
a statement. The logical lines take up the source, a line being joined to the next one only by a line
escape. -/
theorem parse_framed (c : Compiler) (dialect : Dialect) (path source : Bytes) {p : Program}
    (h : (c.parse dialect path source).2.result = .ok p) :
    let after := (c.parse dialect path source).1
    let ls := logicalLines (Vocabulary.ofDialect dialect) source
    (ls.flatMap LogicalLine.text = source.lines ∧
      ∀ l ∈ ls, ∀ line ∈ l.text.dropLast, Ascii.backslash ∈ line) ∧
    ∃ (frames : List Frame) (parts : List Bytes), frames ≠ [] ∧
      after.program = parts.flatten ∧ List.Forall₂ Frame.Encodes frames parts ∧
      (∀ f ∈ frames, 1 ≤ f.number ∧ f.number ≤ 9999) ∧
      (frames.Pairwise fun f g => f.number < g.number) ∧
      Framed c.options c.constants after.symbols none ls frames := by
  have hcompile : (compile c.options dialect c.constants path source).result = .ok p := h
  have hprogram : (c.parse dialect path source).1.program = Program.bytes p := by
    simp only [Compiler.parse, hcompile]
  have hgrouped := grouped_logicalLines (Vocabulary.ofDialect dialect) source
  obtain ⟨hp, e, hrun, rfl⟩ := compile_eq_ok hcompile
  obtain ⟨frames, hwritten, hframed, hascending⟩ :=
    Emission.run_framed ⟨rfl, Numbering.regular_start c.options 0⟩
      (fun l hl => (hgrouped.fits l hl).shaped) hrun
  have hlines : e.program = frames.map Frame.line := hwritten
  refine ⟨⟨hgrouped.text (Emission.run_ne_fault hrun), fun l hl => (hgrouped.fits l hl).joined⟩,
    frames, frames.map fun f => f.line.bytes, ?_, ?_, ?_, ?_, ?_, hframed⟩
  · rintro rfl
    exact hp hlines
  · rw [hprogram, hlines, Program.bytes, List.flatMap_map, List.flatMap_def]
  · exact encodes_lines hascending.le
  · exact fun f hf => ⟨hascending.above f hf, hascending.le f hf⟩
  · exact hascending.pairwise

/-- A compiler that numbers lines in fives, keeps quotes and knows one constant. -/
def countingCompiler : Compiler where
  options := { start := 100, step := 5, quoted := true }
  constants := ⟨[.constant "top" "7"]⟩

/-- A source with a comment, a label on a line of its own, a joined line, a number, an empty line and
a remark. -/
def joinedSource : Bytes :=
  "# numbers\n@loop:\n  PRINT @top; \\\n  \"a\"\n300 GO TO @loop # again\n\nREM x \\*"

def joinedProgram : Program :=
  [⟨100, [0xF5, 0x37, 0x0E, 0, 0, 7, 0, 0, 0x3B, 0x22, 0x61, 0x22, 0x0D]⟩,
    ⟨300, [0xEC, 0x31, 0x30, 0x30, 0x0E, 0, 0, 100, 0, 0, 0x0D]⟩,
    ⟨305, [0xEA, 0x78, 0x20, 0x7F, 0x0D]⟩]

theorem parse_joinedSource :
    (countingCompiler.parse .k48 [] joinedSource).2.result = .ok joinedProgram := by
  unfold Compiler.parse compile
  rw [Vocabulary.ofDialect_eq]
  decide +kernel

theorem parse_framed_joinedSource :
    (countingCompiler.parse .k48 [] joinedSource).2.result = .ok joinedProgram ∧
      ∃ (frames : List Frame) (parts : List Bytes), frames ≠ [] ∧
        (countingCompiler.parse .k48 [] joinedSource).1.program = parts.flatten ∧
        List.Forall₂ Frame.Encodes frames parts ∧
        Framed countingCompiler.options countingCompiler.constants
          (countingCompiler.parse .k48 [] joinedSource).1.symbols none
          (logicalLines (Vocabulary.ofDialect .k48) joinedSource) frames := by
  obtain ⟨-, frames, parts, hne, hprogram, hparts, -, -, hframed⟩ :=
    parse_framed countingCompiler .k48 [] joinedSource parse_joinedSource
  exact ⟨parse_joinedSource, frames, parts, hne, hprogram, hparts, hframed⟩

end SpectrumTape.Basic
