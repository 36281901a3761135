import SpectrumTape.Proofs.Basic.Lookahead
import SpectrumTape.Proofs.Basic.References
import SpectrumTape.Proofs.Basic.Reports
import SpectrumTape.Proofs.Text.Positions

/-!
# Where items stand

A step of the reading looks at no more than what is left of the line (`Lexer.step_fits`). So the column
of an item never leaves its line, and every item is at a position of the source (`isPosition_of_lex`).
What a compilation reports is about an item or about the source as a whole (`Compiler.located_parse`).
-/

namespace SpectrumTape

theorem Bytes.two_le_length_of_mark {s : Bytes} {mark : UInt8} (hmark : mark ≠ 0)
    (h : Ascii.toLower ((s.drop 1).head?.getD 0) = mark) : 2 ≤ s.length := by
  match s with
  | [] | [_] => exact absurd h.symm hmark
  | _ :: _ :: rest => simp

/-- The places that a source has: itself, and its positions. -/
inductive Location.Of (path source : Bytes) : Location → Prop where
  | whole : Of path source (.ofPath path)
  | position {line column : Int} (h : Bytes.IsPosition source line column) :
      Of path source ⟨path, line, column⟩

/-- All places that a failure names have a property. -/
def Failure.Names {ε : Type} (Q : Location → Prop) (failure : Failure ε) : Prop :=
  ∀ f ∈ failure.faults, ∀ l, f.location = some l → Q l

theorem Failure.Names.map {ε ε' : Type} {Q : Location → Prop} {failure : Failure ε}
    (h : failure.Names Q) (g : ε → ε') : (failure.map g).Names Q := by
  intro f hf l hl
  obtain ⟨f', hf', rfl⟩ : ∃ f' ∈ failure.faults, f'.map g = f := List.mem_map.mp hf
  exact h f' hf' l hl

namespace Basic

/-! ### How far a step looks -/

namespace Literal

theorem size_readDigits_le {base : Nat} {isDigit : UInt8 → Bool} {empty large : Cause} {skipped : Nat}
    {s : Bytes} (hs : skipped ≤ s.length) :
    (readDigits base isDigit empty large skipped s).size ≤ s.length := by
  have hdigits := runLength_le isDigit (s.drop skipped)
  rw [runLength, List.length_drop] at hdigits
  show skipped + ((s.drop skipped).takeWhile isDigit).length ≤ s.length
  omega

theorem size_readNumber_le (binary : Bool) (s : Bytes) : (readNumber binary s).size ≤ s.length := by
  unfold readNumber
  dsimp only
  split_ifs with hhex hbin
  · rw [Bool.and_eq_true] at hhex
    exact size_readDigits_le (Bytes.two_le_length_of_mark (by decide) (beq_iff_eq.mp hhex.2))
  · rw [Bool.and_eq_true] at hbin
    exact size_readDigits_le (Bytes.two_le_length_of_mark (by decide) (beq_iff_eq.mp hbin.2))
  · exact size_readDigits_le (Nat.zero_le _)
  · exact decimalLength_le s

theorem size_stringFrom_le (v : Vocabulary) (size skip : Nat) (done s : Bytes) :
    (stringFrom v size skip done s).size ≤ size + s.length := by
  fun_induction stringFrom v size skip done s with
  | case1 => exact Nat.le_refl _
  | case4 | case6 => simp only [List.length_cons]; omega
  | case2 | case3 | case5 | case7 => simp only [List.length_cons]; omega

theorem size_readString_le (v : Vocabulary) {s : Bytes} (hs : s ≠ []) :
    (readString v s).size ≤ s.length := by
  have hsize := size_stringFrom_le v 1 0 [] (s.drop 1)
  have hpos := List.length_pos_iff.mpr hs
  rw [List.length_drop] at hsize
  show (stringFrom v 1 0 [] (s.drop 1)).size ≤ s.length
  omega

end Literal

/-- A step stays within `n` bytes, with its tokens and with what it reads. -/
def Step.Fits (n : Nat) (s : Step) : Prop :=
  (∀ p ∈ s.tokens, p.1 ≤ n) ∧ ∀ more mode, s.next = .advance more mode → more + 1 ≤ n

namespace Step

variable {n size : Nat}

theorem fits_fail {cause : Cause} (hsize : size ≤ n) : (fail size cause).Fits n :=
  ⟨by simpa [fail] using hsize, nofun⟩

theorem fits_read {tokens : List Token} {mode : Mode} (hn : 0 < n) (hsize : size ≤ n) :
    (read size tokens mode).Fits n := by
  refine ⟨fun p hp => ?_, fun more mode' h => ?_⟩
  · obtain ⟨t, -, rfl⟩ := List.mem_map.mp hp
    exact hsize
  · cases h
    omega

theorem fits_ofRead {α : Type} {before : Nat} {token : α → Token} {r : Read α} (hn : 0 < n)
    (hsize : before + r.size ≤ n) : (ofRead before token r).Fits n := by
  unfold ofRead
  split
  · exact fits_read hn hsize
  · exact fits_fail hsize

end Step

open Step

namespace Lexer

variable {v : Vocabulary} {here : Bytes}

theorem fits_endLine (n : Nat) : endLine.Fits n := ⟨by simp [endLine], nofun⟩

theorem fits_lineNumberStep (hhere : 0 < here.length) : (lineNumberStep here).Fits here.length := by
  have hsize := Literal.runLength_le Ascii.isDigit here
  unfold lineNumberStep
  dsimp only
  split
  · split_ifs
    · exact fits_read hhere hsize
    · exact fits_fail hsize
  · exact fits_fail hsize

theorem fits_labelStep (hhere : 0 < here.length) : (labelStep here).Fits here.length := by
  have hsize := Literal.runLength_le Ascii.isWord (here.drop 1)
  rw [Literal.runLength, List.length_drop] at hsize
  unfold labelStep
  dsimp only
  split
  · -- The byte behind the name is part of the text too.
    rename_i c rest hrest
    have hlength := congrArg List.length hrest
    rw [List.length_drop, List.length_cons] at hlength
    split_ifs
    · exact fits_read hhere (by omega)
    · exact fits_fail (by omega)
  · exact fits_fail (by omega)

theorem fits_referenceStep (hhere : 0 < here.length) : (referenceStep here).Fits here.length := by
  have hsize := Literal.runLength_le Ascii.isWord (here.drop 1)
  rw [Literal.runLength, List.length_drop] at hsize
  unfold referenceStep
  dsimp only
  split_ifs
  · exact fits_fail hhere
  · exact fits_read hhere (by omega)

theorem fits_keywordStep (hhere : 0 < here.length) {found : Spelling.Found}
    (hfound : v.findKeyword? here = some found) :
    (keywordStep found.code found.size found.rest).Fits here.length := by
  obtain ⟨hsize, hrest⟩ := Vocabulary.findKeyword?_bounds hfound
  have hblanks := Literal.runLength_le Ascii.isSpace found.rest
  have hlength : found.size + found.rest.length = here.length := by
    rw [hrest, List.length_drop]
    omega
  unfold keywordStep
  dsimp only
  split_ifs
  · have hnumber := Literal.size_readNumber_le true
      (found.rest.drop (Literal.runLength Ascii.isSpace found.rest))
    rw [List.length_drop] at hnumber
    exact fits_ofRead hhere (by omega)
  · exact fits_read hhere (by omega)
  · exact fits_read hhere hsize

theorem fits_plainStep (hhere : 0 < here.length) : (plainStep here).Fits here.length := by
  unfold plainStep
  dsimp only
  split_ifs
  · exact fits_read hhere (Literal.runLength_le Ascii.isAlnum here)
  · exact fits_read hhere hhere

theorem fits_wordStep (first : Bool) (hhere : 0 < here.length) :
    (wordStep v first here).Fits here.length := by
  unfold wordStep
  split
  · rename_i found hfound
    obtain ⟨htokens, hnext⟩ := fits_keywordStep hhere hfound
    dsimp only
    split_ifs
    · exact fits_fail (Nat.zero_le _)
    · exact ⟨List.forall_mem_cons.mpr ⟨Nat.zero_le _, htokens⟩, hnext⟩
    · exact ⟨htokens, hnext⟩
  · split_ifs
    · exact fits_fail (Nat.zero_le _)
    · exact fits_plainStep hhere

theorem fits_lineEscapeStep (first : Bool) (rest : Bytes) (n : Nat) :
    (lineEscapeStep first rest).Fits n := by
  unfold lineEscapeStep
  refine ⟨?_, nofun⟩
  dsimp only
  split_ifs <;> simp

theorem fits_statementStep (first : Bool) (here : Bytes) :
    (statementStep v first here).Fits here.length := by
  cases here with
  | nil => exact fits_endLine 0
  | cons c rest =>
    have hhere : 0 < (c :: rest).length := Nat.zero_lt_succ _
    have hnumber := Literal.size_readNumber_le false (c :: rest)
    have hstring := Literal.size_readString_le v (List.cons_ne_nil c rest)
    simp only [statementStep]
    split_ifs
    · exact fits_read hhere (Literal.runLength_le _ _)
    · exact fits_endLine _
    · exact fits_lineEscapeStep first rest _
    · exact fits_labelStep hhere
    · exact fits_referenceStep hhere
    · exact fits_lineNumberStep hhere
    · exact fits_ofRead hhere (by omega)
    · exact fits_fail (Nat.zero_le _)
    · exact fits_ofRead hhere (by omega)
    · exact fits_fail (Nat.zero_le _)
    · exact fits_ofRead hhere (by omega)
    · exact fits_wordStep first hhere

theorem fits_remarkStep (afterBlank : Bool) (here : Bytes) :
    (remarkStep v afterBlank here).Fits here.length := by
  cases here with
  | nil => exact fits_endLine 0
  | cons c rest =>
    have hhere : 0 < (c :: rest).length := Nat.zero_lt_succ _
    simp only [remarkStep]
    split_ifs
    · exact ⟨by simp, by simp⟩
    · split
      · rename_i found hfound
        have hsize := Vocabulary.findEscape?_bounds hfound
        exact fits_read hhere (by rw [List.length_cons]; omega)
      · exact fits_fail hhere
    · exact fits_read hhere hhere
    · exact fits_read hhere hhere
    · exact fits_read hhere (Literal.runLength_le _ _)
    · exact fits_read hhere hhere

/-- **A step looks at no more than what is left of the line.** -/
theorem step_fits (mode : Mode) (here : Bytes) : (step v mode here).Fits here.length := by
  cases mode with
  | statement first => exact fits_statementStep first here
  | remark afterBlank => exact fits_remarkStep afterBlank here

/-! ### The line that an item stands on -/

theorem row_of_item {mode : Mode} {line column : Nat} {later : List Bytes} {i : Item}
    (h : i ∈ lexFrom v mode line column here later) :
    (∃ u x, here = u ++ x ∧ i.line = line ∧ i.column = column + u.length) ∨
      ∃ earlier u x behind, later = earlier ++ (u ++ x) :: behind ∧
        i.line = line + 1 + earlier.length ∧ i.column = 1 + u.length := by
  fun_induction lexFrom v mode line column here later with
  | case1 mode line column here later s hadvance hjoin hnew =>
    -- Behind a break the line at hand is the first of the later ones.
    have hbehind {next : Bytes} {rest : List Bytes}
        (h : (∃ u x, next = u ++ x ∧ i.line = line + 1 ∧ i.column = 1 + u.length) ∨
          ∃ earlier u x behind, rest = earlier ++ (u ++ x) :: behind ∧
            i.line = line + 1 + 1 + earlier.length ∧ i.column = 1 + u.length) :
        ∃ earlier u x behind, next :: rest = earlier ++ (u ++ x) :: behind ∧
          i.line = line + 1 + earlier.length ∧ i.column = 1 + u.length := by
      rcases h with ⟨u, x, rfl, hline, hcolumn⟩ | ⟨earlier, u, x, behind, rfl, hline, hcolumn⟩
      · exact ⟨[], u, x, rest, rfl, hline, hcolumn⟩
      · refine ⟨next :: earlier, u, x, behind, rfl, ?_, hcolumn⟩
        rw [hline, List.length_cons]
        omega
    have hfits : s.Fits here.length := step_fits mode here
    rcases List.mem_append.mp h with h | h
    · obtain ⟨hline, offset, hcolumn, htoken⟩ := line_of_mem_items h
      have hoffset : offset ≤ here.length := hfits.1 _ htoken
      refine .inl ⟨here.take offset, here.drop offset, (List.take_append_drop _ _).symm, hline, ?_⟩
      rw [hcolumn, List.length_take, Nat.min_eq_left hoffset]
    · cases hnext : s.next with
      | stop => simp [hnext] at h
      | advance more mode' =>
        by_cases hhere : here = []
        · simp [hnext, hhere] at h
        simp only [hnext, hhere, dite_false] at h
        rcases hadvance more mode' hhere h with ⟨u, x, hrest, hline, hcolumn⟩ | hlater
        · have hmore : more + 1 ≤ here.length := hfits.2 _ _ hnext
          refine .inl ⟨here.take (more + 1) ++ u, x, ?_, hline, ?_⟩
          · rw [List.append_assoc, ← hrest, List.take_append_drop]
          · rw [hcolumn, List.length_append, List.length_take, Nat.min_eq_left hmore]
            omega
        · exact .inr hlater
      | join mode' =>
        simp only [hnext] at h
        cases later with
        | nil =>
          rw [List.mem_singleton.mp h]
          exact .inl ⟨[], here, rfl, rfl, rfl⟩
        | cons next later => exact .inr (hbehind (hjoin mode' h))
      | newLine =>
        simp only [hnext] at h
        cases later with
        | nil => simp at h
        | cons next later => exact .inr (hbehind (hnew h))

end Lexer

/-- **Every item is at a position of the source.** -/
theorem isPosition_of_lex {v : Vocabulary} {source : Bytes} {i : Item} (h : i ∈ lex v source) :
    Bytes.IsPosition source i.line i.column := by
  unfold lex at h
  split at h
  · cases h
  rename_i first later hlines
  rcases Lexer.row_of_item h with
    ⟨u, x, rfl, hline, hcolumn⟩ | ⟨earlier, u, x, behind, rfl, hline, hcolumn⟩
  · have hrow : source.lines = [] ++ (u ++ x) :: later := hlines
    rw [hline, hcolumn]
    exact Bytes.isPosition_of_lines hrow
  · have hrow : source.lines = (first :: earlier) ++ (u ++ x) :: behind := hlines
    have hposition := Bytes.isPosition_of_lines hrow
    rw [hline, hcolumn]
    rwa [List.length_cons, Nat.add_comm earlier.length, ← Nat.add_assoc] at hposition

/-! ### What is reported -/

section passes

variable {o : Options} {constants symbols : Symbols} {path source : Bytes} {items : List Item}

theorem exists_of_runSteps_error {σ α ε : Type} {step : σ → α → Except ε σ} {s s' : σ} {e : ε}
    {items : List α} (h : runSteps step s items = (s', some e)) :
    ∃ t, ∃ a ∈ items, step t a = .error e := by
  induction items generalizing s with
  | nil => cases h
  | cons a items ih =>
    rw [runSteps] at h
    cases hstep : step s a with
    | error e' =>
      rw [hstep] at h
      cases h
      exact ⟨_, a, List.mem_cons_self, hstep⟩
    | ok t =>
      rw [hstep] at h
      obtain ⟨t', b, hb, hstepb⟩ := ih h
      exact ⟨t', b, List.mem_cons_of_mem a hb, hstepb⟩

theorem location_of_mapError {α : Type} {r : Except Cause α} {i : Item} {f : Fault Cause}
    (h : r.mapError (fun cause => ({ location := some (Survey.place path i), cause } : Fault Cause)) =
      .error f) : f.location = some (Survey.place path i) := by
  cases r with
  | ok a => cases h
  | error cause =>
    cases h
    rfl

theorem Survey.location_of_run {s : Survey} {f : Fault Cause}
    (h : Survey.run o constants path items = (s, some f)) :
    ∃ i ∈ items, f.location = some (place path i) := by
  obtain ⟨t, i, hi, hstep⟩ := exists_of_runSteps_error h
  exact ⟨i, hi, location_of_mapError hstep⟩

theorem Emission.location_of_run {e : Emission} {f : Fault Cause}
    (h : Emission.run o constants symbols path items = (e, some f)) :
    ∃ i ∈ items, f.location = some (Survey.place path i) := by
  obtain ⟨t, i, hi, hstep⟩ := exists_of_runSteps_error h
  exact ⟨i, hi, location_of_mapError hstep⟩

theorem Survey.location_of_warning (s : Survey) (items : List Item) :
    ∀ d ∈ (runSteps (step o constants path) s items).1.warnings,
      d ∈ s.warnings ∨ ∃ i ∈ items, d.location = place path i := by
  induction items generalizing s with
  | nil => exact fun d hd => .inl hd
  | cons i items ih =>
    intro d hd
    rw [runSteps] at hd
    cases hstep : step o constants path s i with
    | error f =>
      rw [hstep] at hd
      exact .inl hd
    | ok s₁ =>
      rw [hstep] at hd
      rcases ih s₁ d hd with hd | ⟨j, hj, hplace⟩
      · have hbefore := step_warnings hstep
        rw [← List.mem_reverse, hbefore, List.mem_append, List.mem_reverse] at hd
        refine hd.imp_right fun hd => ?_
        obtain ⟨j, hj, rfl⟩ := List.mem_map.mp hd
        obtain rfl : j = i := List.mem_singleton.mp (List.mem_of_mem_filter hj)
        exact ⟨j, List.mem_cons_self, rfl⟩
      · exact .inr ⟨j, List.mem_cons_of_mem i hj, hplace⟩

/-- A compilation reports only what is about a place of its source, and fails only with that. -/
structure Compiled.Located (path source : Bytes) (compiled : Compiled) : Prop where
  diagnostics : ∀ d ∈ compiled.diagnostics, d.location.Of path source
  faults : ∀ failure, compiled.result = .error failure →
    ∀ f ∈ failure.faults, ∃ l, f.location = some l ∧ l.Of path source

theorem Compiled.Located.names {compiled : Compiled} (h : compiled.Located path source)
    {failure : Failure Cause} (hresult : compiled.result = .error failure) :
    failure.Names (·.Of path source) := by
  intro f hf l hl
  obtain ⟨l', hl', hof⟩ := h.faults failure hresult f hf
  rw [hl] at hl'
  cases hl'
  exact hof

theorem Compiled.located_failed {warnings : List Diagnostic} {symbols : Symbols}
    {failure : Failure Cause} (hwarnings : ∀ d ∈ warnings, d.location.Of path source)
    (hfaults : ∀ f ∈ failure.faults, ∃ l, f.location = some l ∧ l.Of path source) :
    (failed warnings symbols failure).Located path source where
  diagnostics d hd := by
    rcases List.mem_append.mp hd with hd | hd
    · exact hwarnings d hd
    · obtain ⟨f, hf, rfl⟩ := List.mem_map.mp hd
      obtain ⟨l, hl, hof⟩ := hfaults f hf
      rwa [report, hl]
  faults failure' hresult := by
    cases hresult
    exact hfaults

theorem located_fileFault (cause : Cause) :
    ∀ f ∈ ({ first := fileFault path cause } : Failure Cause).faults,
      ∃ l, f.location = some l ∧ l.Of path source := by
  intro f hf
  obtain rfl := List.mem_singleton.mp hf
  exact ⟨_, rfl, .whole⟩

theorem Ends.located {compiled : Compiled} (h : Ends o constants path items compiled)
    (hitems : ∀ i ∈ items, Bytes.IsPosition source i.line i.column) :
    compiled.Located path source := by
  have hplace : ∀ i ∈ items, (Survey.place path i).Of path source :=
    fun i hi => .position (hitems i hi)
  have hwarnings : ∀ d ∈ (Survey.run o constants path items).1.warnings.reverse,
      d.location.Of path source := by
    intro d hd
    rcases Survey.location_of_warning {} items d (List.mem_reverse.mp hd) with hd | ⟨i, hi, heq⟩
    · cases hd
    · rw [heq]
      exact hplace i hi
  have hfault {f : Fault Cause} (hf : ∃ i ∈ items, f.location = some (Survey.place path i)) :
      ∀ g ∈ ({ first := f } : Failure Cause).faults, ∃ l, g.location = some l ∧ l.Of path source := by
    obtain ⟨i, hi, hlocation⟩ := hf
    intro g hg
    obtain rfl := List.mem_singleton.mp hg
    exact ⟨_, hlocation, hplace i hi⟩
  cases h with
  | constant hv hvalue => exact Compiled.located_failed nofun (located_fileFault _)
  | fault hsurvey =>
    rw [hsurvey] at hwarnings
    exact Compiled.located_failed hwarnings (hfault (Survey.location_of_run hsurvey))
  | @unresolved s failure hconstants hsurvey hfaults =>
    rw [hsurvey] at hwarnings
    refine Compiled.located_failed hwarnings fun f hf => ?_
    rw [hfaults] at hf
    obtain ⟨name, -, rfl⟩ := List.mem_map.mp hf
    exact ⟨_, rfl, .whole⟩
  | @emitted s _ hsurvey hresolved hemitted =>
    rw [hsurvey] at hwarnings
    generalize hrun : Emission.run o constants s.symbols path items = outcome at hemitted
    cases hemitted with
    | stopped e f => exact Compiled.located_failed hwarnings (hfault (Emission.location_of_run hrun))
    | empty e => exact Compiled.located_failed hwarnings (located_fileFault _)
    | written e hprogram => exact ⟨hwarnings, nofun⟩

end passes

/-- **What a compilation reports is about the source as a whole or about a position of it.** -/
theorem Compiler.located_parse (c : Compiler) (dialect : Dialect) (path source : Bytes) :
    (c.parse dialect path source).2.Located path source :=
  (compile_ends c.options dialect c.constants path source).located fun _ => isPosition_of_lex

end Basic

end SpectrumTape
