import SpectrumTape.Proofs.Document.Work
import SpectrumTape.Proofs.Number.FiveByte

/-!
# The line that a program starts at

A program that is added without a line to start at takes the value of the symbol `autostart`. The
compiler reads the values of symbols without the blanks around them, but this value is read as it is.
A text that is a number has no blanks around it (`Reading.readBinary_iff_of_trimBlank`), so of the
values that are numbers for the compiler exactly those without such blanks give a line, which is the
whole part of the number. With any other value the program is not added (`addBasic_autostart`).
-/

namespace SpectrumTape

/-! ### Blanks around numbers -/

theorem Reading.readBinary_iff_of_trimBlank {f : Binary.Format} {s : Bytes} {v : Binary f}
    (h : readBinary f s.trimBlank = .ok v) : readBinary f s = .ok v ↔ s.trimBlank = s := by
  constructor
  · intro hread
    exact Bytes.trimBlank_of_isNumeric (isNumeric_of_readBinary hread)
  · intro htrim
    rwa [htrim] at h

theorem Reading.readBinary_of_blanks {f : Binary.Format} {s : Bytes} (h : s.trimBlank ≠ s) :
    ∃ e, readBinary f s = .error e := by
  cases hread : readBinary f s with
  | error e => exact ⟨e, rfl⟩
  | ok v => exact absurd (Bytes.trimBlank_of_isNumeric (isNumeric_of_readBinary hread)) h

/-! ### Whole parts -/

/-- The whole number that is left of a number without its fraction. -/
def IsWholePart (n : ℤ) (q : ℚ) : Prop := |(n : ℚ)| ≤ |q| ∧ |q| < |(n : ℚ)| + 1 ∧ 0 ≤ n * q

namespace Document

theorem wholePart_finite (negative : Bool) {units : Nat}
    (hsmall : units / 2 ^ Binary.format64.scale < 2 ^ 31) :
    wholePart (.finite negative units) =
      if negative then -((units / 2 ^ Binary.format64.scale : ℕ) : ℤ)
      else ((units / 2 ^ Binary.format64.scale : ℕ) : ℤ) := by
  unfold wholePart
  simp only [Binary.truncate?, Nat.shiftRight_eq_div_pow]
  generalize units / 2 ^ Binary.format64.scale = whole at hsmall ⊢
  rw [if_pos]
  simp only [Bool.and_eq_true, decide_eq_true_eq]
  split_ifs <;> omega

theorem isWholePart_wholePart {negative : Bool} {units : Nat}
    (hsmall : |Binary.toRat (.finite negative units : Binary64)| < 2 ^ 31) :
    IsWholePart (wholePart (.finite negative units))
      (Binary.toRat (.finite negative units : Binary64)) := by
  have hfloor := FiveByte.floor_div_two_pow units Binary.format64.scale
  have hnonneg : (0 : ℚ) ≤ units / 2 ^ Binary.format64.scale := by positivity
  have hlow := Nat.floor_le hnonneg
  have hhigh := Nat.lt_floor_add_one (units / 2 ^ Binary.format64.scale : ℚ)
  rw [Binary.abs_toRat_finite] at hsmall
  have hrange : units / 2 ^ Binary.format64.scale < 2 ^ 31 := by
    rw [← hfloor, Nat.floor_lt hnonneg]
    exact_mod_cast hsmall
  rw [wholePart_finite negative hrange, IsWholePart, Binary.abs_toRat_finite, ← hfloor, Binary.toRat]
  generalize (units / 2 ^ Binary.format64.scale : ℚ) = q at *
  have hproduct : (0 : ℚ) ≤ ⌊q⌋₊ * q := mul_nonneg (Nat.cast_nonneg _) hnonneg
  cases negative with
  | false =>
    rw [if_neg Bool.false_ne_true, if_neg Bool.false_ne_true, Int.cast_natCast, Nat.abs_cast, one_mul]
    exact ⟨hlow, hhigh, hproduct⟩
  | true =>
    rw [if_pos rfl, if_pos rfl, Int.cast_neg, Int.cast_natCast, abs_neg, Nat.abs_cast, neg_one_mul,
      neg_mul_neg]
    exact ⟨hlow, hhigh, hproduct⟩

/-! ### Adding a program -/

section

variable {env : Environment} {c : Journal.Context} {l : Location} {file : BasicFile} {s : State}
  {source value : Bytes} {p : Basic.Program}

theorem addBasic_of_number (hread : readSource env.files file.path = .ok source)
    (hcompile : ((env.compiler file.constants).parse env.dialect file.path source).2.result = .ok p)
    (hgiven : file.autostart = 0)
    (hsymbol : ((env.compiler file.constants).parse env.dialect file.path source).1.valueOf?
      "autostart" = some value)
    {v : Binary64} (hvalue : Reading.readBinary Binary.format64 value = .ok v) :
    ∃ s', (addBasic env c l file).run.run s = (.ok (programEntry file p (wholePart v)), s') ∧
      s'.entries = s.entries ++ [programEntry file p (wholePart v)] := by
  obtain ⟨s₁, hentries, hrun⟩ := run_addBasic (s := s) (c := c) (l := l) hread
  have hline : autostartLine l file.autostart (some value) = pure (wholePart v) := by
    unfold autostartLine
    simp only [hgiven, bne_self_eq_false, Bool.false_eq_true, if_false, hvalue]
  rw [hrun, hcompile, hsymbol]
  dsimp only
  rw [hline]
  refine ⟨_, rfl, ?_⟩
  exact congrArg (· ++ [_]) hentries

theorem addBasic_of_noNumber (hread : readSource env.files file.path = .ok source)
    (hcompile : ((env.compiler file.constants).parse env.dialect file.path source).2.result = .ok p)
    (hgiven : file.autostart = 0)
    (hsymbol : ((env.compiler file.constants).parse env.dialect file.path source).1.valueOf?
      "autostart" = some value)
    {problem : NumeralError} (hvalue : Reading.readBinary Binary.format64 value = .error problem) :
    ∃ s', (addBasic env c l file).run.run s =
        (.error (.one (some l) (.invalidAutostart value)), s') ∧ s'.entries = s.entries := by
  obtain ⟨s₁, hentries, hrun⟩ := run_addBasic (s := s) (c := c) (l := l) hread
  have hline : autostartLine l file.autostart (some value) = fail l (.invalidAutostart value) := by
    unfold autostartLine
    simp only [hgiven, bne_self_eq_false, Bool.false_eq_true, if_false, hvalue]
  rw [hrun, hcompile, hsymbol]
  dsimp only
  rw [hline]
  exact ⟨_, rfl, hentries⟩

/-- **The symbol `autostart` gives the line that a program starts at.** If its value is a small enough
number for the compiler, the program is added with the whole part of that number, provided that there
are no blanks around the value. With blanks around it, the same number is refused. -/
theorem addBasic_autostart (env : Environment) (c : Journal.Context) (l : Location)
    (file : BasicFile) (s : State)
    (hread : readSource env.files file.path = .ok source)
    (hcompile : ((env.compiler file.constants).parse env.dialect file.path source).2.result = .ok p)
    (hgiven : file.autostart = 0)
    (hsymbol : ((env.compiler file.constants).parse env.dialect file.path source).1.valueOf?
      "autostart" = some value)
    {negative : Bool} {units : Nat}
    (hvalue : Reading.readBinary Binary.format64 value.trimBlank = .ok (.finite negative units))
    (hsmall : |Binary.toRat (.finite negative units : Binary64)| < 2 ^ 31) :
    (∀ name, Basic.Emission.numberOfValue name value =
      Basic.Literal.numberOf value.trimBlank (.finite negative units)) ∧
    (value.trimBlank = value → ∃ e s', (addBasic env c l file).run.run s = (.ok e, s') ∧
      s'.entries = s.entries ++ [e] ∧ e.type = .program ∧ e.payload = Basic.Program.bytes p ∧
      IsWholePart e.programParams.1 (Binary.toRat (.finite negative units : Binary64))) ∧
    (value.trimBlank ≠ value → ∃ s', (addBasic env c l file).run.run s =
      (.error (.one (some l) (.invalidAutostart value)), s') ∧ s'.entries = s.entries) := by
  refine ⟨fun name => ?_, fun htrim => ?_, fun htrim => ?_⟩
  · simp only [Basic.Emission.numberOfValue, hvalue]
  · have hnumber := (Reading.readBinary_iff_of_trimBlank hvalue).mpr htrim
    obtain ⟨s', hrun, hentries⟩ := addBasic_of_number (c := c) (l := l) (s := s) hread hcompile hgiven
      hsymbol hnumber
    exact ⟨_, s', hrun, hentries, rfl, rfl, isWholePart_wholePart hsmall⟩
  · obtain ⟨problem, hproblem⟩ := Reading.readBinary_of_blanks (f := Binary.format64) htrim
    exact addBasic_of_noNumber hread hcompile hgiven hsymbol hproblem

end

/-- A program that goes to the line it starts at, which is a constant. -/
def startingEnvironment (value : Bytes) : Environment where
  files := { entries := [(utf8 "p.bas", utf8 "10 GO TO @autostart")] }
  constants := [.constant "autostart" value]

def startingCompiled (value : Bytes) : Basic.Compiler × Basic.Compiled :=
  ((startingEnvironment value).compiler []).parse .k48 "p.bas" "10 GO TO @autostart"

/-- The program with the text and the form of the number it goes to. -/
def startingProgram (text : Bytes) (form : FiveByte) : Basic.Program :=
  [⟨10, 0xEC :: (text ++ 0x0E :: form.bytes ++ [0x0D])⟩]

theorem readSource_startingEnvironment (value : Bytes) :
    readSource (startingEnvironment value).files "p.bas" = .ok "10 GO TO @autostart" := by
  have hread : readSource { entries := [(utf8 "p.bas", utf8 "10 GO TO @autostart")] } "p.bas" =
      .ok (utf8 "10 GO TO @autostart") := by
    decide +kernel
  exact hread

theorem addBasic_autostart_fraction :
    let number : Binary64 := .finite false (195 <<< 1073)
    (startingCompiled "9.75e1").2.result = .ok (startingProgram "9.75e1" ⟨0x87, 0x43000000⟩) ∧
      number.toRat = 195 / 2 ∧
      ∃ e s', (addBasic (startingEnvironment "9.75e1") {} {} { path := "p.bas" }).run.run {} =
          (.ok e, s') ∧
        s'.entries = [e] ∧ e.type = .program ∧ IsWholePart e.programParams.1 number.toRat := by
  intro number
  have hresult : (startingCompiled "9.75e1").2.result =
      .ok (startingProgram "9.75e1" ⟨0x87, 0x43000000⟩) := by
    unfold startingCompiled Basic.Compiler.parse Basic.compile
    rw [Vocabulary.ofDialect_eq]
    decide +kernel
  have hsymbol : (startingCompiled "9.75e1").1.valueOf? "autostart" = some (utf8 "9.75e1") := by
    unfold startingCompiled Basic.Compiler.parse Basic.compile
    rw [Vocabulary.ofDialect_eq]
    decide +kernel
  have hvalue : Reading.readBinary Binary.format64 (utf8 "9.75e1").trimBlank = .ok number := by
    decide +kernel
  have hrat : number.toRat = 195 / 2 := by
    have hhalf (zeros : ℕ) : ((195 <<< zeros : ℕ) / 2 ^ (zeros + 1) : ℚ) = 195 / 2 := by
      rw [Nat.shiftLeft_eq, Nat.cast_mul, Nat.cast_pow, Nat.cast_ofNat, Nat.cast_ofNat, pow_succ']
      exact mul_div_mul_right _ _ (by positivity)
    exact (Binary.toRat_finite_false _).trans (hhalf 1073)
  have hsmall : |number.toRat| < 2 ^ 31 := by
    rw [hrat]
    norm_num
  have htrim : (utf8 "9.75e1").trimBlank = utf8 "9.75e1" := by decide +kernel
  obtain ⟨-, hadd, -⟩ := addBasic_autostart (startingEnvironment "9.75e1") {} {} { path := "p.bas" } {}
    (readSource_startingEnvironment _) hresult rfl hsymbol hvalue hsmall
  obtain ⟨e, s', hrun, hentries, htype, -, hline⟩ := hadd htrim
  exact ⟨hresult, hrat, e, s', hrun, hentries, htype, hline⟩

/-- The value 10 with a blank in front is the number 10 for the compiler, but gives no line to start
at. -/
theorem addBasic_autostart_blank :
    let number : Binary64 := .finite false (10 <<< 1074)
    readSource (startingEnvironment " 10").files "p.bas" = .ok "10 GO TO @autostart" ∧
      (startingCompiled " 10").2.result = .ok (startingProgram "10" (.ofWord 10)) ∧
      (startingCompiled " 10").1.valueOf? "autostart" = some (utf8 " 10") ∧
      Reading.readBinary Binary.format64 (utf8 " 10").trimBlank = .ok number ∧
      |number.toRat| < 2 ^ 31 ∧
      ∃ s', (addBasic (startingEnvironment " 10") {} {} { path := "p.bas" }).run.run {} =
        (.error (.one (some {}) (.invalidAutostart " 10")), s') ∧ s'.entries = [] := by
  intro number
  have hresult : (startingCompiled " 10").2.result = .ok (startingProgram "10" (.ofWord 10)) := by
    unfold startingCompiled Basic.Compiler.parse Basic.compile
    rw [Vocabulary.ofDialect_eq]
    decide +kernel
  have hsymbol : (startingCompiled " 10").1.valueOf? "autostart" = some (utf8 " 10") := by
    unfold startingCompiled Basic.Compiler.parse Basic.compile
    rw [Vocabulary.ofDialect_eq]
    decide +kernel
  have hvalue : Reading.readBinary Binary.format64 (utf8 " 10").trimBlank = .ok number := by
    decide +kernel
  have hsmall : |number.toRat| < 2 ^ 31 := by
    have hten : ((10 <<< 1074 : ℕ) / 2 ^ Binary.format64.scale : ℚ) = (10 : ℕ) :=
      FiveByte.value_eq_natCast_iff.mpr rfl
    rw [Binary.abs_toRat_finite, hten]
    norm_num
  have hblank : (utf8 " 10").trimBlank ≠ utf8 " 10" := by decide +kernel
  have hread := readSource_startingEnvironment (utf8 " 10")
  obtain ⟨problem, hproblem⟩ := Reading.readBinary_of_blanks (f := Binary.format64) hblank
  exact ⟨hread, hresult, hsymbol, hvalue, hsmall,
    addBasic_of_noNumber hread hresult rfl hsymbol hproblem⟩

end Document

end SpectrumTape
