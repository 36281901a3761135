import SpectrumTape.Proofs.Basic.Lookahead
import SpectrumTape.Proofs.Basic.StepTokens
import SpectrumTape.Proofs.Number.DecimalValue

/-!
# Number literals

A number is read as far as it goes: all digits of the base that its first bytes mark, or else the
longest decimal number that the text begins with (`Literal.text_length_le`). Its text is written
together with the five bytes of its value, and it fails if there is no digit or the machine cannot
hold the value (`Lexer.statementStep_number`).

Behind `BIN` binary digits are read, with their mark or without it, unless the second byte is the
mark of hexadecimal digits. The first byte is not looked at then, whatever it is, and is lost
(`Lexer.statementStep_bin`).
-/

namespace SpectrumTape

namespace DecimalText

variable (d : DecimalText)

theorem mem_text_of_mem_digits {c : UInt8} (hc : c ∈ d.digits) : c ∈ d.text := by
  unfold digits at hc
  unfold text fractionText
  rw [List.mem_append] at hc ⊢
  rcases hc with hc | hc
  · exact Or.inl hc
  · cases hfraction : d.fraction with
    | none => simp [hfraction] at hc
    | some fraction =>
      right
      simp only [hfraction, Option.getD_some] at hc
      simp [hc]

theorem Exponent.head_text (e : Exponent) :
    ∃ c ∈ e.text.head?, Ascii.isDigit c = false ∧ c ≠ 0x2E := by
  obtain ⟨-, hpoint, hdigit, -⟩ := Ascii.of_toLower_eq_mark e.mark_eq
  exact ⟨e.mark, rfl, hdigit, hpoint⟩

theorem head_tail (h : d.fractionText ++ d.exponentText ≠ []) :
    ∃ c ∈ (d.fractionText ++ d.exponentText).head?, Ascii.isDigit c = false := by
  unfold fractionText exponentText at *
  cases hfraction : d.fraction with
  | some fraction => exact ⟨0x2E, rfl, rfl⟩
  | none =>
    cases hexponent : d.exponent with
    | none => simp [hfraction, hexponent] at h
    | some e =>
      obtain ⟨c, hc, hdigit, -⟩ := e.head_text
      exact ⟨c, hc, hdigit⟩

end DecimalText

namespace Basic

namespace Literal

/-! ### The longest decimal number -/

section Runs

variable {p : UInt8 → Bool} {digits t s : Bytes}

theorem length_le_runLength (hdigits : ∀ c ∈ digits, p c = true) (h : digits <+: s) :
    digits.length ≤ runLength p s := by
  obtain ⟨rest, rfl⟩ := h
  rw [runLength, List.takeWhile_append_of_pos hdigits, List.length_append]
  omega

theorem run_eq (hdigits : ∀ c ∈ digits, p c = true) (ht : ∃ c ∈ t.head?, p c = false)
    (h : digits ++ t <+: s) : runLength p s = digits.length ∧ t <+: s.drop (runLength p s) := by
  obtain ⟨rest, rfl⟩ := h
  obtain ⟨c, hc, hp⟩ := ht
  obtain ⟨t, rfl⟩ := List.head?_eq_some_iff.mp hc
  have hrun : runLength p (digits ++ (c :: t) ++ rest) = digits.length := by
    rw [runLength, List.append_assoc, List.takeWhile_append_of_pos hdigits, List.cons_append,
      List.takeWhile_cons_of_neg (by simp [hp]), List.append_nil]
  rw [hrun, List.append_assoc, List.drop_left]
  exact ⟨rfl, List.prefix_append _ _⟩

end Runs

theorem exists_fraction (s : Bytes) :
    ∃ fraction : Option Bytes, (∀ digits ∈ fraction, ∀ c ∈ digits, Ascii.isDigit c = true) ∧
      s.take (fractionLength s) = fraction.elim [] (0x2E :: ·) := by
  unfold fractionLength
  split
  · rename_i rest
    refine ⟨some (rest.takeWhile Ascii.isDigit), ?_, ?_⟩
    · rintro digits ⟨⟩ c hc
      exact List.mem_takeWhile_imp hc
    · rw [Nat.add_comm, List.take_succ_cons, take_runLength]
      rfl
  · exact ⟨none, by simp, rfl⟩

theorem exists_exponent (s : Bytes) :
    ∃ exponent : Option DecimalText.Exponent,
      s.take (exponentLength s) = exponent.elim [] DecimalText.Exponent.text := by
  match s with
  | [] => exact ⟨none, rfl⟩
  | [mark] =>
    have hnone : exponentLength [mark] = 0 := by simp [exponentLength, runLength]
    exact ⟨none, by rw [hnone]; rfl⟩
  | mark :: c :: rest =>
    simp only [exponentLength]
    have hsign : ∃ sign : Option UInt8, (∀ c ∈ sign, c = 0x2B ∨ c = 0x2D) ∧
        (c :: rest).take (if c == 0x2B || c == 0x2D then 1 else 0) = sign.toList := by
      split_ifs with hc
      · exact ⟨some c, by simpa using hc, rfl⟩
      · exact ⟨none, by simp, rfl⟩
    obtain ⟨sign, hsign, htake⟩ := hsign
    generalize (if c == 0x2B || c == 0x2D then 1 else 0) = signed at htake ⊢
    split_ifs with hmark
    · split
      · exact ⟨none, rfl⟩
      · rename_i n hn
        change _ = n + 1 at hn
        have hdigits : ((c :: rest).drop signed).takeWhile Ascii.isDigit ≠ [] := by
          intro hnil
          rw [runLength, hnil] at hn
          cases hn
        refine ⟨some ⟨mark, sign, _, beq_iff_eq.mp hmark, hsign, hdigits, fun c hc =>
          List.mem_takeWhile_imp hc⟩, ?_⟩
        rw [Nat.add_assoc, Nat.add_comm, List.take_succ_cons, List.take_add, htake, ← hn,
          take_runLength]
        rfl
    · exact ⟨none, rfl⟩

theorem exists_decimalText (s : Bytes) : ∃ d : DecimalText, s.take (decimalLength s) = d.text := by
  unfold decimalLength
  dsimp only
  obtain ⟨fraction, hfraction, hfractionText⟩ := exists_fraction (s.drop (runLength Ascii.isDigit s))
  obtain ⟨exponent, hexponent⟩ := exists_exponent
    (s.drop (runLength Ascii.isDigit s + fractionLength (s.drop (runLength Ascii.isDigit s))))
  refine ⟨⟨s.takeWhile Ascii.isDigit, fraction, exponent, fun c hc => List.mem_takeWhile_imp hc,
    hfraction⟩, ?_⟩
  rw [List.take_add, hexponent, List.take_add, hfractionText, take_runLength, List.append_assoc]
  rfl

theorem exponent_length_le (e : DecimalText.Exponent) {t : Bytes} (h : e.text <+: t) :
    e.text.length ≤ exponentLength t := by
  obtain ⟨rest, rfl⟩ := h
  have hcount := List.length_pos_iff.mpr e.digits_ne_nil
  have hrun : e.digits.length ≤ runLength Ascii.isDigit (e.digits ++ rest) :=
    length_le_runLength e.isDigit (List.prefix_append _ _)
  simp only [DecimalText.Exponent.text, List.cons_append, List.append_assoc, exponentLength,
    e.mark_eq, beq_self_eq_true, if_true, List.length_cons, List.length_append]
  cases hsign : e.sign with
  | some c =>
    have hsigned : (c == 0x2B || c == 0x2D) = true := by
      rcases e.sign_eq c hsign with rfl | rfl <;> rfl
    simp only [Option.toList_some, List.singleton_append, hsigned, if_true, List.drop_succ_cons,
      List.drop_zero, List.length_singleton]
    split <;> omega
  | none =>
    -- Without a sign the first digit follows the mark at once.
    obtain ⟨c, more, hdigits⟩ := List.exists_cons_of_ne_nil e.digits_ne_nil
    have hc : Ascii.isDigit c = true := e.isDigit c (by simp [hdigits])
    have hsigned : (c == 0x2B || c == 0x2D) = false := by
      simp [Ascii.ne_of_isDigit hc (show (0x2B : UInt8).toNat < 48 ∨ _ by decide),
        Ascii.ne_of_isDigit hc (show (0x2D : UInt8).toNat < 48 ∨ _ by decide)]
    rw [hdigits] at hrun hcount ⊢
    simp only [Option.toList_none, List.nil_append, List.cons_append, hsigned, Bool.false_eq_true,
      if_false, List.drop_zero, List.length_nil] at hrun ⊢
    split <;> omega

theorem tail_length_le (d : DecimalText) {t : Bytes} (h : d.fractionText ++ d.exponentText <+: t) :
    (d.fractionText ++ d.exponentText).length ≤
      fractionLength t + exponentLength (t.drop (fractionLength t)) := by
  unfold DecimalText.fractionText DecimalText.exponentText at *
  cases hfraction : d.fraction with
  | none =>
    cases hexponent : d.exponent with
    | none => exact Nat.zero_le _
    | some e =>
      simp only [hfraction, hexponent, Option.elim_none, Option.elim_some, List.nil_append] at h ⊢
      obtain ⟨c, hc, -, hpoint⟩ := e.head_text
      have hnone : fractionLength t = 0 := by
        obtain ⟨rest, rfl⟩ := h
        obtain ⟨more, hmore⟩ := List.head?_eq_some_iff.mp hc
        simp [hmore, fractionLength, hpoint]
      rw [hnone, List.drop_zero, Nat.zero_add]
      exact exponent_length_le e h
  | some fraction =>
    have hdigits := d.fraction_isDigit fraction hfraction
    simp only [hfraction, Option.elim_some, List.cons_append] at h ⊢
    obtain ⟨rest, rfl⟩ := h
    rw [List.cons_append]
    have hlength (s : Bytes) : fractionLength (0x2E :: s) = runLength Ascii.isDigit s + 1 :=
      Nat.add_comm _ _
    rw [hlength, List.drop_succ_cons, List.length_cons]
    generalize hs : fraction ++ d.exponent.elim [] DecimalText.Exponent.text ++ rest = s
    have hprefix : fraction ++ d.exponent.elim [] DecimalText.Exponent.text <+: s := ⟨rest, hs⟩
    cases hexponent : d.exponent with
    | none =>
      rw [hexponent, Option.elim_none, List.append_nil] at hprefix
      have := length_le_runLength hdigits hprefix
      rw [Option.elim_none, List.append_nil]
      omega
    | some e =>
      rw [hexponent, Option.elim_some] at hprefix
      obtain ⟨c, hc, hdigit, -⟩ := e.head_text
      obtain ⟨hrun, hafter⟩ := run_eq hdigits ⟨c, hc, hdigit⟩ hprefix
      have := exponent_length_le e hafter
      rw [Option.elim_some, List.length_append]
      omega

/-- **No decimal number that the text begins with is longer** than the one that is read. -/
theorem text_length_le (d : DecimalText) {s : Bytes} (h : d.text <+: s) :
    d.text.length ≤ decimalLength s := by
  unfold DecimalText.text at *
  unfold decimalLength
  dsimp only
  by_cases htail : d.fractionText ++ d.exponentText = []
  · rw [htail, List.append_nil] at h ⊢
    have := length_le_runLength d.whole_isDigit h
    omega
  · obtain ⟨hrun, hafter⟩ := run_eq d.whole_isDigit (d.head_tail htail) h
    have := tail_length_le d hafter
    rw [List.drop_drop] at this
    rw [List.length_append]
    omega

/-! ### The value of a text -/

variable {d : DecimalText}

theorem numberOfText_of_digits_nil {s : Bytes} (hd : d.text <+: s) (hs : s.BeginsDecimal)
    (hdigits : d.digits = []) : ∃ cause, numberOfText d.text = .error cause := by
  unfold numberOfText
  split_ifs with hbare
  · exact ⟨_, rfl⟩
  · have hbegins : d.text.BeginsDecimal := by
      obtain ⟨c, hc, hkind⟩ := hs
      obtain ⟨rest, rfl⟩ := hd
      cases htext : d.text with
      | nil => simp [htext] at hbare
      | cons b more => exact ⟨c, by simpa [htext] using hc, hkind⟩
    rw [d.readBinary_of_digits_nil hbegins hdigits]
    exact ⟨_, rfl⟩

theorem numberOfText_of_parses {value : Binary64} (hdigits : d.digits ≠ [])
    (hparses : Reading.Parses d.text value) :
    numberOfText d.text =
      match FiveByte.encode? value with
      | some form => .ok ⟨d.text, form⟩
      | none => .error .largeNumber := by
  have hbare : ¬(d.text.isEmpty || d.text == utf8 ".") = true := by
    obtain ⟨c, rest, hc⟩ := List.exists_cons_of_ne_nil hdigits
    have hmem := d.mem_text_of_mem_digits (c := c) (by simp [hc])
    have hdigit := d.digits_isDigit c (by simp [hc])
    have hpoint : utf8 "." = [0x2E] := rfl
    simp only [Bool.or_eq_true, List.isEmpty_iff, beq_iff_eq]
    rintro (htext | htext)
    · simp [htext] at hmem
    · rw [htext, hpoint, List.mem_singleton] at hmem
      rw [hmem] at hdigit
      cases hdigit
  unfold Reading.Parses at hparses
  rw [numberOfText, if_neg hbare, hparses]
  cases value with
  | finite negative units => rfl
  | infinite negative => rfl
  | nan => rfl

end Literal

/-! ### Steps that read a number -/

namespace Step

/-- The step reads `size` bytes as a number, for which a text and the five bytes of a value are
written. -/
def WritesNumber (step : Step) (size : Nat) (text : Bytes) (value : Binary64) : Prop :=
  ∃ token form, step = .read size [token] (.statement false) ∧ FiveByte.encode? value = some form ∧
    ∀ o constants symbols,
      Emission.tokenBytes o constants symbols token = .ok (text ++ Code.number :: form.bytes)

/-- The step finds a fault behind `size` bytes. -/
def FailsAt (step : Step) (size : Nat) : Prop := ∃ cause, step = .fail size cause

/-- Behind `before` bytes the step reads all digits of a base that come next. They are written in
decimal; it fails if there are none or if they do not fit a word. -/
def ReadsDigits (step : Step) (base : Nat) (isDigit : UInt8 → Bool) (before : Nat) (rest : Bytes) :
    Prop :=
  let digits := rest.takeWhile isDigit
  let n := Bytes.numeral base digits
  (digits ≠ [] ∧ n ≤ 0xFFFF →
    step.WritesNumber (before + digits.length) (Bytes.decimal n) (Binary.ofInt n)) ∧
  (¬(digits ≠ [] ∧ n ≤ 0xFFFF) → step.FailsAt (before + digits.length))

/-- Behind `before` bytes the step reads the longest decimal number that comes next, and writes it as
it stands. It fails if no digit stands in front of the exponent or if the number that is read from the
text has no five bytes. -/
def ReadsDecimal (step : Step) (before : Nat) (s : Bytes) : Prop :=
  ∃ d : DecimalText, d.text <+: s ∧
    (∀ other : DecimalText, other.text <+: s → other.text.length ≤ d.text.length) ∧
    (d.digits = [] → step.FailsAt (before + d.text.length)) ∧
    (d.digits ≠ [] → ∃ value, Reading.Parses d.text value ∧
      (d.Moderate → Binary.IsRounding d.value value) ∧
      (FiveByte.encode? value ≠ none → step.WritesNumber (before + d.text.length) d.text value) ∧
      (FiveByte.encode? value = none → step.FailsAt (before + d.text.length)))

theorem writesNumber_ofRead (before : Nat) {size : Nat} {text : Bytes} {value : Binary64}
    {form : FiveByte} (hform : FiveByte.encode? value = some form) :
    (Step.ofRead before .number ⟨size, .ok ⟨text, form⟩⟩).WritesNumber (before + size) text value :=
  ⟨.number ⟨text, form⟩, form, rfl, hform, fun _ _ _ => rfl⟩

theorem failsAt_ofRead (before size : Nat) (cause : Cause) :
    (Step.ofRead before Token.number ⟨size, .error cause⟩).FailsAt (before + size) := ⟨cause, rfl⟩

theorem readsDigits_readDigits {base : Nat} {isDigit : UInt8 → Bool} {empty large : Cause}
    (before skipped : Nat) (s : Bytes) :
    (Step.ofRead before .number
      (Literal.readDigits base isDigit empty large skipped s)).ReadsDigits base isDigit
        (before + skipped) (s.drop skipped) := by
  unfold Literal.readDigits ReadsDigits
  dsimp only
  generalize (s.drop skipped).takeWhile isDigit = digits
  rw [Nat.add_assoc, ← Bytes.valueOfDigits_eq_numeral]
  unfold Literal.numberOfDigits
  dsimp only
  by_cases hempty : digits = []
  · rw [if_pos (by simp [hempty])]
    exact ⟨fun h => absurd hempty h.1, fun _ => failsAt_ofRead _ _ _⟩
  · rw [if_neg (by simp [hempty])]
    by_cases hlarge : 0xFFFF < Bytes.valueOfDigits base digits
    · rw [if_pos hlarge]
      exact ⟨fun h => absurd h.2 (by omega), fun _ => failsAt_ofRead _ _ _⟩
    · have hform := FiveByte.encode?_ofInt (Nat.not_lt.mp hlarge)
      rw [if_neg hlarge, Literal.numberOf, hform]
      exact ⟨fun _ => writesNumber_ofRead _ hform, fun h => absurd ⟨hempty, by omega⟩ h⟩

theorem readsDecimal_readDecimal (before : Nat) {s : Bytes} (hs : s.BeginsDecimal) :
    (Step.ofRead before .number (Literal.readDecimal s)).ReadsDecimal before s := by
  obtain ⟨d, hd⟩ := Literal.exists_decimalText s
  have hprefix : d.text <+: s := by
    rw [← hd]
    exact List.take_prefix _ _
  have hlength : Literal.decimalLength s = d.text.length := by
    rw [← hd, List.length_take, Nat.min_eq_left (Literal.decimalLength_le s)]
  unfold Literal.readDecimal ReadsDecimal
  dsimp only
  rw [hd, hlength]
  refine ⟨d, hprefix, fun other hother => ?_, fun hdigits => ?_, fun hdigits => ?_⟩
  · rw [← hlength]
    exact Literal.text_length_le other hother
  · obtain ⟨cause, hcause⟩ := Literal.numberOfText_of_digits_nil hprefix hs hdigits
    rw [hcause]
    exact failsAt_ofRead before _ cause
  · obtain ⟨value, hparses, hrounding⟩ := d.exists_parses hdigits
    rw [Literal.numberOfText_of_parses hdigits hparses]
    refine ⟨value, hparses, hrounding, fun hform => ?_, fun hform => ?_⟩
    · obtain ⟨form, hform⟩ := Option.ne_none_iff_exists'.mp hform
      rw [hform]
      exact writesNumber_ofRead before hform
    · rw [hform]
      exact failsAt_ofRead before _ _

end Step

/-! ### Numbers in a statement -/

/-- The marks of hexadecimal and of binary digits. -/
def hexMarks : List UInt8 := [0x78, 0x58]

def binaryMarks : List UInt8 := [0x62, 0x42]

/-- The text begins with a byte and one of the marks, and goes on with `rest`. -/
def Marked (first : UInt8) (marks : List UInt8) (s rest : Bytes) : Prop :=
  ∃ mark ∈ marks, s = first :: mark :: rest

theorem Marked.drop_two {first : UInt8} {marks : List UInt8} {s rest : Bytes}
    (h : Marked first marks s rest) : s.drop 2 = rest := by
  obtain ⟨mark, -, rfl⟩ := h
  rfl

theorem mem_hexMarks_iff {mark : UInt8} : mark ∈ hexMarks ↔ Ascii.toLower mark = 0x78 := by
  have h : (Ascii.toLower mark == 0x78) = (mark == 0x78 || mark == 0x58) :=
    toLower_beq (by decide) mark
  rw [← beq_iff_eq (a := Ascii.toLower mark), h]
  simp [hexMarks]

theorem mem_binaryMarks_iff {mark : UInt8} : mark ∈ binaryMarks ↔ Ascii.toLower mark = 0x62 := by
  have h : (Ascii.toLower mark == 0x62) = (mark == 0x62 || mark == 0x42) :=
    toLower_beq (by decide) mark
  rw [← beq_iff_eq (a := Ascii.toLower mark), h]
  simp [binaryMarks]

namespace Literal

variable {binary : Bool} {first : UInt8} {s rest : Bytes}

/-- In binary mode the first byte does not matter. -/
theorem readNumber_hex (hfirst : first = 0x30 ∨ binary = true) (h : Marked first hexMarks s rest) :
    readNumber binary s =
      readDigits 16 Ascii.isHexDigit .emptyHexadecimal .largeHexadecimal 2 s := by
  obtain ⟨mark, hmark, rfl⟩ := h
  rw [mem_hexMarks_iff] at hmark
  simp [readNumber, hmark, hfirst]

theorem readNumber_binary (h : Marked 0x30 binaryMarks s rest) :
    readNumber binary s = readDigits 2 Ascii.isBinaryDigit .emptyBinary .largeBinary 2 s := by
  obtain ⟨mark, hmark, rfl⟩ := h
  rw [mem_binaryMarks_iff] at hmark
  simp [readNumber, hmark]

theorem readNumber_unmarked
    (hhex : ∀ first rest, first = 0x30 ∨ binary = true → ¬Marked first hexMarks s rest)
    (hbinary : ∀ rest, ¬Marked 0x30 binaryMarks s rest) :
    readNumber binary s =
      if binary then readDigits 2 Ascii.isBinaryDigit .emptyBinary .largeBinary 0 s
      else readDecimal s := by
  have hnone : Ascii.toLower 0 ≠ 0x78 ∧ Ascii.toLower 0 ≠ 0x62 := by decide
  match s with
  | [] => simp [readNumber, hnone]
  | [c] => simp [readNumber, hnone]
  | first :: mark :: rest =>
    have hx : first = 0x30 ∨ binary = true → Ascii.toLower mark ≠ 0x78 := fun hfirst hmark =>
      hhex first rest hfirst ⟨mark, mem_hexMarks_iff.mpr hmark, rfl⟩
    have hb : first = 0x30 → Ascii.toLower mark ≠ 0x62 := by
      rintro rfl hmark
      exact hbinary rest ⟨mark, mem_binaryMarks_iff.mpr hmark, rfl⟩
    have hhexTest : ¬((first == 0x30 || binary) && Ascii.toLower mark == 0x78) = true := by
      simpa using hx
    have hbinaryTest : ¬(first == 0x30 && Ascii.toLower mark == 0x62) = true := by
      simpa using hb
    simp only [readNumber, List.head?_cons, Option.some_beq_some, List.drop_one, List.tail_cons,
      Option.getD_some]
    rw [if_neg hhexTest, if_neg hbinaryTest]

end Literal

namespace Lexer

theorem statementStep_of_beginsDecimal (v : Vocabulary) {s : Bytes} (hs : s.BeginsDecimal) :
    statementStep v false s = .ofRead 0 .number (Literal.readNumber false s) := by
  have hdigit : ∀ c : UInt8, Ascii.isDigit c = true →
      Ascii.isSpace c = false ∧ c ≠ 0x23 ∧ c ≠ Ascii.backslash ∧ c ≠ 0x40 := by
    decide +kernel
  obtain ⟨c, rest, rfl, hc | rfl⟩ := hs.eq_cons
  · obtain ⟨hspace, hcomment, hescape, hsymbol⟩ := hdigit c hc
    simp [statementStep, hspace, hcomment, hescape, hsymbol, hc]
  · rfl

/-- **What a digit or a point begins is read as the number it is**: all hexadecimal digits behind `0x`,
all binary digits behind `0b`, else the longest decimal number. -/
theorem statementStep_number (v : Vocabulary) {s : Bytes} (hs : s.BeginsDecimal) :
    let step := statementStep v false s
    (∀ rest, Marked 0x30 hexMarks s rest → step.ReadsDigits 16 Ascii.isHexDigit 2 rest) ∧
    (∀ rest, Marked 0x30 binaryMarks s rest → step.ReadsDigits 2 Ascii.isBinaryDigit 2 rest) ∧
    ((∀ rest, ¬Marked 0x30 (hexMarks ++ binaryMarks) s rest) → step.ReadsDecimal 0 s) := by
  intro step
  have hstep : step = .ofRead 0 .number (Literal.readNumber false s) :=
    statementStep_of_beginsDecimal v hs
  refine ⟨fun rest h => ?_, fun rest h => ?_, fun h => ?_⟩
  · rw [hstep, Literal.readNumber_hex (Or.inl rfl) h, ← h.drop_two]
    exact Step.readsDigits_readDigits 0 2 s
  · rw [hstep, Literal.readNumber_binary h, ← h.drop_two]
    exact Step.readsDigits_readDigits 0 2 s
  · rw [hstep, Literal.readNumber_unmarked, if_neg Bool.false_ne_true]
    · exact Step.readsDecimal_readDecimal 0 hs
    · rintro first rest (rfl | hfalse) ⟨mark, hmark, hs⟩
      · exact h rest ⟨mark, List.mem_append_left _ hmark, hs⟩
      · cases hfalse
    · rintro rest ⟨mark, hmark, hs⟩
      exact h rest ⟨mark, List.mem_append_right _ hmark, hs⟩

theorem statementStep_number_paddedHex :
    let s := utf8 "0X0000FFg"
    s.BeginsDecimal ∧ Marked 0x30 hexMarks s (utf8 "0000FFg") ∧
      (statementStep (.ofDialect .k48) false s).WritesNumber 8 (utf8 "255") (Binary.ofInt 255) := by
  intro s
  have hs : s.BeginsDecimal := ⟨0x30, rfl, Or.inl rfl⟩
  have hmarked : Marked 0x30 hexMarks s (utf8 "0000FFg") := ⟨0x58, by decide, rfl⟩
  have hread := ((statementStep_number (.ofDialect .k48) hs).1 _ hmarked).1 (by decide)
  exact ⟨hs, hmarked, hread⟩

/-! ### Numbers behind `BIN` -/

theorem statementStep_of_bin {dialect : Dialect} {s : Bytes} {found : Spelling.Found}
    (hfound : (Vocabulary.ofDialect dialect).findKeyword? s = some found)
    (hcode : found.code = Code.bin) :
    statementStep (.ofDialect dialect) false s =
      .ofRead (found.size + (found.rest.takeWhile Ascii.isSpace).length) .number
        (Literal.readNumber true (found.rest.dropWhile Ascii.isSpace)) := by
  rw [statementStep_of_spelled Vocabulary.isOnlySpelling_bin (by decide) hfound hcode, wordStep,
    hfound, ← Literal.drop_runLength]
  simp [keywordStep, hcode, Literal.runLength]

/-- **What follows `BIN` and blanks is read as binary digits**, behind their mark or without it. If its
second byte is the mark of hexadecimal digits, these are read instead, and the first byte is skipped
whatever it is. -/
theorem statementStep_bin {dialect : Dialect} {s : Bytes} {found : Spelling.Found}
    (hfound : (Vocabulary.ofDialect dialect).findKeyword? s = some found)
    (hcode : found.code = Code.bin) :
    let step := statementStep (.ofDialect dialect) false s
    let before := found.size + (found.rest.takeWhile Ascii.isSpace).length
    let text := found.rest.dropWhile Ascii.isSpace
    (∀ rest, Marked 0x30 binaryMarks text rest →
      step.ReadsDigits 2 Ascii.isBinaryDigit (before + 2) rest) ∧
    ((∀ first rest, ¬Marked first hexMarks text rest) →
      (∀ rest, ¬Marked 0x30 binaryMarks text rest) →
        step.ReadsDigits 2 Ascii.isBinaryDigit before text) ∧
    ∀ first rest, Marked first hexMarks text rest →
      step.ReadsDigits 16 Ascii.isHexDigit (before + 2) rest := by
  intro step before text
  have hstep : step = .ofRead before .number (Literal.readNumber true text) :=
    statementStep_of_bin hfound hcode
  refine ⟨fun rest h => ?_, fun hhex hbinary => ?_, fun first rest h => ?_⟩
  · rw [hstep, Literal.readNumber_binary h, ← h.drop_two]
    exact Step.readsDigits_readDigits before 2 text
  · rw [hstep, Literal.readNumber_unmarked (fun first rest _ => hhex first rest) hbinary, if_pos rfl]
    exact Step.readsDigits_readDigits before 0 text
  · rw [hstep, Literal.readNumber_hex (Or.inr rfl) h, ← h.drop_two]
    exact Step.readsDigits_readDigits before 2 text

theorem statementStep_bin_padded :
    let s := utf8 "bin  0B00101"
    let found : Spelling.Found := ⟨Code.bin, 3, utf8 "  0B00101"⟩
    (Vocabulary.ofDialect .k48).findKeyword? s = some found ∧ found.code = Code.bin ∧
      (statementStep (.ofDialect .k48) false s).WritesNumber 12 (utf8 "5") (Binary.ofInt 5) := by
  intro s found
  have hfound : (Vocabulary.ofDialect .k48).findKeyword? s = some found := by
    rw [Vocabulary.ofDialect_eq]
    decide +kernel
  have hmarked : Marked 0x30 binaryMarks (utf8 "0B00101") (utf8 "00101") := ⟨0x42, by decide, rfl⟩
  have hread := ((statementStep_bin hfound rfl).1 _ hmarked).1 (by decide)
  exact ⟨hfound, rfl, hread⟩

/-- There is no binary digit behind this `BIN`, yet a number is read: two bytes are skipped. -/
theorem statementStep_bin_strayByte :
    let s := utf8 "BIN zxFF"
    let text := utf8 "zxFF"
    (Vocabulary.ofDialect .k48).findKeyword? s = some ⟨Code.bin, 3, 0x20 :: text⟩ ∧
      (∀ rest, ¬Marked 0x30 binaryMarks text rest) ∧ text.takeWhile Ascii.isBinaryDigit = [] ∧
      (statementStep (.ofDialect .k48) false s).WritesNumber 8 (utf8 "255") (Binary.ofInt 255) := by
  intro s text
  have hfound : (Vocabulary.ofDialect .k48).findKeyword? s = some ⟨Code.bin, 3, 0x20 :: text⟩ := by
    rw [Vocabulary.ofDialect_eq]
    decide +kernel
  have hmarked : Marked 0x7A hexMarks text (utf8 "FF") := ⟨0x78, by decide, rfl⟩
  refine ⟨hfound, ?_, rfl, ?_⟩
  · rintro rest ⟨mark, -, htext⟩
    exact absurd (List.cons.inj htext).1 (by decide)
  · rw [statementStep_of_bin hfound rfl]
    have hdigits : (Step.ofRead 4 .number (Literal.readNumber true text)).ReadsDigits 16
        Ascii.isHexDigit 6 (utf8 "FF") := by
      rw [Literal.readNumber_hex (Or.inr rfl) hmarked, ← hmarked.drop_two]
      exact Step.readsDigits_readDigits 4 2 text
    exact hdigits.1 (by decide)

end Lexer

end Basic

end SpectrumTape
