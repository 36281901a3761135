import SpectrumTape.Number.Reading
import Mathlib.Data.FinEnum
import Mathlib.Data.List.TakeWhile
import Mathlib.Tactic.Common

/-!
# How decimal numbers are written

A decimal number is written as digits, a point with further digits and an exponent, and every part
may be missing. What is read from such a text are the digits of the mantissa as one number and the
power of ten that the exponent and the digits behind the point make; without a digit in the mantissa
the text is no number (`DecimalText.exists_readWritten?`).

Numbers are also read in other forms. Whichever it is, only letters, digits and a few other bytes can
stand in it (`Reading.isNumeric_of_readBinary`).
-/

namespace SpectrumTape

/-! ### Digits -/

namespace Ascii

theorem isDigit_iff {c : UInt8} : isDigit c = true ↔ 48 ≤ c.toNat ∧ c.toNat ≤ 57 := by
  simp [isDigit, UInt8.le_iff_toNat_le]

theorem toLower_of_isDigit {c : UInt8} (hc : isDigit c = true) : toLower c = c := by
  obtain ⟨hmin, hmax⟩ := isDigit_iff.mp hc
  have hupper : isUpper c = false := by
    simp only [isUpper, Bool.and_eq_false_iff, decide_eq_false_iff_not, UInt8.le_iff_toNat_le,
      UInt8.reduceToNat]
    omega
  rw [toLower, hupper]
  rfl

theorem digitValue_of_isDigit {c : UInt8} (hc : isDigit c = true) :
    digitValue c = c.toNat - 48 := by
  rw [digitValue, if_pos hc]

theorem digitValue_lt {c : UInt8} (hc : isDigit c = true) : digitValue c < 10 := by
  have := isDigit_iff.mp hc
  rw [digitValue_of_isDigit hc]
  omega

theorem ne_of_isDigit {c d : UInt8} (hc : isDigit c = true) (hd : d.toNat < 48 ∨ 57 < d.toNat) :
    c ≠ d := by
  rintro rfl
  have := isDigit_iff.mp hc
  omega

/-- A byte that a decimal number may be written with. -/
def isDecimalByte (c : UInt8) : Bool :=
  isDigit c || c == 0x2E || toLower c == 0x65 || c == 0x2B || c == 0x2D

theorem isDecimalByte_of_isDigit {c : UInt8} (hc : isDigit c = true) : isDecimalByte c = true := by
  simp [isDecimalByte, hc]

theorem of_toLower_eq_mark {c : UInt8} (hc : toLower c = 0x65) :
    c ≠ 0x5F ∧ c ≠ 0x2E ∧ isDigit c = false ∧ Numeral.isDigitOf 10 c = false := by
  have hdigit : isDigit c = false := by
    rw [Bool.eq_false_iff]
    intro hdigit
    rw [toLower_of_isDigit hdigit] at hc
    exact ne_of_isDigit hdigit (by decide) hc
  have hvalue (hhex : isHexDigit c = true) : digitValue c = 14 := by
    rw [digitValue, if_neg (by simp [hdigit]), if_pos hhex, hc]
    rfl
  refine ⟨?_, ?_, hdigit, ?_⟩
  · rintro rfl
    exact absurd hc (by decide)
  · rintro rfl
    exact absurd hc (by decide)
  · cases hhex : isHexDigit c with
    | false => simp [Numeral.isDigitOf, hhex]
    | true => simp [Numeral.isDigitOf, hvalue hhex]

theorem not_underscore_of_isDecimalByte {c : UInt8} (hc : isDecimalByte c = true) : c ≠ 0x5F := by
  rintro rfl
  cases hc

theorem not_mark_of_isDecimalByte {c : UInt8} (hc : isDecimalByte c = true) :
    toLower c ≠ 0x62 ∧ toLower c ≠ 0x6F ∧ toLower c ≠ 0x78 := by
  simp only [isDecimalByte, Bool.or_eq_true, beq_iff_eq] at hc
  rcases hc with (((hdigit | rfl) | hmark) | rfl) | rfl
  · rw [toLower_of_isDigit hdigit]
    exact ⟨ne_of_isDigit hdigit (by decide), ne_of_isDigit hdigit (by decide),
      ne_of_isDigit hdigit (by decide)⟩
  · decide
  · rw [hmark]
    decide
  · decide
  · decide

end Ascii

namespace Bytes

theorem valueOfDigits_append (base : Nat) (s t : Bytes) :
    valueOfDigits base (s ++ t) =
      t.foldl (fun n c => n * base + Ascii.digitValue c) (valueOfDigits base s) :=
  List.foldl_append

/-- The text begins with a digit or a point. -/
def BeginsDecimal (s : Bytes) : Prop := ∃ c ∈ s.head?, Ascii.isDigit c = true ∨ c = 0x2E

theorem BeginsDecimal.eq_cons {s : Bytes} (h : BeginsDecimal s) :
    ∃ c rest, s = c :: rest ∧ (Ascii.isDigit c = true ∨ c = 0x2E) := by
  obtain ⟨c, hc, hkind⟩ := h
  obtain ⟨rest, rfl⟩ := List.head?_eq_some_iff.mp hc
  exact ⟨c, rest, rfl, hkind⟩

end Bytes

namespace Reading

/-! ### Texts of decimal numbers -/

section Plain

variable {s : Bytes}

theorem splitSign_of_ne {c : UInt8} {rest : Bytes} (hplus : c ≠ 0x2B) (hminus : c ≠ 0x2D) :
    Numeral.splitSign (c :: rest) = (false, c :: rest) := by
  unfold Numeral.splitSign
  split
  · rename_i heq
    exact absurd (List.cons.inj heq).1 hplus
  · rename_i heq
    exact absurd (List.cons.inj heq).1 hminus
  · rfl

theorem splitSign_of_beginsDecimal (hs : s.BeginsDecimal) : Numeral.splitSign s = (false, s) := by
  obtain ⟨c, rest, rfl, hc | rfl⟩ := hs.eq_cons
  · exact splitSign_of_ne (Ascii.ne_of_isDigit hc (by decide)) (Ascii.ne_of_isDigit hc (by decide))
  · exact splitSign_of_ne (by decide) (by decide)

theorem readWord?_of_beginsDecimal (f : Binary.Format) (hs : s.BeginsDecimal) :
    readWord? f s = none := by
  have hlower : Bytes.BeginsDecimal (s.map Ascii.toLower) := by
    obtain ⟨c, rest, rfl, hc | rfl⟩ := hs.eq_cons
    · exact ⟨c, by simp [Ascii.toLower_of_isDigit hc], Or.inl hc⟩
    · exact ⟨0x2E, rfl, Or.inr rfl⟩
  have hword {w : Bytes} (hw : w.head?.any (fun c => !Ascii.isDigit c && c != 0x2E) = true) :
      (s.map Ascii.toLower == w) = false := by
    rw [beq_eq_false_iff_ne]
    rintro rfl
    obtain ⟨c, hc, hkind⟩ := hlower
    rw [Option.mem_def.mp hc] at hw
    rcases hkind with hkind | rfl
    · simp [hkind] at hw
    · cases hw
  have hinf : (s.map Ascii.toLower == utf8 "inf") = false := hword (by decide)
  have hinfinity : (s.map Ascii.toLower == utf8 "infinity") = false := hword (by decide)
  have hnan : (s.map Ascii.toLower == utf8 "nan") = false := hword (by decide)
  simp [readWord?, splitSign_of_beginsDecimal hlower, hinf, hinfinity, hnan]

variable (hs : ∀ c ∈ s, Ascii.isDecimalByte c = true)
include hs

theorem hexBody?_of_isDecimalByte : hexBody? s = none := by
  unfold hexBody?
  split
  · rename_i x c rest
    rw [if_neg]
    rw [beq_iff_eq]
    exact (Ascii.not_mark_of_isDecimalByte (hs x (by simp))).2.2
  · rfl

theorem baseMark?_of_isDecimalByte : baseMark? s = none := by
  unfold baseMark?
  split
  · rename_i c rest
    obtain ⟨hb, ho, hx⟩ := Ascii.not_mark_of_isDecimalByte (hs c (by simp))
    rw [if_neg]
    simp [hb, ho, hx]
  · rfl

theorem underscoresFrom_of_isDecimalByte (before : Before) (hbefore : before ≠ .underscore) :
    underscoresFrom false before s = true := by
  induction s generalizing before with
  | nil => simpa [underscoresFrom] using hbefore
  | cons c s ih =>
    obtain ⟨hc, hs⟩ := List.forall_mem_cons.mp hs
    have hunderscore := Ascii.not_underscore_of_isDecimalByte hc
    rw [underscoresFrom]
    by_cases hdigit : Ascii.isDigit c = true
    · rw [if_pos (by simp [hdigit])]
      exact ih hs .digit (by decide)
    · rw [if_neg (by simpa using hdigit), if_neg (by simpa using hunderscore), ih hs .other (by decide)]
      simpa using hbefore

theorem underscoresFit_of_isDecimalByte : underscoresFit s = true := by
  rw [underscoresFit, baseMark?_of_isDecimalByte hs]
  exact underscoresFrom_of_isDecimalByte hs .start (by decide)

end Plain

/-! ### Runs of digits -/

/-- The digits read behind a run of further ones. -/
def Digits.pushAll (d : Digits) (s : Bytes) : Digits :=
  s.foldl (fun d c => d.push 10 (Ascii.digitValue c)) d

namespace Digits

theorem pushAll_cons (d : Digits) (c : UInt8) (s : Bytes) :
    d.pushAll (c :: s) = (d.push 10 (Ascii.digitValue c)).pushAll s := rfl

theorem pushAll_value (d : Digits) (s : Bytes) :
    (d.pushAll s).value = s.foldl (fun n c => n * 10 + Ascii.digitValue c) d.value := by
  induction s generalizing d with
  | nil => rfl
  | cons c s ih => exact ih _

theorem pushAll_afterPoint (d : Digits) (s : Bytes) :
    (d.pushAll s).afterPoint = d.afterPoint + if d.point then s.length else 0 := by
  induction s generalizing d with
  | nil => simp [pushAll]
  | cons c s ih =>
    rw [pushAll_cons, ih]
    by_cases hpoint : d.point = true
    · simp only [push, hpoint, if_true, List.length_cons]
      omega
    · simp [push, hpoint]

theorem pushAll_any (d : Digits) (s : Bytes) : (d.pushAll s).any = (d.any || !s.isEmpty) := by
  induction s generalizing d with
  | nil => simp [pushAll]
  | cons c s ih =>
    rw [pushAll_cons, ih]
    simp [push]

theorem pushAll_point (d : Digits) (s : Bytes) : (d.pushAll s).point = d.point := by
  induction s generalizing d with
  | nil => rfl
  | cons c s ih => exact ih _

/-- The value has no more digits than count, and no more count than were read. -/
def Counted (d : Digits) (read : Nat) : Prop := d.value < 10 ^ d.significant ∧ d.significant ≤ read

theorem Counted.push {d : Digits} {read digit : Nat} (h : d.Counted read) (hdigit : digit < 10) :
    (d.push 10 digit).Counted (read + 1) := by
  obtain ⟨hvalue, hread⟩ := h
  have hpow : 10 ^ (d.significant + 1) = 10 ^ d.significant * 10 := pow_succ ..
  simp only [Counted, Digits.push, Bool.and_eq_true, beq_iff_eq]
  split_ifs with hzero
  · rw [hzero.1, hzero.2]
    exact ⟨Nat.pow_pos (by decide), by omega⟩
  · omega

theorem Counted.pushAll {d : Digits} {read : Nat} (h : d.Counted read) {s : Bytes}
    (hs : ∀ c ∈ s, Ascii.isDigit c = true) : (d.pushAll s).Counted (read + s.length) := by
  induction s generalizing d read with
  | nil => exact h
  | cons c s ih =>
    obtain ⟨hc, hs⟩ := List.forall_mem_cons.mp hs
    rw [pushAll_cons, List.length_cons, Nat.add_comm s.length, ← Nat.add_assoc]
    exact ih (h.push (Ascii.digitValue_lt hc)) hs

end Digits

theorem readDigits_run {s : Bytes} (hs : ∀ c ∈ s, Ascii.isDigit c = true) (d : Digits)
    (rest : Bytes) : readDigits 10 d (s ++ rest) = readDigits 10 (d.pushAll s) rest := by
  induction s generalizing d with
  | nil => rfl
  | cons c s ih =>
    obtain ⟨hc, hs⟩ := List.forall_mem_cons.mp hs
    have hunderscore : ¬(c == 0x5F) = true := by
      simpa using Ascii.ne_of_isDigit hc (by decide)
    have hpoint : ¬(c == 0x2E && !d.point) = true := by
      simp [Ascii.ne_of_isDigit hc (show (0x2E : UInt8).toNat < 48 ∨ _ by decide)]
    have hdigit : Numeral.isDigitOf 10 c = true := by
      simp [Numeral.isDigitOf, Ascii.isHexDigit, hc, Ascii.digitValue_lt hc]
    rw [List.cons_append, readDigits, if_neg hunderscore, if_neg hpoint, if_pos hdigit]
    exact ih hs _

end Reading

/-! ### The parts of a decimal number -/

/-- An exponent: its mark, a sign if there is one, and at least one digit. -/
structure DecimalText.Exponent where
  mark : UInt8
  sign : Option UInt8
  digits : Bytes
  mark_eq : Ascii.toLower mark = 0x65
  sign_eq : ∀ c ∈ sign, c = 0x2B ∨ c = 0x2D
  digits_ne_nil : digits ≠ []
  isDigit : ∀ c ∈ digits, Ascii.isDigit c = true

/-- A decimal number as it is written. Digits may be missing before the point and behind it. -/
structure DecimalText where
  whole : Bytes
  fraction : Option Bytes
  exponent : Option DecimalText.Exponent
  whole_isDigit : ∀ c ∈ whole, Ascii.isDigit c = true
  fraction_isDigit : ∀ digits ∈ fraction, ∀ c ∈ digits, Ascii.isDigit c = true

namespace DecimalText

namespace Exponent

def text (e : Exponent) : Bytes := e.mark :: (e.sign.toList ++ e.digits)

def negative (e : Exponent) : Bool := e.sign == some 0x2D

theorem isDecimalByte (e : Exponent) : ∀ c ∈ e.text, Ascii.isDecimalByte c = true := by
  intro c hc
  simp only [text, List.mem_cons, List.mem_append, Option.mem_toList] at hc
  rcases hc with rfl | hc | hc
  · simp [Ascii.isDecimalByte, e.mark_eq]
  · rcases e.sign_eq c hc with rfl | rfl <;> rfl
  · exact Ascii.isDecimalByte_of_isDigit (e.isDigit c hc)

end Exponent

def fractionText (d : DecimalText) : Bytes := d.fraction.elim [] (0x2E :: ·)

def exponentText (d : DecimalText) : Bytes := d.exponent.elim [] Exponent.text

def text (d : DecimalText) : Bytes := d.whole ++ (d.fractionText ++ d.exponentText)

def digits (d : DecimalText) : Bytes := d.whole ++ d.fraction.getD []

def places (d : DecimalText) : Nat := (d.fraction.getD []).length

variable (d : DecimalText)

theorem digits_isDigit : ∀ c ∈ d.digits, Ascii.isDigit c = true := by
  intro c hc
  rcases List.mem_append.mp hc with hc | hc
  · exact d.whole_isDigit c hc
  · cases hfraction : d.fraction with
    | none => simp [hfraction] at hc
    | some fraction => exact d.fraction_isDigit fraction hfraction c (by simpa [hfraction] using hc)

theorem isDecimalByte : ∀ c ∈ d.text, Ascii.isDecimalByte c = true := by
  intro c hc
  simp only [text, List.mem_append] at hc
  rcases hc with hc | hc | hc
  · exact Ascii.isDecimalByte_of_isDigit (d.whole_isDigit c hc)
  · cases hfraction : d.fraction with
    | none => simp [fractionText, hfraction] at hc
    | some fraction =>
      simp only [fractionText, hfraction, Option.elim_some, List.mem_cons] at hc
      rcases hc with rfl | hc
      · rfl
      · exact Ascii.isDecimalByte_of_isDigit (d.fraction_isDigit fraction hfraction c hc)
  · cases hexponent : d.exponent with
    | none => simp [exponentText, hexponent] at hc
    | some e => exact e.isDecimalByte c (by simpa [exponentText, hexponent] using hc)

theorem beginsDecimal (h : d.digits ≠ []) : d.text.BeginsDecimal := by
  unfold text digits at *
  cases hwhole : d.whole with
  | cons c whole => exact ⟨c, rfl, Or.inl (d.whole_isDigit c (by simp [hwhole]))⟩
  | nil =>
    cases hfraction : d.fraction with
    | none => simp [hwhole, hfraction] at h
    | some fraction => exact ⟨0x2E, by simp [fractionText, hfraction], Or.inr rfl⟩

/-! ### Reading -/

theorem readDigits_exponentText (read : Reading.Digits) :
    Reading.readDigits 10 read d.exponentText = (read, d.exponentText) := by
  unfold exponentText
  cases d.exponent with
  | none => rfl
  | some e =>
    obtain ⟨hunderscore, hpoint, -, hdigit⟩ := Ascii.of_toLower_eq_mark e.mark_eq
    rw [Option.elim_some, Exponent.text, Reading.readDigits, if_neg (by simpa using hunderscore),
      if_neg (by simp [hpoint]), if_neg (by simp [hdigit])]

theorem readDigits_text :
    ∃ read, Reading.readDigits 10 {} d.text = (read, d.exponentText) ∧
      read.value = Bytes.valueOfDigits 10 d.digits ∧ read.afterPoint = d.places ∧
      read.any = !d.digits.isEmpty ∧ read.Counted d.digits.length := by
  have hstart : Reading.Digits.Counted {} 0 := ⟨by decide, Nat.le_refl 0⟩
  have hwhole := hstart.pushAll d.whole_isDigit
  rw [Nat.zero_add] at hwhole
  unfold text digits places fractionText
  rw [Reading.readDigits_run d.whole_isDigit]
  cases hfraction : d.fraction with
  | none =>
    refine ⟨_, d.readDigits_exponentText _, ?_, ?_, ?_, ?_⟩
    · simp [Reading.Digits.pushAll_value, Bytes.valueOfDigits]
    · simp [Reading.Digits.pushAll_afterPoint]
    · simp [Reading.Digits.pushAll_any]
    · simpa using hwhole
  | some fraction =>
    have hdigits := d.fraction_isDigit fraction hfraction
    generalize hread : Reading.Digits.pushAll {} d.whole = read at hwhole
    have hpoint : ∀ rest, Reading.readDigits 10 read (0x2E :: rest) =
        Reading.readDigits 10 { read with point := true } rest := by
      intro rest
      have hnone : read.point = false := by rw [← hread, Reading.Digits.pushAll_point]
      rw [Reading.readDigits, if_neg (by decide), if_pos (by simp [hnone])]
    rw [Option.elim_some, List.cons_append, hpoint, Reading.readDigits_run hdigits]
    refine ⟨_, d.readDigits_exponentText _, ?_, ?_, ?_, ?_⟩
    · rw [Reading.Digits.pushAll_value, ← hread, Reading.Digits.pushAll_value,
        Bytes.valueOfDigits_append]
      rfl
    · simp [Reading.Digits.pushAll_afterPoint, ← hread]
    · rw [Reading.Digits.pushAll_any, ← hread, Reading.Digits.pushAll_any]
      cases d.whole <;> rfl
    · rw [Option.getD_some, List.length_append]
      exact Reading.Digits.Counted.pushAll (d := { read with point := true }) hwhole hdigits

def Exponent.read (e : Exponent) : Int :=
  if e.negative then -(Reading.exponentValue e.digits : Int) else Reading.exponentValue e.digits

theorem readExponent?_eq (e : Exponent) :
    Reading.readExponent? (e.sign.toList ++ e.digits) = some (e.read, []) := by
  have hinside : ∀ c ∈ e.digits, (Ascii.isDigit c || c == 0x5F) = true := by
    intro c hc
    simp [e.isDigit c hc]
  have htake := List.takeWhile_eq_self_iff.mpr hinside
  have hdrop := List.dropWhile_eq_nil_iff.mpr hinside
  have hsplit : Numeral.splitSign (e.sign.toList ++ e.digits) = (e.negative, e.digits) := by
    unfold Exponent.negative
    cases hsign : e.sign with
    | none =>
      obtain ⟨c, rest, hdigits⟩ := List.exists_cons_of_ne_nil e.digits_ne_nil
      have hc := e.isDigit c (by simp [hdigits])
      rw [hdigits]
      exact Reading.splitSign_of_ne (Ascii.ne_of_isDigit hc (by decide))
        (Ascii.ne_of_isDigit hc (by decide))
    | some c => rcases e.sign_eq c hsign with rfl | rfl <;> rfl
  unfold Reading.readExponent?
  rw [hsplit]
  dsimp only
  rw [htake, hdrop]
  split
  · rename_i hnil
    exact absurd hnil e.digits_ne_nil
  · rename_i c rest hdigits
    rw [if_pos (e.isDigit c (by simp [hdigits]))]
    rfl

/-- The power of ten as it is read: the exponent less the digits behind the point. -/
def readPower (d : DecimalText) : Int := d.exponent.elim 0 Exponent.read - d.places

theorem exists_readWritten? (h : d.text.BeginsDecimal) :
    ∃ significant, Bytes.valueOfDigits 10 d.digits < 10 ^ significant ∧
      significant ≤ d.digits.length ∧
      Reading.readWritten? d.text =
        if d.digits = [] then none
        else some ⟨false, false, Bytes.valueOfDigits 10 d.digits, significant, d.readPower⟩ := by
  obtain ⟨read, hread, hvalue, hplaces, hany, hcounted⟩ := d.readDigits_text
  have hhex := Reading.hexBody?_of_isDecimalByte d.isDecimalByte
  have hfit := Reading.underscoresFit_of_isDecimalByte d.isDecimalByte
  refine ⟨read.significant, hvalue ▸ hcounted.1, hcounted.2, ?_⟩
  have hpower (e : Int) (he : e = d.exponent.elim 0 Exponent.read) :
      e - 1 * (d.places : Int) = d.readPower := by
    rw [he, Int.one_mul, readPower]
  simp only [Reading.readWritten?, Reading.splitSign_of_beginsDecimal h, hhex, Option.isSome_none,
    Bool.false_eq_true, if_false, Option.getD_none, hread, hfit, Bool.and_true, hany, hvalue, hplaces]
  cases hexponent : d.exponent with
  | none =>
    simp only [exponentText, hexponent, Option.elim_none]
    rw [hpower 0 (by rw [hexponent]; rfl)]
    by_cases hempty : d.digits = [] <;> simp [hempty]
  | some e =>
    simp only [exponentText, hexponent, Option.elim_some, Exponent.text, e.mark_eq, beq_self_eq_true,
      if_true, readExponent?_eq]
    rw [hpower e.read (by rw [hexponent]; rfl)]
    by_cases hempty : d.digits = [] <;> simp [hempty]

end DecimalText

/-! ### Bytes of numbers -/

/-- Letters, digits, the underscore, signs and the point: what numbers are written with. -/
def Ascii.isNumeric (c : UInt8) : Bool := isWord c || c == 0x2B || c == 0x2D || c == 0x2E

namespace Ascii

theorem isNumeric_toLower : ∀ c : UInt8, isNumeric (toLower c) = isNumeric c := by decide +kernel

theorem isNumeric_of_toLower_eq {c d : UInt8} (h : toLower c = d) (hd : isNumeric d = true) :
    isNumeric c = true := by
  rw [← isNumeric_toLower, h, hd]

theorem isWord_of_isHexDigit : ∀ c : UInt8, isHexDigit c = true → isWord c = true := by
  decide +kernel

end Ascii

namespace Reading

theorem isNumeric_of_splitSign {s : Bytes}
    (h : ∀ c ∈ (Numeral.splitSign s).2, Ascii.isNumeric c = true) :
    ∀ c ∈ s, Ascii.isNumeric c = true := by
  unfold Numeral.splitSign at h
  split at h
  · exact List.forall_mem_cons.mpr ⟨by decide, h⟩
  · exact List.forall_mem_cons.mpr ⟨by decide, h⟩
  · exact h

theorem isNumeric_of_readWord? {f : Binary.Format} {s : Bytes} {v : Binary f}
    (h : readWord? f s = some v) : ∀ c ∈ s, Ascii.isNumeric c = true := by
  have hsmall : ∀ c ∈ s.map Ascii.toLower, Ascii.isNumeric c = true := by
    unfold readWord? at h
    dsimp only at h
    split_ifs at h with hinf hnan
    · refine isNumeric_of_splitSign ?_
      rw [Bool.or_eq_true, beq_iff_eq, beq_iff_eq] at hinf
      rcases hinf with hinf | hinf
      · rw [hinf]
        decide +kernel
      · rw [hinf]
        decide +kernel
    · rw [beq_iff_eq.mp hnan]
      decide +kernel
  intro c hc
  exact Ascii.isNumeric_of_toLower_eq rfl (hsmall _ (List.mem_map_of_mem hc))

theorem isNumeric_of_readDigits {base : Nat} {d d' : Digits} {s rest : Bytes}
    (hread : readDigits base d s = (d', rest)) (hrest : ∀ c ∈ rest, Ascii.isNumeric c = true) :
    ∀ c ∈ s, Ascii.isNumeric c = true := by
  have h : ∀ c ∈ (readDigits base d s).2, Ascii.isNumeric c = true := by
    rw [hread]
    exact hrest
  clear hread
  fun_induction readDigits base d s with
  | case1 => exact h
  | case2 d c rest hc ih =>
    obtain rfl := beq_iff_eq.mp hc
    exact List.forall_mem_cons.mpr ⟨by decide, ih h⟩
  | case3 d c rest _ hc ih =>
    obtain rfl : c = 0x2E := by simp_all
    exact List.forall_mem_cons.mpr ⟨by decide, ih h⟩
  | case4 d c rest _ _ hc ih =>
    have hhex := (Bool.and_eq_true_iff.mp hc).1
    have hnumeric : Ascii.isNumeric c = true := by
      simp [Ascii.isNumeric, Ascii.isWord_of_isHexDigit c hhex]
    exact List.forall_mem_cons.mpr ⟨hnumeric, ih h⟩
  | case5 => exact h

theorem isNumeric_of_readExponent? {s : Bytes} {e : Int} (h : readExponent? s = some (e, [])) :
    ∀ c ∈ s, Ascii.isNumeric c = true := by
  have hinside (c : UInt8) (hc : (Ascii.isDigit c || c == 0x5F) = true) :
      Ascii.isNumeric c = true := by
    rcases Bool.or_eq_true_iff.mp hc with hc | hc <;>
      simp [Ascii.isNumeric, Ascii.isWord, Ascii.isAlnum, hc]
  refine isNumeric_of_splitSign ?_
  unfold readExponent? at h
  dsimp only at h
  split at h
  · cases h
  · rename_i c rest hdigits
    by_cases hc : Ascii.isDigit c = true
    · rw [if_pos hc] at h
      have hrest := (Prod.mk.inj (Option.some.inj h)).2
      exact fun d hd => hinside d (List.dropWhile_eq_nil_iff.mp hrest d hd)
    · rw [if_neg hc] at h
      cases h

theorem isNumeric_of_hexBody? {s body : Bytes} (h : hexBody? s = some body)
    (hbody : ∀ c ∈ body, Ascii.isNumeric c = true) : ∀ c ∈ s, Ascii.isNumeric c = true := by
  unfold hexBody? at h
  split at h
  · rename_i x c rest
    split_ifs at h with hx
    cases h
    refine List.forall_mem_cons.mpr ⟨by decide, List.forall_mem_cons.mpr ⟨?_, hbody⟩⟩
    exact Ascii.isNumeric_of_toLower_eq (beq_iff_eq.mp hx) (by decide)
  · cases h

theorem isNumeric_of_readWritten? {s : Bytes} {w : Written} (h : readWritten? s = some w) :
    ∀ c ∈ s, Ascii.isNumeric c = true := by
  refine isNumeric_of_splitSign ?_
  unfold readWritten? at h
  dsimp only at h
  generalize (Numeral.splitSign s).2 = body at h ⊢
  generalize hread : readDigits _ _ _ = read at h
  obtain ⟨d, rest⟩ := read
  dsimp only at h
  have hrest : ∀ c ∈ rest, Ascii.isNumeric c = true := by
    cases rest with
    | nil => exact List.forall_mem_nil _
    | cons c rest =>
      dsimp only at h
      generalize (hexBody? body).isSome = hex at h
      by_cases hc : (Ascii.toLower c == if hex then 0x70 else 0x65) = true
      · rw [if_pos hc] at h
        refine List.forall_mem_cons.mpr
          ⟨Ascii.isNumeric_of_toLower_eq (beq_iff_eq.mp hc) ?_, ?_⟩
        · cases hex <;> decide
        · split at h
          · rename_i e hexponent
            exact isNumeric_of_readExponent? hexponent
          · cases h
      · rw [if_neg hc] at h
        cases hex <;> cases h
  have hdigits := isNumeric_of_readDigits hread hrest
  cases hhex : hexBody? body with
  | none => simpa [hhex] using hdigits
  | some rest => exact isNumeric_of_hexBody? hhex (by simpa [hhex] using hdigits)

/-- **A number is written with letters, digits, underscores, signs and points only.** -/
theorem isNumeric_of_readBinary {f : Binary.Format} {s : Bytes} {v : Binary f}
    (h : readBinary f s = .ok v) : ∀ c ∈ s, Ascii.isNumeric c = true := by
  unfold readBinary at h
  split at h
  · rename_i word hword
    exact isNumeric_of_readWord? hword
  · split at h
    · cases h
    · rename_i w hwritten
      exact isNumeric_of_readWritten? hwritten

end Reading

end SpectrumTape
