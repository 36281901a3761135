import SpectrumTape.Basic.Emission
import SpectrumTape.Proofs.Number.Binary
import SpectrumTape.Proofs.Number.Notation
import SpectrumTape.Proofs.Text.Folding
import Mathlib.Tactic.Common
import Mathlib.Tactic.NormNum

/-!
# Decimal numbers that are read back

The decimal digits of a number are read as that number. Below `2 ^ 53` no bit of it is lost in the
binary format (`Reading.readBinary_decimal`), and up to 65535 it has the five byte form of whole numbers
(`FiveByte.encode?_natCast`). So the number of a line, written out as the value of a label, is always
a number again (`Emission.numberOfValue_decimal`).
-/

namespace SpectrumTape

/-! ### Digits -/

namespace Bytes

theorem toUInt8_isDigit {c : Char} (hc : c.isDigit = true) :
    Ascii.isDigit c.toUInt8 = true ∧ c.toUInt8.toNat = c.toNat := by
  have hrange : 48 ≤ c.toNat ∧ c.toNat ≤ 57 := by
    simpa [Char.isDigit, UInt32.le_iff_toNat_le] using hc
  have hvalue : c.toUInt8.toNat = c.toNat := by
    simp only [Char.toUInt8, UInt32.toNat_toUInt8]
    exact Nat.mod_eq_of_lt (by change c.toNat < 2 ^ 8; omega)
  exact ⟨Ascii.isDigit_iff.mpr (by omega), hvalue⟩

theorem isDigit_of_mem_decimal (n : Nat) : ∀ c ∈ decimal n, Ascii.isDigit c = true := by
  intro c hc
  obtain ⟨d, hd, rfl⟩ := List.mem_map.mp hc
  exact (toUInt8_isDigit (Nat.isDigit_of_mem_toDigits (by decide) (by decide) hd)).1

theorem decimal_ne_nil (n : Nat) : decimal n ≠ [] := by
  simp [decimal, Nat.toDigits_ne_nil]

theorem valueOfDigits_decimal (n : Nat) : valueOfDigits 10 (decimal n) = n := by
  have hdigits : ∀ c ∈ Nat.toDigits 10 n, c.isDigit = true := fun c hc =>
    Nat.isDigit_of_mem_toDigits (by decide) (by decide) hc
  have hfold (cs : List Char) (hcs : ∀ c ∈ cs, c.isDigit = true) (start : Nat) :
      (cs.map Char.toUInt8).foldl (fun m c => m * 10 + Ascii.digitValue c) start =
        Nat.ofDigitChars 10 cs start := by
    induction cs generalizing start with
    | nil => rfl
    | cons c cs ih =>
      obtain ⟨hc, hcs⟩ := List.forall_mem_cons.mp hcs
      obtain ⟨hdigit, hvalue⟩ := toUInt8_isDigit hc
      rw [List.map_cons, List.foldl_cons, ih hcs, Ascii.digitValue_of_isDigit hdigit, hvalue,
        Nat.ofDigitChars_cons, Nat.mul_comm]
      rfl
  rw [valueOfDigits, decimal, hfold _ hdigits, Nat.ofDigitChars_ten_toDigits]

theorem dropWhile_isBlank {rs : List Rune} (hrs : ∀ r ∈ rs, r.isBlank = false) :
    rs.dropWhile Rune.isBlank = rs := by
  cases rs with
  | nil => rfl
  | cons r rs => rw [List.dropWhile_cons_of_neg (by simp [hrs r List.mem_cons_self])]

theorem trimBlank_of_isNumeric {s : Bytes} (hs : ∀ c ∈ s, Ascii.isNumeric c = true) :
    s.trimBlank = s := by
  have hnumeric : ∀ c : UInt8, Ascii.isNumeric c = true → c < 0x80 ∧
      Rune.isBlank (.scalar c.toNat) = false ∧ Rune.encode (.scalar c.toNat) = [c] := by
    decide +kernel
  have hrunes : s.runes = s.map fun c => .scalar c.toNat :=
    runes_of_ascii fun c hc => (hnumeric c (hs c hc)).1
  have hblank : ∀ r ∈ s.runes, r.isBlank = false := by
    rw [hrunes]
    intro r hr
    obtain ⟨c, hc, rfl⟩ := List.mem_map.mp hr
    exact (hnumeric c (hs c hc)).2.1
  rw [trimBlank, dropWhile_isBlank hblank,
    dropWhile_isBlank fun r hr => hblank r (List.mem_reverse.mp hr), List.reverse_reverse, hrunes,
    ofRunes, List.flatMap_map]
  calc s.flatMap (fun c => Rune.encode (.scalar c.toNat))
      = s.flatMap (fun c => [c]) := by
        rw [List.flatMap_def, List.flatMap_def,
          List.map_congr_left fun c hc => (hnumeric c (hs c hc)).2.2]
    _ = s := List.flatMap_singleton' s

theorem isNumeric_of_mem_decimal (n : Nat) : ∀ c ∈ decimal n, Ascii.isNumeric c = true := by
  intro c hc
  simp [Ascii.isNumeric, Ascii.isWord, Ascii.isAlnum, isDigit_of_mem_decimal n c hc]

end Bytes

/-! ### Reading -/

namespace Reading

theorem beginsDecimal_of_isDigit {s : Bytes} (hs : ∀ c ∈ s, Ascii.isDigit c = true) (hne : s ≠ []) :
    s.BeginsDecimal := by
  obtain ⟨c, rest, rfl⟩ := List.exists_cons_of_ne_nil hne
  exact ⟨c, rfl, Or.inl (hs c List.mem_cons_self)⟩

theorem readWritten?_of_isDigit {s : Bytes} (hs : ∀ c ∈ s, Ascii.isDigit c = true) (hne : s ≠ []) :
    ∃ significant, readWritten? s =
      some ⟨false, false, Bytes.valueOfDigits 10 s, significant, 0⟩ := by
  let d : DecimalText := ⟨s, none, none, hs, by simp⟩
  have htext : d.text = s := List.append_nil s
  have hdigits : d.digits = s := List.append_nil s
  have hpower : d.readPower = 0 := rfl
  obtain ⟨significant, -, -, hread⟩ :=
    d.exists_readWritten? (htext ▸ beginsDecimal_of_isDigit hs hne)
  rw [htext, hdigits, hpower, if_neg hne] at hread
  exact ⟨significant, hread⟩

end Reading

/-! ### Whole numbers -/

theorem Reading.round_whole {n : Nat} (hn : n < 2 ^ 53) (significant : Nat) :
    (Written.mk false false n significant 0).round Binary.format64 =
      .finite false (n <<< 1074) := by
  unfold Written.round
  by_cases hzero : n = 0
  · simp [hzero]
  · have hsmall : ¬((0 : Int) + (significant : Nat) < -1000) := by omega
    simp only [hzero, if_false, Bool.false_eq_true, hsmall]
    exact (congrArg (Binary.round _ _ · 1) (Nat.mul_one n)).trans (Binary.round_natCast false hn)

theorem Reading.readBinary_decimal {n : Nat} (hn : n < 2 ^ 53) :
    readBinary Binary.format64 (Bytes.decimal n) = .ok (.finite false (n <<< 1074)) := by
  have hdigits := Bytes.isDigit_of_mem_decimal n
  obtain ⟨significant, hwritten⟩ := readWritten?_of_isDigit hdigits (Bytes.decimal_ne_nil n)
  rw [Bytes.valueOfDigits_decimal] at hwritten
  have hword := readWord?_of_beginsDecimal Binary.format64
    (beginsDecimal_of_isDigit hdigits (Bytes.decimal_ne_nil n))
  simp only [readBinary, hword, hwritten, round_whole hn]

theorem FiveByte.encode?_natCast (negative : Bool) {n : Nat} (hn : n ≤ 65535) :
    encode? (.finite negative (n <<< 1074)) = some (ofWord n) := by
  have hmod : n <<< 1074 % 1 <<< 1074 = 0 := by rw [shiftLeft_eq_mul, Nat.mul_mod_left]
  have hdiv : n <<< 1074 / 1 <<< 1074 = n := by
    rw [shiftLeft_eq_mul, Nat.mul_div_cancel _ (one_shiftLeft_pos 1074)]
  unfold encode?
  simp only [show Binary.format64.scale = 1074 from rfl, hmod, hdiv]
  rw [if_pos (by simpa using hn)]

theorem FiveByte.encode?_ofInt {n : Nat} (hn : n ≤ 65535) :
    encode? (Binary.ofInt n) = some (ofWord n) := by
  have hround : Binary.ofInt n = .finite false (n <<< 1074) := by
    have hnegative : decide ((n : Int) < 0) = false := decide_eq_false (by omega)
    rw [Binary.ofInt, hnegative, Int.natAbs_natCast,
      Binary.round_natCast false (hn.trans_lt (by decide))]
  rw [hround, encode?_natCast false hn]

/-- **A word written in decimal is a number**: the one with these digits and the form of that
word. -/
theorem Basic.Emission.numberOfValue_decimal (name : Bytes) {n : Nat} (hn : n ≤ 65535) :
    numberOfValue name (Bytes.decimal n) = .ok ⟨Bytes.decimal n, .ofWord n⟩ := by
  unfold numberOfValue
  rw [Bytes.trimBlank_of_isNumeric (Bytes.isNumeric_of_mem_decimal n),
    Reading.readBinary_decimal (hn.trans_lt (by decide))]
  simp only [Literal.numberOf, FiveByte.encode?_natCast false hn]

end SpectrumTape
