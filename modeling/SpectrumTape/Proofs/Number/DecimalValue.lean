import SpectrumTape.Proofs.Number.Notation
import SpectrumTape.Proofs.Number.Rounding
import Mathlib.Data.Nat.Digits.Defs
import Mathlib.Algebra.Order.Field.Power

/-!
# The value of decimal numbers

A decimal number stands for the whole number that its digits make times a power of ten
(`DecimalText.value`), and what is read is the correctly rounded number for that value
(`DecimalText.exists_parses`). Very large and very small powers are decided by their size alone, which
gives the same number (`Reading.round_written`).

Of an exponent of six digits or more only the first five count. For a mantissa of thousands of digits
that may give another number; up to there the value is infinite or zero either way
(`DecimalText.nearest_readPower`).
-/

namespace SpectrumTape

open Binary (format64)

/-- The whole number that digits stand for, the most significant one being first. -/
def Bytes.numeral (base : Nat) (s : Bytes) : Nat :=
  Nat.ofDigits base (s.reverse.map Ascii.digitValue)

theorem Bytes.valueOfDigits_eq_numeral (base : Nat) (s : Bytes) :
    valueOfDigits base s = numeral base s := by
  rw [numeral, Nat.ofDigits_eq_foldr, List.foldr_map, List.foldr_reverse, valueOfDigits]
  simp only [Nat.cast_id, Nat.add_comm, Nat.mul_comm]

/-! ### The nearest number -/

/-- The number nearest to a whole number times a power of ten. -/
def nearest (value : Nat) (power : ℤ) : Binary64 :=
  Binary.round format64 false (value * 10 ^ power.toNat) (10 ^ (-power).toNat)

theorem isRounding_nearest (value : Nat) (power : ℤ) :
    Binary.IsRounding (value * 10 ^ power) (nearest value power) := by
  have hvalue : (value * 10 ^ power : ℚ) =
      ((value * 10 ^ power.toNat : ℕ) : ℚ) / ((10 ^ (-power).toNat : ℕ) : ℚ) := by
    push_cast
    rcases le_total 0 power with hpower | hpower
    · obtain ⟨n, rfl⟩ := Int.eq_ofNat_of_zero_le hpower
      simp
    · obtain ⟨n, hn⟩ := Int.eq_ofNat_of_zero_le (Int.neg_nonneg_of_nonpos hpower)
      obtain rfl : power = -(n : ℤ) := by omega
      simp [div_eq_mul_inv]
  rw [hvalue]
  exact Binary.isRounding_round (by decide) _ (Nat.pow_pos (by decide))

theorem nearest_zero (power : ℤ) : nearest 0 power = .finite false 0 := by
  apply Binary.round_of_lt
  rw [Nat.zero_mul, Nat.zero_mul]
  exact Nat.pow_pos (by decide)

theorem two_pow_le_ten_pow {n k : Nat} (hn : n ≤ 3 * k) : 2 ^ n ≤ 10 ^ k :=
  calc 2 ^ n ≤ 2 ^ (3 * k) := Nat.pow_le_pow_right (by decide) hn
    _ = (2 ^ 3) ^ k := Nat.pow_mul 2 3 k
    _ ≤ 10 ^ k := Nat.pow_le_pow_left (by decide) k

theorem nearest_large {value : Nat} (hvalue : 0 < value) {power : ℤ} (hpower : 1000 < power) :
    nearest value power = .infinite false := by
  have hden : (-power).toNat = 0 := by omega
  apply Binary.round_of_le
  · exact Nat.pow_pos (by decide)
  · decide
  · rw [hden, pow_zero, Nat.mul_one]
    calc 2 ^ format64.range ≤ 10 ^ 1000 := two_pow_le_ten_pow (by decide)
      _ ≤ 10 ^ power.toNat := Nat.pow_le_pow_right (by decide) (by omega)
      _ ≤ value * 10 ^ power.toNat := Nat.le_mul_of_pos_left _ hvalue

theorem nearest_small {value digits : Nat} (hvalue : value < 10 ^ digits) {power : ℤ}
    (hpower : power + digits < -1000) : nearest value power = .finite false 0 := by
  have hnum : power.toNat = 0 := by omega
  apply Binary.round_of_lt
  rw [hnum, pow_zero, Nat.mul_one]
  calc value * 2 ^ (format64.scale + 1) < 10 ^ digits * 2 ^ (format64.scale + 1) :=
        Nat.mul_lt_mul_of_pos_right hvalue (Nat.two_pow_pos _)
    _ ≤ 10 ^ digits * 10 ^ 1000 := Nat.mul_le_mul_left _ (two_pow_le_ten_pow (by decide))
    _ = 10 ^ (digits + 1000) := (pow_add 10 _ _).symm
    _ ≤ 10 ^ (-power).toNat := Nat.pow_le_pow_right (by decide) (by omega)

namespace Reading

theorem round_written {value significant : Nat} (hvalue : value < 10 ^ significant) (power : ℤ) :
    (Written.mk false false value significant power).round format64 = nearest value power := by
  unfold Written.round
  simp only [Bool.false_eq_true, if_false, Nat.pow_eq]
  split_ifs with hzero hlarge hsmall hpower
  · rw [hzero, nearest_zero]
  · rw [nearest_large (by omega) hlarge]
  · rw [nearest_small hvalue hsmall]
  · rw [nearest, show (-power).toNat = 0 by omega, pow_zero]
  · rw [nearest, show power.toNat = 0 by omega, pow_zero, Nat.mul_one]

/-- The number that a text is read as; one that is out of range counts as infinite. -/
def Parses (text : Bytes) (v : Binary64) : Prop :=
  readBinary format64 text =
    match v with
    | .infinite _ => .error .outOfRange
    | v => .ok v

/-- The exponent that is read is the one that is written, or both have five digits and more. -/
theorem exponentValue_cases {s : Bytes} (hs : ∀ c ∈ s, Ascii.isDigit c = true) :
    exponentValue s = Bytes.numeral 10 s ∨
      10000 ≤ exponentValue s ∧ 100000 ≤ Bytes.numeral 10 s := by
  rw [← Bytes.valueOfDigits_eq_numeral, exponentValue, Bytes.valueOfDigits]
  have hfold (n m : Nat) (h : n = m ∨ 10000 ≤ n ∧ 100000 ≤ m) :
      let read := s.foldl
        (fun n c => if c == 0x5F then n else if n < 10000 then n * 10 + Ascii.digitValue c else n) n
      let value := s.foldl (fun n c => n * 10 + Ascii.digitValue c) m
      read = value ∨ 10000 ≤ read ∧ 100000 ≤ value := by
    induction s generalizing n m with
    | nil => exact h
    | cons c s ih =>
      obtain ⟨hc, hs⟩ := List.forall_mem_cons.mp hs
      have hunderscore : ¬(c == 0x5F) = true := by
        simpa using Ascii.ne_of_isDigit hc (by decide)
      refine ih hs _ _ ?_
      dsimp only
      rw [if_neg hunderscore]
      split_ifs with hshort
      · left
        omega
      · right
        omega
  exact hfold 0 0 (Or.inl rfl)

end Reading

namespace DecimalText

/-! ### The value of a text -/

def Exponent.value (e : Exponent) : ℤ :=
  if e.negative then -(Bytes.numeral 10 e.digits : ℤ) else Bytes.numeral 10 e.digits

def power (d : DecimalText) : ℤ := d.exponent.elim 0 Exponent.value - d.places

def value (d : DecimalText) : ℚ := Bytes.numeral 10 d.digits * 10 ^ d.power

/-- The exponent has at most five digits that count, or the mantissa is not so long that more of them
would. -/
def Moderate (d : DecimalText) : Prop :=
  (∀ e ∈ d.exponent, Bytes.numeral 10 e.digits < 100000) ∨ d.digits.length < 9000

variable (d : DecimalText)

theorem places_le : d.places ≤ d.digits.length := by
  unfold places digits
  rw [List.length_append]
  omega

theorem nearest_readPower (hd : d.Moderate) {value : Nat} (hvalue : value < 10 ^ d.digits.length) :
    nearest value d.readPower = nearest value d.power := by
  have hplaces := d.places_le
  unfold readPower power
  cases hexponent : d.exponent with
  | none => rfl
  | some e =>
    simp only [Option.elim_some, Exponent.read, Exponent.value]
    rcases Reading.exponentValue_cases e.isDigit with hsame | ⟨hread, hlong⟩
    · rw [hsame]
    · rcases hd with hshort | hshort
      · have := hshort e hexponent
        omega
      -- With few digits in the mantissa both powers are beyond all bounds on the same side.
      · by_cases hzero : value = 0
        · rw [hzero, nearest_zero, nearest_zero]
        · split_ifs
          · rw [nearest_small hvalue (by omega), nearest_small hvalue (by omega)]
          · rw [nearest_large (by omega) (by omega), nearest_large (by omega) (by omega)]

/-- **A decimal number is read as the correctly rounded number for its value.** -/
theorem exists_parses (h : d.digits ≠ []) :
    ∃ v, Reading.Parses d.text v ∧ (d.Moderate → Binary.IsRounding d.value v) := by
  have hbegins := d.beginsDecimal h
  obtain ⟨significant, hvalue, hle, hread⟩ := d.exists_readWritten? hbegins
  rw [if_neg h] at hread
  refine ⟨nearest (Bytes.valueOfDigits 10 d.digits) d.readPower, ?_, ?_⟩
  · unfold Reading.Parses Reading.readBinary
    rw [Reading.readWord?_of_beginsDecimal _ hbegins, hread]
    dsimp only
    rw [Reading.round_written hvalue]
    cases nearest (Bytes.valueOfDigits 10 d.digits) d.readPower <;> rfl
  · intro hd
    rw [d.nearest_readPower hd (hvalue.trans_le (Nat.pow_le_pow_right (by decide) hle)), value,
      ← Bytes.valueOfDigits_eq_numeral]
    exact isRounding_nearest _ _

theorem readBinary_of_digits_nil (hbegins : d.text.BeginsDecimal) (h : d.digits = []) :
    Reading.readBinary format64 d.text = .error .malformed := by
  obtain ⟨significant, -, -, hread⟩ := d.exists_readWritten? hbegins
  rw [if_pos h] at hread
  unfold Reading.readBinary
  rw [Reading.readWord?_of_beginsDecimal _ hbegins, hread]

end DecimalText

end SpectrumTape
