import SpectrumTape.Number.Binary
import Mathlib.Data.Rat.Cast.Order
import Mathlib.Algebra.Order.Field.Basic
import Mathlib.Tactic.Ring
import Mathlib.Tactic.Linarith
import Mathlib.Tactic.Positivity

/-!
# What binary numbers stand for

`Binary.toRat` is the rational number that a finite number stands for. The significands of a format
hold a number of units if it has few enough bits before its zeros (`Format.Holds`). Every bit pattern
of 64 bits that stands for a finite number stands for such a number (`holds_of_ofBits`), and such a
number is its own rounding (`round_of_holds`), so arithmetic whose results can be held is exact.
-/

namespace SpectrumTape

/-! ### Shifts -/

theorem one_shiftLeft_pos (shift : Nat) : 0 < 1 <<< shift := by
  rw [Nat.shiftLeft_eq, Nat.one_mul]
  exact Nat.two_pow_pos shift

theorem shiftLeft_eq_mul (n shift : Nat) : n <<< shift = n * 1 <<< shift := by
  rw [Nat.shiftLeft_eq, Nat.shiftLeft_eq, Nat.one_mul]

namespace Binary

/-! ### The number of bits -/

theorem bitLength_le_iff {n bits : Nat} : bitLength n ≤ bits ↔ n < 2 ^ bits := by
  unfold bitLength
  split_ifs with hzero
  · subst hzero
    exact iff_of_true (Nat.zero_le bits) (Nat.two_pow_pos bits)
  · exact Nat.log2_lt hzero

theorem lt_bitLength_iff {n bits : Nat} : bits < bitLength n ↔ 2 ^ bits ≤ n := by
  rw [← Nat.not_le, bitLength_le_iff, Nat.not_lt]

theorem lt_two_pow_bitLength (n : Nat) : n < 2 ^ bitLength n := bitLength_le_iff.mp le_rfl

theorem bitLength_pos {n : Nat} (hn : 0 < n) : 0 < bitLength n :=
  lt_bitLength_iff.mpr (by rwa [pow_zero])

theorem two_pow_bitLength_le {n : Nat} (hn : 0 < n) : 2 ^ (bitLength n - 1) ≤ n := by
  apply lt_bitLength_iff.mp
  have := bitLength_pos hn
  omega

theorem bitLength_mul_two_pow {n : Nat} (hn : 0 < n) (zeros : Nat) :
    bitLength (n * 2 ^ zeros) = bitLength n + zeros := by
  have hlow := two_pow_bitLength_le hn
  have hlength := bitLength_pos hn
  apply le_antisymm
  · rw [bitLength_le_iff, pow_add]
    exact Nat.mul_lt_mul_of_pos_right (lt_two_pow_bitLength n) (Nat.two_pow_pos zeros)
  · have hlast : bitLength n - 1 + zeros < bitLength (n * 2 ^ zeros) := by
      rw [lt_bitLength_iff, pow_add]
      exact Nat.mul_le_mul_right _ hlow
    omega

theorem bitLength_mul_two_pow_le {n bits : Nat} (hn : n < 2 ^ bits) (zeros : Nat) :
    bitLength (n * 2 ^ zeros) ≤ bits + zeros := by
  rw [bitLength_le_iff, pow_add]
  exact Nat.mul_lt_mul_of_pos_right hn (Nat.two_pow_pos zeros)

/-! ### Numbers that a format holds -/

/-- Whether a significand of the format has room for the bits of a number before its zeros. -/
def Format.Precise (f : Format) (units : Nat) : Prop :=
  ∃ significand zeros, significand < 2 ^ f.precision ∧ units = significand * 2 ^ zeros

/-- Whether a number of units is a finite number of the format. -/
def Format.Holds (f : Format) (units : Nat) : Prop :=
  f.Precise units ∧ units < 2 ^ (f.scale + f.range)

namespace Format

variable {f : Format}

theorem Precise.mul_two_pow {units : Nat} (h : f.Precise units) (zeros : Nat) :
    f.Precise (units * 2 ^ zeros) := by
  obtain ⟨significand, old, hsmall, rfl⟩ := h
  exact ⟨significand, old + zeros, hsmall, by rw [pow_add, Nat.mul_assoc]⟩

theorem Precise.dvd {units zeros : Nat} (h : f.Precise units)
    (hzeros : zeros + f.precision ≤ bitLength units) : 2 ^ zeros ∣ units := by
  obtain ⟨significand, old, hsmall, rfl⟩ := h
  have hlength := bitLength_mul_two_pow_le hsmall old
  exact (Nat.pow_dvd_pow 2 (by omega)).mul_left significand

theorem Precise.of_mul_two_pow {units zeros : Nat} (h : f.Precise (units * 2 ^ zeros)) :
    f.Precise units := by
  obtain ⟨significand, old, hsmall, heq⟩ := h
  have hpos : 0 < 2 ^ zeros := Nat.two_pow_pos zeros
  by_cases hold : zeros ≤ old
  · refine ⟨significand, old - zeros, hsmall, Nat.eq_of_mul_eq_mul_right hpos ?_⟩
    rw [heq, Nat.mul_assoc, ← pow_add, Nat.sub_add_cancel hold]
  · have hle : units * 2 ^ zeros ≤ significand * 2 ^ zeros := by
      rw [heq]
      exact Nat.mul_le_mul_left _ (Nat.pow_le_pow_right (by decide) (by omega))
    have hunits := Nat.le_of_mul_le_mul_right hle hpos
    exact ⟨units, 0, by omega, by rw [pow_zero, Nat.mul_one]⟩

theorem Precise.sub_two_pow {units bits : Nat} (h : f.Precise units) (hlow : 2 ^ bits ≤ units)
    (hhigh : units < 2 ^ (bits + 1)) : f.Precise (units - 2 ^ bits) := by
  obtain ⟨significand, zeros, hsmall, rfl⟩ := h
  have hpos : 0 < significand := by
    apply Nat.pos_of_ne_zero
    rintro rfl
    have := Nat.two_pow_pos bits
    omega
  have hzeros : zeros ≤ bits := by
    by_contra hmore
    have hpow : 2 ^ (bits + 1) ≤ 2 ^ zeros := Nat.pow_le_pow_right (by decide) (by omega)
    have hmul : 1 * 2 ^ zeros ≤ significand * 2 ^ zeros := Nat.mul_le_mul_right _ hpos
    omega
  refine ⟨significand - 2 ^ (bits - zeros), zeros, (Nat.sub_le _ _).trans_lt hsmall, ?_⟩
  rw [Nat.sub_mul, ← pow_add, Nat.sub_add_cancel hzeros]

theorem Precise.mod {units bits : Nat} (h : f.Precise units) (hlt : units < 2 ^ bits * 2) :
    f.Precise (units % 2 ^ bits) := by
  by_cases hsmall : units < 2 ^ bits
  · rwa [Nat.mod_eq_of_lt hsmall]
  · rw [Nat.mod_eq_sub_mod (by omega), Nat.mod_eq_of_lt (by omega)]
    exact h.sub_two_pow (by omega) (by rwa [pow_succ])

theorem Precise.excess_dvd {units : Nat} (h : f.Precise units) : 2 ^ f.excess units ∣ units := by
  by_cases hshort : bitLength units ≤ f.precision
  · rw [excess, Nat.sub_eq_zero_of_le hshort, pow_zero]
    exact one_dvd units
  · exact h.dvd (by rw [excess]; omega)

theorem holds_mul_two_pow {significand zeros : Nat} (hsmall : significand < 2 ^ f.precision)
    (hzeros : f.precision + zeros ≤ f.scale + f.range) : f.Holds (significand * 2 ^ zeros) := by
  refine ⟨⟨significand, zeros, hsmall, rfl⟩, ?_⟩
  calc significand * 2 ^ zeros < 2 ^ f.precision * 2 ^ zeros :=
        Nat.mul_lt_mul_of_pos_right hsmall (Nat.two_pow_pos zeros)
    _ = 2 ^ (f.precision + zeros) := (pow_add 2 _ _).symm
    _ ≤ 2 ^ (f.scale + f.range) := Nat.pow_le_pow_right (by decide) hzeros

end Format

theorem roundDiv_of_dvd {num den : Nat} (hden : 0 < den) (hdvd : den ∣ num) :
    roundDiv num den = num / den := by
  have hrest : num % den = 0 := Nat.mod_eq_zero_of_dvd hdvd
  simp only [roundDiv, hrest]
  rw [if_neg]
  simp only [Nat.mul_zero, Bool.or_eq_true, decide_eq_true_eq, Bool.and_eq_true, beq_iff_eq]
  omega

/-- **A number that the format holds is its own rounding.** -/
theorem round_of_holds {f : Format} (negative : Bool) {num den units : Nat} (hden : 0 < den)
    (hvalue : num * 2 ^ f.scale = units * den) (hunits : f.Holds units) :
    round f negative num den = .finite negative units := by
  have hscaled : num <<< f.scale = units * den := by rw [Nat.shiftLeft_eq, hvalue]
  have hquotient : num <<< f.scale / den = units := by rw [hscaled, Nat.mul_div_cancel _ hden]
  obtain ⟨hprecise, hbound⟩ := hunits
  -- The bits that are dropped are zeros, so the quotient has no rest.
  obtain ⟨kept, hkept⟩ := hprecise.excess_dvd
  have hpos : 0 < den <<< f.excess units := by
    rw [Nat.shiftLeft_eq]
    exact Nat.mul_pos hden (Nat.two_pow_pos _)
  have hfactor : num <<< f.scale = kept * den <<< f.excess units := by
    rw [hscaled, Nat.shiftLeft_eq]
    calc units * den = 2 ^ f.excess units * kept * den := by rw [← hkept]
      _ = kept * (den * 2 ^ f.excess units) := by ring
  have hrounded : roundDiv (num <<< f.scale) (den <<< f.excess units) = kept := by
    rw [roundDiv_of_dvd hpos (hfactor ▸ Nat.dvd_mul_left _ _), hfactor, Nat.mul_div_cancel _ hpos]
  have hback : kept <<< f.excess units = units := by
    rw [Nat.shiftLeft_eq, Nat.mul_comm, ← hkept]
  unfold round
  simp only [hquotient, hrounded, hback]
  rw [if_pos]
  rwa [Nat.shiftLeft_eq, Nat.one_mul]

theorem round_natCast (negative : Bool) {n : Nat} (hn : n < 2 ^ 53) :
    round format64 negative n 1 = .finite negative (n <<< 1074) := by
  change round format64 negative n 1 = .finite negative (n <<< format64.scale)
  rw [Nat.shiftLeft_eq]
  exact round_of_holds negative one_pos (Nat.mul_one _).symm
    (Format.holds_mul_two_pow hn (by decide))

theorem holds_of_ofBits {bits units : Nat} {negative : Bool}
    (h : ofBits format64 bits = .finite negative units) : format64.Holds units := by
  have hfraction : bits % 1 <<< 52 < 2 ^ 52 := Nat.mod_lt _ (by decide)
  have hbiased : (bits >>> 52) % 2048 < 2048 := Nat.mod_lt _ (by decide)
  unfold ofBits at h
  simp only [show format64.precision - 1 = 52 from rfl, show 2 * format64.range = 2048 from rfl] at h
  split_ifs at h with hlast hzero hsubnormal
  · cases h
    rw [← Nat.mul_one (bits % _), ← pow_zero 2]
    apply Format.holds_mul_two_pow
    · exact hfraction.trans (by decide)
    · decide
  · cases h
    rw [Nat.shiftLeft_eq _ (_ - 1)]
    apply Format.holds_mul_two_pow
    · show 1 <<< 52 + bits % 1 <<< 52 < 2 ^ 53
      omega
    · show 53 + (bits >>> 52 % 2048 - 1) ≤ 1074 + 1024
      omega

/-! ### Values -/

/-- The rational number that a finite number stands for. -/
def toRat {f : Format} : Binary f → ℚ
  | .finite negative units => (if negative then -1 else 1) * (units / 2 ^ f.scale)
  | _ => 0

theorem toRat_finite_false {f : Format} (units : Nat) :
    toRat (.finite false units : Binary f) = units / 2 ^ f.scale := by
  simp [toRat]

theorem abs_toRat_finite {f : Format} (negative : Bool) (units : Nat) :
    |toRat (.finite negative units : Binary f)| = units / 2 ^ f.scale := by
  have hvalue : (0 : ℚ) ≤ units / 2 ^ f.scale := by positivity
  cases negative <;> simp [toRat, abs_of_nonneg hvalue]

end Binary

end SpectrumTape
