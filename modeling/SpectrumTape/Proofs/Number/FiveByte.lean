import SpectrumTape.Proofs.Number.Decimal
import Mathlib.Data.Rat.Floor
import Mathlib.Algebra.Order.Field.Power
import Mathlib.Algebra.Order.Floor.Semifield
import Mathlib.Tactic.FieldSimp

/-!
# The value of the five byte form

The exponent and the mantissa of a number are said here about the rational number it stands for. The
exponent is the power of two next above the number (`isExponent_binaryExponent`), and the mantissa is
the nearest whole number to the number scaled to 32 bits, unless that needs one bit more
(`roundedMantissa_eq`). So decoding gives back what was encoded up to one unit of the last place,
unless the exponent is the least one, whose byte is the mark of whole numbers (`decode_encoded`).
-/

namespace SpectrumTape.FiveByte

open Binary (bitLength format64)

/-! ### Exponents -/

/-- Whether a number lies between half of two to a power, included, and two to that power. -/
def IsExponent (e : ℤ) (q : ℚ) : Prop := 2 ^ (e - 1) ≤ q ∧ q < 2 ^ e

theorem isExponent_binaryExponent {units : Nat} (hunits : 0 < units) :
    IsExponent (binaryExponent units) (units / 2 ^ format64.scale) := by
  have hlow : (2 : ℚ) ^ (bitLength units - 1) ≤ units := by
    exact_mod_cast Binary.two_pow_bitLength_le hunits
  have hhigh : (units : ℚ) < 2 ^ bitLength units := by
    exact_mod_cast Binary.lt_two_pow_bitLength units
  have hlength := Binary.bitLength_pos hunits
  have hscale : (0 : ℚ) < 2 ^ format64.scale := by positivity
  constructor
  · rw [show binaryExponent units - 1 = ((bitLength units - 1 : ℕ) : ℤ) - (format64.scale : ℕ) by
        rw [binaryExponent]; omega,
      zpow_sub₀ two_ne_zero, zpow_natCast, zpow_natCast]
    exact div_le_div_of_nonneg_right hlow hscale.le
  · rw [binaryExponent, zpow_sub₀ two_ne_zero, zpow_natCast, zpow_natCast]
    exact div_lt_div_of_pos_right hhigh hscale

/-! ### Mantissas -/

theorem floor_div_two_pow (n bits : Nat) : ⌊(n / 2 ^ bits : ℚ)⌋₊ = n / 2 ^ bits := by
  norm_cast

theorem floor_mul_two_pow (n bits : Nat) : ⌊(n * 2 ^ bits : ℚ)⌋₊ = n * 2 ^ bits := by
  norm_cast

theorem leadingBits_eq (units : Nat) :
    leadingBits units =
      ⌊(units / 2 ^ format64.scale : ℚ) * 2 ^ (33 - binaryExponent units)⌋₊ := by
  have hscale : (2 : ℚ) ^ format64.scale ≠ 0 := by positivity
  have hvalue : (units / 2 ^ format64.scale : ℚ) * 2 ^ (33 - binaryExponent units) =
      units * 2 ^ ((33 : ℤ) - bitLength units) := by
    rw [show (33 : ℤ) - binaryExponent units = (33 - bitLength units) + (format64.scale : ℕ) by
        rw [binaryExponent]; ring, zpow_add₀ two_ne_zero, zpow_natCast]
    field_simp
  rw [hvalue, leadingBits]
  split_ifs with hlong
  · rw [show (33 : ℤ) - bitLength units = -((bitLength units - 33 : ℕ) : ℤ) by omega, zpow_neg,
      zpow_natCast, ← div_eq_mul_inv, Nat.shiftRight_eq_div_pow, floor_div_two_pow]
  · rw [show (33 : ℤ) - bitLength units = ((33 - bitLength units : ℕ) : ℤ) by omega, zpow_natCast,
      Nat.shiftLeft_eq, floor_mul_two_pow]

theorem leadingBits_lt (units : Nat) : leadingBits units < 2 ^ 33 := by
  have hlength := Binary.lt_two_pow_bitLength units
  unfold leadingBits
  split_ifs with hlong
  · rw [Nat.shiftRight_eq_div_pow]
    apply Nat.div_lt_of_lt_mul
    rwa [← pow_add, Nat.sub_add_cancel hlong]
  · rw [Nat.shiftLeft_eq]
    calc units * 2 ^ (33 - bitLength units)
        < 2 ^ bitLength units * 2 ^ (33 - bitLength units) :=
          Nat.mul_lt_mul_of_pos_right hlength (Nat.two_pow_pos _)
      _ = 2 ^ 33 := by rw [← pow_add]; congr 1; omega

theorem le_leadingBits {units : Nat} (hunits : 0 < units) : 2 ^ 32 ≤ leadingBits units := by
  have hlength := Binary.two_pow_bitLength_le hunits
  have hpos := Binary.bitLength_pos hunits
  unfold leadingBits
  split_ifs with hlong
  · rw [Nat.shiftRight_eq_div_pow, Nat.le_div_iff_mul_le (Nat.two_pow_pos _), ← pow_add]
    rwa [show 32 + (bitLength units - 33) = bitLength units - 1 by omega]
  · rw [Nat.shiftLeft_eq]
    calc 2 ^ 32 = 2 ^ (bitLength units - 1) * 2 ^ (33 - bitLength units) := by
          rw [← pow_add]; congr 1; omega
      _ ≤ units * 2 ^ (33 - bitLength units) := Nat.mul_le_mul_right _ hlength

theorem roundedMantissa_eq_min (units : Nat) :
    roundedMantissa units = min ((leadingBits units + 1) / 2) (2 ^ 32 - 1) := by
  have hlt := leadingBits_lt units
  simp only [roundedMantissa, Bool.and_eq_true, beq_iff_eq, bne_iff_ne, ne_eq]
  split_ifs with hodd <;> omega

theorem roundedMantissa_bounds {units : Nat} (hunits : 0 < units) :
    2 ^ 31 ≤ roundedMantissa units ∧ roundedMantissa units < 2 ^ 32 := by
  have hle := le_leadingBits hunits
  rw [roundedMantissa_eq_min]
  omega

/-- The mantissa is the nearest whole number, a half going up, unless that is too long. -/
theorem roundedMantissa_eq (units : Nat) :
    (roundedMantissa units : ℤ) =
      min ⌊(units / 2 ^ format64.scale : ℚ) * 2 ^ (32 - binaryExponent units) + 1 / 2⌋
        (2 ^ 32 - 1) := by
  set x : ℚ := units / 2 ^ format64.scale * 2 ^ (32 - binaryExponent units) with hx
  have hnonneg : 0 ≤ x := mul_nonneg (by positivity) (by positivity)
  have hbits : leadingBits units = ⌊2 * x⌋₊ := by
    rw [leadingBits_eq, hx, show (33 : ℤ) - binaryExponent units = 1 + (32 - binaryExponent units) by
      ring, zpow_add₀ two_ne_zero, zpow_one]
    congr 1
    ring
  have hhalf : ⌊x + 1 / 2⌋₊ = (leadingBits units + 1) / 2 := by
    rw [hbits, ← Nat.floor_add_one (by linarith), show x + 1 / 2 = (2 * x + 1) / (2 : ℕ) by
      push_cast; ring]
    exact Nat.floor_div_natCast _ 2
  rw [← Int.natCast_floor_eq_floor (by linarith), hhalf, roundedMantissa_eq_min]
  omega

/-! ### Encoding -/

/-- Whether a number is a whole number of at most 65535. -/
def IsWord (q : ℚ) : Prop := ∃ n : ℕ, n ≤ 65535 ∧ q = n

theorem value_eq_natCast_iff {units n : Nat} :
    (units / 2 ^ format64.scale : ℚ) = n ↔ units = n <<< format64.scale := by
  rw [div_eq_iff (by positivity), Nat.shiftLeft_eq]
  norm_cast

theorem encode?_of_eq_natCast (negative : Bool) {units n : Nat} (hn : n ≤ 65535)
    (hvalue : (units / 2 ^ format64.scale : ℚ) = n) :
    encode? (.finite negative units) = some (ofWord n) := by
  rw [value_eq_natCast_iff.mp hvalue]
  exact encode?_natCast negative hn

theorem encode?_of_not_isWord (negative : Bool) {units : Nat}
    (hword : ¬IsWord (units / 2 ^ format64.scale)) :
    encode? (.finite negative units) =
      if binaryExponent units < -128 ∨ 127 < binaryExponent units then none
      else some ⟨UInt8.ofNat (binaryExponent units + 128).toNat,
        UInt32.ofNat (roundedMantissa units - 2 ^ 31)⟩ := by
  have hcase : ¬(units % 1 <<< format64.scale = 0 ∧ units / 1 <<< format64.scale ≤ 65535) := by
    rintro ⟨hrest, hsmall⟩
    refine hword ⟨_, hsmall, value_eq_natCast_iff.mpr ?_⟩
    rw [shiftLeft_eq_mul]
    exact (Nat.div_mul_cancel (Nat.dvd_of_mod_eq_zero hrest)).symm
  unfold encode?
  simp only [Bool.and_eq_true, decide_eq_true_eq, Bool.or_eq_true]
  rw [if_neg hcase]
  rfl

theorem pos_of_not_isWord {units : Nat} (hword : ¬IsWord (units / 2 ^ format64.scale)) :
    0 < units := by
  apply Nat.pos_of_ne_zero
  rintro rfl
  exact hword ⟨0, Nat.zero_le _, by simp⟩

theorem fields_of_encode? {negative : Bool} {units : Nat} {w : FiveByte}
    (hword : ¬IsWord (units / 2 ^ format64.scale))
    (hw : encode? (.finite negative units) = some w) :
    (w.exponent.toNat : ℤ) = binaryExponent units + 128 ∧
      w.mantissa.toNat = roundedMantissa units - 2 ^ 31 := by
  obtain ⟨hlow, hhigh⟩ := roundedMantissa_bounds (pos_of_not_isWord hword)
  rw [encode?_of_not_isWord negative hword] at hw
  split_ifs at hw with hrange
  cases hw
  constructor
  · simp only [UInt8.toNat_ofNat']
    omega
  · simp only [UInt32.toNat_ofNat']
    omega

/-! ### Decoding -/

theorem decode_ofWord {n : Nat} (hn : n ≤ 65535) :
    decode (ofWord n) = .finite false (n <<< format64.scale) := by
  obtain ⟨low, high, hlow, hhigh, rfl⟩ : ∃ low high, low < 256 ∧ high < 256 ∧ n = high * 256 + low :=
    ⟨n % 256, n / 256, by omega, by omega, by omega⟩
  have hmantissa : (ofWord (high * 256 + low)).mantissa.toNat = low * 65536 + high * 256 := by
    have hmod : (high * 256 + low) % 256 = low := by omega
    have hdiv : (high * 256 + low) / 256 = high := by omega
    simp only [ofWord, UInt32.toNat_ofNat', hmod, hdiv]
    exact Nat.mod_eq_of_lt (by omega)
  have hexponent : (ofWord (high * 256 + low)).exponent = 0 := rfl
  have hsign : ¬(low * 65536 + high * 256) / 16777216 = 0xFF := by omega
  have hfirst : (low * 65536 + high * 256) / 65536 % 256 = low := by omega
  have hsecond : (low * 65536 + high * 256) / 256 % 256 = high := by omega
  unfold decode
  simp only [hmantissa, hexponent, if_true, hfirst, hsecond]
  rw [if_neg hsign, Nat.add_comm low]

theorem toRat_decode {w : FiveByte} (hexponent : w.exponent ≠ 0)
    (hmantissa : w.mantissa.toNat < 2 ^ 31) :
    (decode w).toRat = (w.mantissa.toNat + 2 ^ 31 : ℕ) * 2 ^ ((w.exponent.toNat : ℤ) - 160) := by
  have hsign : decide (0x80000000 ≤ w.mantissa.toNat) = false := decide_eq_false (by omega)
  have hrest : w.mantissa.toNat % 0x80000000 = w.mantissa.toNat := Nat.mod_eq_of_lt hmantissa
  have hscale : (160 : ℕ) ≤ format64.scale := by decide
  have hpower : (2 : ℚ) ^ (format64.scale + w.exponent.toNat - 160) =
      2 ^ format64.scale * 2 ^ ((w.exponent.toNat : ℤ) - 160) := by
    rw [← zpow_natCast, ← zpow_natCast, ← zpow_add₀ two_ne_zero]
    congr 1
    omega
  unfold decode
  simp only [if_neg hexponent, hsign, hrest]
  rw [Binary.toRat_finite_false, Nat.shiftLeft_eq, Nat.cast_mul, Nat.cast_pow, Nat.cast_ofNat, hpower,
    mul_left_comm, mul_div_cancel_left₀ _ (by positivity)]
  rfl

theorem toRat_decode_zero {w : FiveByte} (hexponent : w.exponent = 0)
    (hmantissa : w.mantissa.toNat < 2 ^ 31) : ∃ n : ℕ, (decode w).toRat = n := by
  have hsign : ¬w.mantissa.toNat / 16777216 = 0xFF := by omega
  unfold decode
  simp only [if_pos hexponent, if_neg hsign]
  exact ⟨_, (Binary.toRat_finite_false _).trans (value_eq_natCast_iff.mpr rfl)⟩

/-! ### Decoding what was encoded -/

theorem abs_roundedMantissa_sub_le {units : Nat} (hunits : 0 < units) :
    |(roundedMantissa units : ℚ) -
      units / 2 ^ format64.scale * 2 ^ (32 - binaryExponent units)| ≤ 1 := by
  have hlt : (units / 2 ^ format64.scale * 2 ^ (32 - binaryExponent units) : ℚ) < 2 ^ 32 := by
    calc (units / 2 ^ format64.scale * 2 ^ (32 - binaryExponent units) : ℚ)
        < 2 ^ binaryExponent units * 2 ^ (32 - binaryExponent units) :=
          mul_lt_mul_of_pos_right (isExponent_binaryExponent hunits).2 (by positivity)
      _ = 2 ^ 32 := by rw [← zpow_add₀ two_ne_zero, add_sub_cancel]; rfl
  have hrounded := roundedMantissa_eq units
  generalize (units / 2 ^ format64.scale * 2 ^ (32 - binaryExponent units) : ℚ) = x at hlt hrounded ⊢
  have hmin : (roundedMantissa units : ℚ) = min (⌊x + 1 / 2⌋ : ℚ) (2 ^ 32 - 1) := by
    exact_mod_cast hrounded
  have hbelow := Int.floor_le (x + 1 / 2)
  have habove := Int.lt_floor_add_one (x + 1 / 2)
  rw [hmin, abs_le]
  rcases min_cases (⌊x + 1 / 2⌋ : ℚ) (2 ^ 32 - 1) with ⟨hcase, hle⟩ | ⟨hcase, hle⟩
  · rw [hcase]
    constructor <;> linarith
  · rw [hcase]
    constructor <;> linarith

theorem abs_decode_sub_le {units : Nat} {w : FiveByte} (hunits : 0 < units)
    (hexponent : (w.exponent.toNat : ℤ) = binaryExponent units + 128) (hnonzero : w.exponent ≠ 0)
    (hmantissa : w.mantissa.toNat = roundedMantissa units - 2 ^ 31) :
    |(decode w).toRat - units / 2 ^ format64.scale| ≤ 2 ^ (binaryExponent units - 32) := by
  obtain ⟨hlow, hhigh⟩ := roundedMantissa_bounds hunits
  have hback : w.mantissa.toNat + 2 ^ 31 = roundedMantissa units := by omega
  have hpower : (w.exponent.toNat : ℤ) - 160 = binaryExponent units - 32 := by omega
  have hcancel : (2 : ℚ) ^ (32 - binaryExponent units) * 2 ^ (binaryExponent units - 32) = 1 := by
    rw [← zpow_add₀ two_ne_zero, sub_add_sub_cancel', sub_self, zpow_zero]
  have hdifference : (decode w).toRat - units / 2 ^ format64.scale =
      (roundedMantissa units - units / 2 ^ format64.scale * 2 ^ (32 - binaryExponent units)) *
        2 ^ (binaryExponent units - 32) := by
    rw [toRat_decode hnonzero (by omega), hback, hpower, sub_mul, mul_assoc (_ / _), hcancel, mul_one]
  rw [hdifference, abs_mul, abs_of_nonneg (a := (2 : ℚ) ^ (binaryExponent units - 32)) (by positivity)]
  exact mul_le_of_le_one_left (by positivity) (abs_roundedMantissa_sub_le hunits)

theorem lt_abs_natCast_sub {q : ℚ} (hq : IsExponent (-128) q) (n : ℕ) :
    (2 : ℚ) ^ (-128 - 32 : ℤ) < |(n : ℚ) - q| := by
  obtain ⟨hlow, hhigh⟩ := hq
  have hleast : (2 : ℚ) ^ (-128 - 32 : ℤ) < 2 ^ (-128 - 1 : ℤ) :=
    zpow_lt_zpow_right₀ one_lt_two (by decide)
  have hhalf : (2 : ℚ) ^ (-128 : ℤ) ≤ 2 ^ (-1 : ℤ) := zpow_le_zpow_right₀ one_le_two (by decide)
  have hsmall : (2 : ℚ) ^ (-128 - 1 : ℤ) ≤ 2 ^ (-1 : ℤ) := zpow_le_zpow_right₀ one_le_two (by decide)
  rw [zpow_neg_one, ← one_div] at hhalf hsmall
  generalize (2 : ℚ) ^ (-128 - 32 : ℤ) = bound at hleast ⊢
  generalize (2 : ℚ) ^ (-128 - 1 : ℤ) = least at hlow hleast hsmall
  generalize (2 : ℚ) ^ (-128 : ℤ) = most at hhigh hhalf
  rw [lt_abs]
  rcases Nat.eq_zero_or_pos n with rfl | hn
  · right
    rw [Nat.cast_zero]
    linarith
  · left
    have hone : (1 : ℚ) ≤ n := by exact_mod_cast hn
    linarith

/-- **What decoding gives back of a number.** A whole number of at most 65535 comes back as it is.
Any other number comes back up to one unit of the last place of its mantissa, except that the least
exponent is written as the zero that marks whole numbers: it comes back as one of these. -/
theorem decode_encoded {negative : Bool} {units : Nat} {w : FiveByte}
    (hw : encode? (.finite negative units) = some w) :
    let q := |Binary.toRat (.finite negative units : Binary64)|
    (IsWord q → decode w = .finite false units) ∧
    (¬IsWord q → ∃ e, IsExponent e q ∧
      (e ≠ -128 → w.exponent ≠ 0 ∧ |(decode w).toRat - q| ≤ 2 ^ (e - 32)) ∧
      (e = -128 → w.exponent = 0 ∧ (∃ n : ℕ, (decode w).toRat = n) ∧
        2 ^ (e - 32) < |(decode w).toRat - q|)) := by
  intro q
  have hq : q = units / 2 ^ format64.scale := Binary.abs_toRat_finite negative units
  rw [hq]
  refine ⟨?_, fun hword => ?_⟩
  · rintro ⟨n, hn, hvalue⟩
    rw [encode?_of_eq_natCast negative hn hvalue] at hw
    cases hw
    rw [decode_ofWord hn, value_eq_natCast_iff.mp hvalue]
  · have hunits := pos_of_not_isWord hword
    obtain ⟨hexponent, hmantissa⟩ := fields_of_encode? hword hw
    have hbounds := roundedMantissa_bounds hunits
    have hzero : w.exponent = 0 ↔ binaryExponent units = -128 := by
      rw [← UInt8.toNat_inj, UInt8.toNat_zero]
      omega
    have he := isExponent_binaryExponent hunits
    refine ⟨binaryExponent units, he, fun hmore => ?_, fun hleast => ?_⟩
    · have hnonzero : w.exponent ≠ 0 := fun h => hmore (hzero.mp h)
      exact ⟨hnonzero, abs_decode_sub_le hunits hexponent hnonzero hmantissa⟩
    · obtain ⟨n, hn⟩ := toRat_decode_zero (hzero.mpr hleast) (by omega)
      refine ⟨hzero.mpr hleast, ⟨n, hn⟩, ?_⟩
      rw [hn, hleast]
      exact lt_abs_natCast_sub (hleast ▸ he) n

theorem not_isWord_of_mod {units : Nat} (hrest : units % 1 <<< format64.scale ≠ 0) :
    ¬IsWord (units / 2 ^ format64.scale) := by
  rintro ⟨n, _, hvalue⟩
  rw [value_eq_natCast_iff.mp hvalue, shiftLeft_eq_mul, Nat.mul_mod_left] at hrest
  exact hrest rfl

/-- One tenth, up to the precision of the format. -/
def tenth : Nat := 7205759403792794 <<< 1018

theorem decode_encoded_tenth :
    let q := |Binary.toRat (.finite true tenth : Binary64)|
    ∃ w, encode? (.finite true tenth) = some w ∧ ¬IsWord q ∧
      ∃ e, IsExponent e q ∧ e ≠ -128 ∧ |(decode w).toRat - q| ≤ 2 ^ (e - 32) := by
  intro q
  have hencode : encode? (.finite true tenth) = some ⟨0x7D, 0x4CCCCCCD⟩ := by decide +kernel
  have hword : ¬IsWord q := by
    rw [show q = _ from Binary.abs_toRat_finite true tenth]
    exact not_isWord_of_mod (by decide +kernel)
  obtain ⟨e, he, hmore, hleast⟩ := (decode_encoded hencode).2 hword
  have hne : e ≠ -128 := by
    intro h
    exact absurd (hleast h).1 (by decide)
  exact ⟨_, hencode, hword, e, he, hne, (hmore hne).2⟩

theorem value_one_shiftLeft (bits : Nat) :
    ((1 <<< bits : ℕ) / 2 ^ format64.scale : ℚ) = 2 ^ ((bits : ℤ) - format64.scale) := by
  rw [Nat.shiftLeft_eq, Nat.one_mul, Nat.cast_pow, Nat.cast_ofNat, zpow_sub₀ two_ne_zero,
    zpow_natCast, zpow_natCast]

/-- Two to the power of -129 is encoded like zero, and decoded as zero. -/
theorem decode_encoded_leastExponent :
    let q := |Binary.toRat (.finite false (1 <<< 945) : Binary64)|
    q = 2 ^ (-129 : ℤ) ∧ ¬IsWord q ∧ IsExponent (-128) q ∧
      encode? (.finite false (1 <<< 945)) = some ⟨0, 0⟩ ∧ decode ⟨0, 0⟩ = .finite false 0 ∧
      2 ^ (-128 - 32 : ℤ) < |(decode ⟨0, 0⟩).toRat - q| := by
  intro q
  have hq : q = 2 ^ (-129 : ℤ) :=
    (Binary.abs_toRat_finite false (1 <<< 945)).trans (value_one_shiftLeft 945)
  have hexponent : IsExponent (-128) q := by
    rw [hq]
    exact ⟨le_rfl, zpow_lt_zpow_right₀ one_lt_two (by decide)⟩
  have hword : ¬IsWord q := by
    rw [show q = _ from Binary.abs_toRat_finite false (1 <<< 945)]
    exact not_isWord_of_mod (by decide +kernel)
  have hdecode : decode ⟨0, 0⟩ = .finite false 0 := by decide +kernel
  refine ⟨hq, hword, hexponent, by decide +kernel, hdecode, ?_⟩
  have hzero : (decode ⟨0, 0⟩).toRat = (0 : ℕ) := by
    rw [hdecode, Binary.toRat_finite_false, Nat.cast_zero, zero_div]
  rw [hzero]
  exact lt_abs_natCast_sub hexponent 0

end SpectrumTape.FiveByte
