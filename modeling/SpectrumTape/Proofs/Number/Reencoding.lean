import SpectrumTape.Proofs.Number.FiveByte

/-!
# Encoding what was decoded

A form with an exponent stands for its mantissa of 32 bits with zeros behind it (`decode_eq`). The
encoder finds these 32 bits and the exponent again (`leadingBits_mul_two_pow`), and no bit behind them
is set, so nothing is rounded. Only whole numbers that have a form of their own are written in
another way than they were read, and that form stands for the same number (`encode?_decode`).
-/

namespace SpectrumTape.FiveByte

open Binary (bitLength format64)

/-- The number of zeros behind the mantissa of a form with an exponent, in units of the format. -/
def zeros (w : FiveByte) : Nat := format64.scale + w.exponent.toNat - 160

/-- The mantissa of a form with an exponent, with its first bit in the place of the sign. -/
def significand (w : FiveByte) : Nat := w.mantissa.toNat + 2 ^ 31

theorem zeros_eq (w : FiveByte) : w.zeros = w.exponent.toNat + 914 := by
  have hscale : format64.scale = 1074 := rfl
  unfold zeros
  omega

/-! ### Decoding -/

theorem decode_eq {w : FiveByte} (hexponent : w.exponent ≠ 0) (hmantissa : w.mantissa.toNat < 2 ^ 31) :
    decode w = .finite false (w.significand * 2 ^ w.zeros) := by
  have hsign : decide (0x80000000 ≤ w.mantissa.toNat) = false := decide_eq_false (by omega)
  have hrest : w.mantissa.toNat % 0x80000000 = w.mantissa.toNat := Nat.mod_eq_of_lt hmantissa
  unfold decode
  simp only [if_neg hexponent, hsign, hrest]
  rw [Nat.shiftLeft_eq]
  rfl

theorem bitLength_significand {w : FiveByte} (hmantissa : w.mantissa.toNat < 2 ^ 31) :
    bitLength w.significand = 32 := by
  have hlow : 31 < bitLength w.significand :=
    Binary.lt_bitLength_iff.mpr (Nat.le_add_left _ _)
  have hhigh : bitLength w.significand ≤ 32 := by
    rw [Binary.bitLength_le_iff, significand]
    omega
  omega

/-- What is decoded is a number of the format, so no bit of it is lost. -/
theorem holds_decode {w : FiveByte} (hmantissa : w.mantissa.toNat < 2 ^ 31) :
    format64.Holds (w.significand * 2 ^ w.zeros) := by
  have hexponent := w.exponent.toNat_lt
  have hsmall : w.significand < 2 ^ format64.precision := by
    rw [significand, show format64.precision = 53 from rfl]
    omega
  have hroom : format64.precision + w.zeros ≤ format64.scale + format64.range := by
    have hzeros := w.zeros_eq
    change 53 + w.zeros ≤ 1074 + 1024
    omega
  exact Binary.Format.holds_mul_two_pow hsmall hroom

/-! ### Encoding -/

theorem leadingBits_mul_two_pow {n : Nat} (hn : bitLength n = 32) (zeros : Nat) :
    leadingBits (n * 2 ^ zeros) = 2 * n := by
  have hpos : 0 < n := Nat.pos_of_ne_zero fun h => by simp [h, bitLength] at hn
  rw [leadingBits, Binary.bitLength_mul_two_pow hpos, hn]
  cases zeros with
  | zero => rw [if_neg (by decide), Nat.shiftLeft_eq, pow_zero, Nat.mul_one, Nat.mul_comm]
  | succ zeros =>
    rw [if_pos (by omega), Nat.shiftRight_eq_div_pow, show 32 + (zeros + 1) - 33 = zeros by omega,
      pow_succ, Nat.mul_comm (2 ^ zeros), ← Nat.mul_assoc, Nat.mul_div_cancel _ (Nat.two_pow_pos _),
      Nat.mul_comm]

theorem roundedMantissa_mul_two_pow {n : Nat} (hn : bitLength n = 32) (zeros : Nat) :
    roundedMantissa (n * 2 ^ zeros) = n := by
  have hlt : n < 2 ^ 32 := Binary.bitLength_le_iff.mp hn.le
  rw [roundedMantissa_eq_min, leadingBits_mul_two_pow hn]
  omega

theorem binaryExponent_significand {w : FiveByte} (hmantissa : w.mantissa.toNat < 2 ^ 31) :
    binaryExponent (w.significand * 2 ^ w.zeros) = (w.exponent.toNat : ℤ) - 128 := by
  have hpos : 0 < w.significand := by
    rw [significand]
    omega
  have hscale : format64.scale = 1074 := rfl
  rw [binaryExponent, Binary.bitLength_mul_two_pow hpos, bitLength_significand hmantissa, zeros_eq]
  omega

theorem encode?_significand {w : FiveByte} (hexponent : w.exponent ≠ 0)
    (hmantissa : w.mantissa.toNat < 2 ^ 31)
    (hword : ¬IsWord ((w.significand * 2 ^ w.zeros : ℕ) / 2 ^ format64.scale)) :
    encode? (.finite false (w.significand * 2 ^ w.zeros)) = some w := by
  have hnonzero : w.exponent.toNat ≠ 0 := fun h => hexponent (UInt8.toNat_inj.mp h)
  have hbyte := w.exponent.toNat_lt
  rw [encode?_of_not_isWord false hword, binaryExponent_significand hmantissa,
    roundedMantissa_mul_two_pow (bitLength_significand hmantissa), if_neg (by omega),
    Int.sub_add_cancel, Int.toNat_natCast, significand, Nat.add_sub_cancel, UInt8.ofNat_toNat,
    UInt32.ofNat_toNat]

theorem eq_natAbs_of_value {units : Nat} {n : ℤ} (h : (units / 2 ^ format64.scale : ℚ) = n) :
    (units / 2 ^ format64.scale : ℚ) = n.natAbs := by
  have hvalue : (0 : ℚ) ≤ units / 2 ^ format64.scale :=
    div_nonneg units.cast_nonneg (by positivity)
  rw [h, Int.cast_nonneg_iff] at hvalue
  rw [h, Nat.cast_natAbs, abs_of_nonneg hvalue]

/-- **Encoding gives back every form with an exponent that was decoded**, unless the number is a whole
one of at most 65535, which has the form of whole numbers. In both cases what is encoded stands for the
number that was decoded. -/
theorem encode?_decode {w : FiveByte} (hexponent : w.exponent ≠ 0)
    (hmantissa : w.mantissa.toNat < 2 ^ 31) :
    let v := decode w
    (∃ units, v = .finite false units ∧ format64.Holds units) ∧
    ((¬∃ n : ℤ, |n| ≤ 65535 ∧ v.toRat = n) → encode? v = some w) ∧
    (∀ n : ℤ, |n| ≤ 65535 → v.toRat = n → encode? v = some (ofWord n.natAbs)) ∧
    ∃ x, encode? v = some x ∧ decode x = v := by
  intro v
  have hv : v = .finite false (w.significand * 2 ^ w.zeros) := decode_eq hexponent hmantissa
  have hvalue : v.toRat = (w.significand * 2 ^ w.zeros : ℕ) / 2 ^ format64.scale := by
    rw [hv, Binary.toRat_finite_false]
  have hother : (¬∃ n : ℤ, |n| ≤ 65535 ∧ v.toRat = n) → encode? v = some w := by
    intro hnone
    rw [hv]
    refine encode?_significand hexponent hmantissa ?_
    rintro ⟨n, hn, heq⟩
    refine hnone ⟨n, ?_, hvalue.trans heq⟩
    rw [Nat.abs_cast]
    exact_mod_cast hn
  have hwhole (n : ℤ) (hn : |n| ≤ 65535) (heq : v.toRat = n) :
      encode? v = some (ofWord n.natAbs) ∧ decode (ofWord n.natAbs) = v := by
    have hnat := eq_natAbs_of_value (hvalue.symm.trans heq)
    have hsmall : n.natAbs ≤ 65535 := by
      rw [Int.abs_eq_natAbs] at hn
      omega
    rw [hv]
    refine ⟨encode?_of_eq_natCast false hsmall hnat, ?_⟩
    rw [decode_ofWord hsmall, value_eq_natCast_iff.mp hnat]
  refine ⟨⟨_, hv, holds_decode hmantissa⟩, hother, fun n hn heq => (hwhole n hn heq).1, ?_⟩
  by_cases hword : ∃ n : ℤ, |n| ≤ 65535 ∧ v.toRat = n
  · obtain ⟨n, hn, heq⟩ := hword
    exact ⟨_, hwhole n hn heq⟩
  · exact ⟨w, hother hword, rfl⟩

theorem encode?_decode_lastWord :
    (¬∃ n : ℤ, |n| ≤ 65535 ∧ (decode ⟨0x90, 0x7FFFFFFF⟩).toRat = n) ∧
      encode? (decode ⟨0x90, 0x7FFFFFFF⟩) = some ⟨0x90, 0x7FFFFFFF⟩ ∧
      (decode ⟨0x90, 0x7FFF0000⟩).toRat = (65535 : ℤ) ∧
      encode? (decode ⟨0x90, 0x7FFF0000⟩) = some (ofWord 65535) ∧
      ∃ x, encode? (decode ⟨0x90, 0x7FFF0000⟩) = some x ∧ decode x = decode ⟨0x90, 0x7FFF0000⟩ := by
  have hmost : (decode ⟨0x90, 0x7FFFFFFF⟩).toRat = (0xFFFFFFFF : ℕ) * 2 ^ (-16 : ℤ) :=
    toRat_decode (by decide) (by decide)
  have hwhole : (decode ⟨0x90, 0x7FFF0000⟩).toRat = (0xFFFF0000 : ℕ) * 2 ^ (-16 : ℤ) :=
    toRat_decode (by decide) (by decide)
  have hnone : ¬∃ n : ℤ, |n| ≤ 65535 ∧ (decode ⟨0x90, 0x7FFFFFFF⟩).toRat = n := by
    rintro ⟨n, -, heq⟩
    rw [hmost, zpow_neg, ← div_eq_mul_inv, div_eq_iff (by positivity)] at heq
    have hint : (0xFFFFFFFF : ℤ) = n * 2 ^ 16 := by exact_mod_cast heq
    omega
  have hvalue : (decode ⟨0x90, 0x7FFF0000⟩).toRat = (65535 : ℤ) := by
    rw [hwhole]
    norm_num
  obtain ⟨-, hother, -, -⟩ := encode?_decode
    (by decide : (⟨0x90, 0x7FFFFFFF⟩ : FiveByte).exponent ≠ 0) (by decide)
  obtain ⟨-, -, hword, hagain⟩ := encode?_decode
    (by decide : (⟨0x90, 0x7FFF0000⟩ : FiveByte).exponent ≠ 0) (by decide)
  exact ⟨hnone, hother hnone, hvalue, hword 65535 (by decide) hvalue, hagain⟩

end SpectrumTape.FiveByte
