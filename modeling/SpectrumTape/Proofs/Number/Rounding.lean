import SpectrumTape.Proofs.Number.Binary
import Mathlib.Data.Nat.Cast.Order.Field
import Mathlib.Tactic.FieldSimp

/-!
# Correct rounding

A quotient is rounded to a multiple of the power of two that leaves as many bits as a significand
has. Of all numbers that the significands of the format can hold, however large, none is nearer to
the quotient than the result, and if another one is as near the result has an even significand
(`roundsTo_roundedUnits`). So `Binary.round` is correct rounding, to infinity from the bound of the
format on (`isRounding_round`).

Two bounds are enough to decide very large and very small quotients (`round_of_le`,
`round_of_lt`).
-/

namespace SpectrumTape.Binary

/-- A number of units is the nearest one to `x` that a significand of the format can hold, and an
even one if another is as near: it is then a multiple of twice the unit in its last place. -/
structure Format.RoundsTo (f : Format) (x : ℚ) (units : Nat) : Prop where
  precise : f.Precise units
  nearest : ∀ other, f.Precise other → |(units : ℚ) - x| ≤ |(other : ℚ) - x|
  even : ∀ other, f.Precise other → other ≠ units → |(other : ℚ) - x| = |(units : ℚ) - x| →
    2 ^ (f.excess units + 1) ∣ units

/-- The number is the correctly rounded one for a rational number that is not negative: finite below
the bound of the format, infinite from there on. -/
def IsRounding {f : Format} (q : ℚ) (v : Binary f) : Prop :=
  ∃ units, f.RoundsTo (q * 2 ^ f.scale) units ∧
    v = if units < 2 ^ (f.scale + f.range) then .finite false units else .infinite false

/-! ### Quotients -/

theorem roundDiv_bounds (num : Nat) {den : Nat} (hden : 0 < den) :
    2 * num ≤ (2 * roundDiv num den + 1) * den ∧ 2 * roundDiv num den * den ≤ 2 * num + den ∧
      (2 * num = (2 * roundDiv num den + 1) * den ∨ 2 * roundDiv num den * den = 2 * num + den →
        roundDiv num den % 2 = 0) := by
  have hdivision := Nat.div_add_mod num den
  have hrest := Nat.mod_lt num hden
  have hproduct : (2 * (num / den) + 1) * den = 2 * (den * (num / den)) + den := by ring
  unfold roundDiv
  simp only [Bool.or_eq_true, decide_eq_true_eq, Bool.and_eq_true, beq_iff_eq]
  split_ifs with hup
  · rw [show (2 * (num / den + 1) + 1) * den = 2 * (den * (num / den)) + 3 * den by ring,
      show 2 * (num / den + 1) * den = 2 * (den * (num / den)) + 2 * den by ring]
    omega
  · rw [hproduct, show 2 * (num / den) * den = 2 * (den * (num / den)) by ring]
    omega

theorem roundDiv_le (num den : Nat) : roundDiv num den ≤ num / den + 1 := by
  unfold roundDiv
  dsimp only
  split_ifs <;> omega

theorem le_roundDiv (num den : Nat) : num / den ≤ roundDiv num den := by
  unfold roundDiv
  dsimp only
  split_ifs <;> omega

theorem roundDiv_nearest (num : Nat) {den : Nat} (hden : 0 < den) (other : Nat) :
    |(roundDiv num den : ℚ) - num / den| ≤ |(other : ℚ) - num / den| ∧
      (other ≠ roundDiv num den →
        |(other : ℚ) - num / den| = |(roundDiv num den : ℚ) - num / den| →
          roundDiv num den % 2 = 0) := by
  obtain ⟨hlow, hhigh, heven⟩ := roundDiv_bounds num hden
  generalize roundDiv num den = rounded at *
  have hpos : (0 : ℚ) < den := by exact_mod_cast hden
  have hlow' : (num / den : ℚ) ≤ rounded + 1 / 2 := by
    rw [div_le_iff₀ hpos]
    have : (2 * num : ℚ) ≤ (2 * rounded + 1) * den := by exact_mod_cast hlow
    linarith
  have hhigh' : (rounded : ℚ) - 1 / 2 ≤ num / den := by
    rw [le_div_iff₀ hpos]
    have : (2 * rounded * den : ℚ) ≤ 2 * num + den := by exact_mod_cast hhigh
    linarith
  -- A tie is met exactly if the quotient lies in the middle between two whole numbers.
  have htie : (num / den : ℚ) = rounded + 1 / 2 ∨ (num / den : ℚ) = rounded - 1 / 2 →
      rounded % 2 = 0 := by
    intro h
    apply heven
    rcases h with h | h
    · left
      rw [div_eq_iff hpos.ne'] at h
      have : (2 * num : ℚ) = (2 * rounded + 1) * den := by rw [h]; ring
      exact_mod_cast this
    · right
      rw [div_eq_iff hpos.ne'] at h
      have : (2 * rounded * den : ℚ) = 2 * num + den := by rw [h]; ring
      exact_mod_cast this
  generalize (num / den : ℚ) = y at *
  have hnear : |(rounded : ℚ) - y| ≤ 1 / 2 := abs_le.mpr ⟨by linarith, by linarith⟩
  rcases lt_trichotomy other rounded with hlt | rfl | hgt
  · have hstep : (other : ℚ) + 1 ≤ rounded := by exact_mod_cast hlt
    have hother : |(other : ℚ) - y| = y - other := by
      rw [abs_sub_comm, abs_of_nonneg (by linarith)]
    refine ⟨by rw [hother]; linarith, ?_⟩
    intro _ hsame
    rw [hother] at hsame
    apply htie
    right
    linarith
  · exact ⟨le_rfl, fun hne => absurd rfl hne⟩
  · have hstep : (rounded : ℚ) + 1 ≤ other := by exact_mod_cast hgt
    have hother : |(other : ℚ) - y| = other - y := abs_of_nonneg (by linarith)
    refine ⟨by rw [hother]; linarith, ?_⟩
    intro _ hsame
    rw [hother] at hsame
    apply htie
    left
    linarith

/-! ### Rounding to a significand -/

/-- The quotient, rounded to as many bits as a significand has. -/
def Format.roundedUnits (f : Format) (num den : Nat) : Nat :=
  roundDiv num (den * 2 ^ f.excess (num / den)) * 2 ^ f.excess (num / den)

theorem round_eq (f : Format) (negative : Bool) (num den : Nat) :
    round f negative num den =
      let units := f.roundedUnits (num * 2 ^ f.scale) den
      if units < 2 ^ (f.scale + f.range) then .finite negative units else .infinite negative := by
  unfold round Format.roundedUnits
  simp only [Nat.shiftLeft_eq, Nat.one_mul]

namespace Format

variable {f : Format}

theorem bitLength_le_excess (f : Format) (units : Nat) :
    bitLength units ≤ f.precision + f.excess units := by
  unfold excess
  omega

theorem quotient_lt (num den : Nat) :
    num / (den * 2 ^ f.excess (num / den)) < 2 ^ f.precision := by
  rw [← Nat.div_div_eq_div_mul, Nat.div_lt_iff_lt_mul (Nat.two_pow_pos _), ← pow_add]
  exact bitLength_le_iff.mp (f.bitLength_le_excess _)

/-- A number that is no multiple of the last place of `whole` lies below the power of two next below
`whole`. -/
theorem Precise.lt_of_not_dvd {whole other : Nat} (h : f.Precise other)
    (hdvd : ¬2 ^ f.excess whole ∣ other) :
    f.precision + f.excess whole = bitLength whole ∧
      other < 2 ^ (f.precision + f.excess whole - 1) := by
  have hexcess : f.excess whole ≠ 0 := by
    intro hzero
    rw [hzero, pow_zero] at hdvd
    exact hdvd (one_dvd other)
  have hshort : ¬f.excess whole + f.precision ≤ bitLength other := fun hlong => hdvd (h.dvd hlong)
  refine ⟨by unfold excess at *; omega, ?_⟩
  rw [← bitLength_le_iff]
  omega

theorem precise_mul_two_pow {significand : Nat} (hle : significand ≤ 2 ^ f.precision) (zeros : Nat)
    (hf : 0 < f.precision) : f.Precise (significand * 2 ^ zeros) := by
  rcases Nat.lt_or_eq_of_le hle with hlt | rfl
  · exact ⟨significand, zeros, hlt, rfl⟩
  · refine ⟨1, f.precision + zeros, Nat.one_lt_two_pow hf.ne', ?_⟩
    rw [Nat.one_mul, pow_add]

theorem excess_dvd_of_even {significand zeros : Nat} (hle : significand ≤ 2 ^ f.precision)
    (hf : 1 < f.precision) (heven : significand % 2 = 0) :
    2 ^ (f.excess (significand * 2 ^ zeros) + 1) ∣ significand * 2 ^ zeros := by
  rcases Nat.lt_or_eq_of_le hle with hlt | rfl
  · have hlength := bitLength_mul_two_pow_le hlt zeros
    have hexcess : f.excess (significand * 2 ^ zeros) ≤ zeros := by
      unfold excess
      omega
    obtain ⟨half, rfl⟩ := Nat.dvd_of_mod_eq_zero heven
    have hfactor : 2 * half * 2 ^ zeros = half * 2 ^ (zeros + 1) := by ring
    rw [hfactor] at hexcess ⊢
    exact (Nat.pow_dvd_pow 2 (by omega)).mul_left half
  · rw [← pow_add]
    have hlength : bitLength (2 ^ (f.precision + zeros)) ≤ f.precision + zeros + 1 := by
      rw [bitLength_le_iff]
      exact Nat.pow_lt_pow_right (by decide) (by omega)
    apply Nat.pow_dvd_pow
    unfold excess
    omega

theorem abs_mul_two_pow_sub (m num : Nat) {den : Nat} (hden : 0 < den) (drop : Nat) :
    |((m * 2 ^ drop : ℕ) : ℚ) - num / den| =
      |(m : ℚ) - num / (den * 2 ^ drop : ℕ)| * 2 ^ drop := by
  have hpos : (den : ℚ) ≠ 0 := by exact_mod_cast hden.ne'
  have hscale : ((m * 2 ^ drop : ℕ) : ℚ) - num / den =
      ((m : ℚ) - num / (den * 2 ^ drop : ℕ)) * 2 ^ drop := by
    push_cast
    field_simp
  rw [hscale, abs_mul, abs_of_pos (show (0 : ℚ) < 2 ^ drop by positivity)]

section Distance

variable {num den : Nat} (hden : 0 < den)
include hden

theorem roundedUnits_nearest (m : Nat) :
    |(f.roundedUnits num den : ℚ) - num / den| ≤
      |((m * 2 ^ f.excess (num / den) : ℕ) : ℚ) - num / den| := by
  have hpos := Nat.mul_pos hden (Nat.two_pow_pos (f.excess (num / den)))
  rw [roundedUnits, abs_mul_two_pow_sub _ _ hden, abs_mul_two_pow_sub _ _ hden]
  exact mul_le_mul_of_nonneg_right (roundDiv_nearest num hpos m).1 (by positivity)

theorem roundedUnits_lt_of_not_dvd (hf : 0 < f.precision) {other : Nat} (hother : f.Precise other)
    (hdvd : ¬2 ^ f.excess (num / den) ∣ other) :
    |(f.roundedUnits num den : ℚ) - num / den| < |(other : ℚ) - num / den| := by
  obtain ⟨hlength, hlt⟩ := hother.lt_of_not_dvd hdvd
  have hpos : 0 < num / den := by
    apply Nat.pos_of_ne_zero
    intro hzero
    rw [hzero, bitLength, if_pos rfl] at hlength
    omega
  have hpower := two_pow_bitLength_le hpos
  rw [← hlength] at hpower
  have hbelow : ((2 ^ (f.precision + f.excess (num / den) - 1) : ℕ) : ℚ) ≤ num / den :=
    (Nat.cast_le.mpr hpower).trans Nat.cast_div_le
  have habove : (other : ℚ) < (2 ^ (f.precision + f.excess (num / den) - 1) : ℕ) := by
    exact_mod_cast hlt
  have hmultiple : 2 ^ (f.precision - 1) * 2 ^ f.excess (num / den) =
      2 ^ (f.precision + f.excess (num / den) - 1) := by
    rw [← pow_add]
    congr 1
    omega
  refine (roundedUnits_nearest hden (2 ^ (f.precision - 1))).trans_lt ?_
  rw [hmultiple, abs_sub_comm, abs_of_nonneg (by linarith), abs_sub_comm (other : ℚ),
    abs_of_nonneg (by linarith)]
  linarith

end Distance

/-- **The rounded quotient is the nearest number that a significand can hold.** -/
theorem roundsTo_roundedUnits (hf : 1 < f.precision) (num : Nat) {den : Nat} (hden : 0 < den) :
    f.RoundsTo (num / den) (f.roundedUnits num den) := by
  have hle : roundDiv num (den * 2 ^ f.excess (num / den)) ≤ 2 ^ f.precision :=
    (roundDiv_le _ _).trans (f.quotient_lt num den)
  refine ⟨precise_mul_two_pow hle _ (by omega), ?_, ?_⟩
  · intro other hother
    by_cases hdvd : 2 ^ f.excess (num / den) ∣ other
    · obtain ⟨m, rfl⟩ := hdvd
      rw [Nat.mul_comm _ m]
      exact roundedUnits_nearest hden m
    · exact (roundedUnits_lt_of_not_dvd hden (by omega) hother hdvd).le
  · intro other hother hne hsame
    by_cases hdvd : 2 ^ f.excess (num / den) ∣ other
    · obtain ⟨m, rfl⟩ := hdvd
      rw [Nat.mul_comm _ m] at hne hsame
      rw [roundedUnits, abs_mul_two_pow_sub _ _ hden, abs_mul_two_pow_sub _ _ hden] at hsame
      apply excess_dvd_of_even hle hf
      apply (roundDiv_nearest num (Nat.mul_pos hden (Nat.two_pow_pos _)) m).2
      · rintro rfl
        exact hne rfl
      · exact mul_right_cancel₀ (by positivity) hsame
    · exact absurd hsame (roundedUnits_lt_of_not_dvd hden (by omega) hother hdvd).ne'

end Format

/-- **Rounding is correct**, for any format with at least two bits. -/
theorem isRounding_round {f : Format} (hf : 1 < f.precision) (num : Nat) {den : Nat}
    (hden : 0 < den) : IsRounding (num / den) (round f false num den) := by
  refine ⟨f.roundedUnits (num * 2 ^ f.scale) den, ?_, round_eq f false num den⟩
  have h := Format.roundsTo_roundedUnits hf (num * 2 ^ f.scale) hden
  push_cast at h
  rwa [div_mul_eq_mul_div]

/-! ### Large and small quotients -/

theorem two_pow_le_roundedUnits {f : Format} {num den bits : Nat} (hf : 0 < f.precision)
    (hle : 2 ^ bits ≤ num / den) : 2 ^ bits ≤ f.roundedUnits num den := by
  have hpos : 0 < num / den := (Nat.two_pow_pos bits).trans_le hle
  have hround := le_roundDiv num (den * 2 ^ f.excess (num / den))
  rw [← Nat.div_div_eq_div_mul] at hround
  unfold Format.roundedUnits
  generalize hdrop : f.excess (num / den) = drop at hround ⊢
  by_cases hsmall : drop ≤ bits
  · have hpower : 2 ^ bits = 2 ^ (bits - drop) * 2 ^ drop := by
      rw [← pow_add, Nat.sub_add_cancel hsmall]
    rw [hpower] at hle ⊢
    apply Nat.mul_le_mul_right
    exact ((Nat.le_div_iff_mul_le (Nat.two_pow_pos drop)).mpr hle).trans hround
  · -- More bits are dropped than the power of two has, and one that is left makes up for them.
    have hlast : 1 ≤ num / den / 2 ^ drop := by
      rw [Nat.le_div_iff_mul_le (Nat.two_pow_pos drop), Nat.one_mul]
      refine le_trans (Nat.pow_le_pow_right (by decide) ?_) (two_pow_bitLength_le hpos)
      rw [← hdrop] at hsmall ⊢
      unfold Format.excess at *
      omega
    calc 2 ^ bits ≤ 1 * 2 ^ drop := by
          rw [Nat.one_mul]
          exact Nat.pow_le_pow_right (by decide) (by omega)
      _ ≤ _ := Nat.mul_le_mul_right _ (hlast.trans hround)

theorem round_of_le {f : Format} (negative : Bool) {num den : Nat} (hden : 0 < den)
    (hf : 0 < f.precision) (hle : 2 ^ f.range * den ≤ num) :
    round f negative num den = .infinite negative := by
  have hquotient : 2 ^ (f.scale + f.range) ≤ num * 2 ^ f.scale / den := by
    rw [Nat.le_div_iff_mul_le hden, Nat.add_comm, pow_add, Nat.mul_right_comm]
    exact Nat.mul_le_mul_right _ hle
  rw [round_eq]
  exact if_neg (Nat.not_lt.mpr (two_pow_le_roundedUnits hf hquotient))

theorem round_of_lt {f : Format} (negative : Bool) {num den : Nat}
    (hlt : num * 2 ^ (f.scale + 1) < den) : round f negative num den = .finite negative 0 := by
  have hhalf : 2 * (num * 2 ^ f.scale) < den := by
    rw [pow_succ] at hlt
    linarith
  have hunits : f.roundedUnits (num * 2 ^ f.scale) den = 0 := by
    generalize num * 2 ^ f.scale = scaled at hhalf
    have hquotient : scaled / den = 0 := Nat.div_eq_of_lt (by omega)
    have hrest : scaled % den = scaled := Nat.mod_eq_of_lt (by omega)
    have hexcess : f.excess 0 = 0 := by simp [Format.excess, bitLength]
    simp only [Format.roundedUnits, hquotient, hexcess, pow_zero, Nat.mul_one, roundDiv, hrest]
    rw [if_neg]
    simp only [Bool.or_eq_true, decide_eq_true_eq, Bool.and_eq_true, beq_iff_eq]
    omega
  rw [round_eq, hunits]
  exact if_pos (Nat.two_pow_pos _)

end SpectrumTape.Binary
