import SpectrumTape.Proofs.Number.FiveByte

/-!
# The five byte form, loop by loop

A number can be brought into the five byte form with the arithmetic of the format alone. Two loops
halve or double it until it lies between one half and one and count the exponent
(`Scaling.Normalises`); then 32 bits are taken off it, one after the other (`Peeling.next`), and the
bit behind them rounds the mantissa (`Peeling.rounded`).

The loops end for every number that the format holds, because every number they go through is one
that it holds: nothing is rounded on the way (`Scaling.exists_normalises`, `Peeling.Taken.next`). What
they give is the form that `FiveByte.encode?` computes from the bits of the number, and both are the
closed form that `encode?_finite` states.
-/

namespace SpectrumTape

/-! ### Arithmetic of the format -/

namespace Binary

variable {f : Format}

def half : Binary f → Binary f
  | .finite negative units => round f negative units (2 * 2 ^ f.scale)
  | v => v

def twice : Binary f → Binary f
  | .finite negative units => round f negative (2 * units) (2 ^ f.scale)
  | v => v

def magnitude : Binary f → Binary f
  | .nan => .nan
  | .infinite _ => .infinite false
  | .finite _ units => .finite false units

/-- The whole part of a number that is not negative, in a word of 32 bits. -/
def whole (v : Binary f) : UInt32 := UInt32.ofNat (v.truncate?.getD 0).toNat

theorem half_finite (negative : Bool) {units : Nat} (h : f.Holds units) :
    half (.finite negative (units * 2) : Binary f) = .finite negative units := by
  apply round_of_holds negative (Nat.mul_pos two_pos (Nat.two_pow_pos _)) _ h
  rw [Nat.mul_assoc]

theorem twice_finite (negative : Bool) {units : Nat} (h : f.Holds (units * 2)) :
    twice (.finite negative units : Binary f) = .finite negative (units * 2) := by
  apply round_of_holds negative (Nat.two_pow_pos _) _ h
  rw [Nat.mul_comm 2]

theorem one_le_toRat_iff {units : Nat} :
    1 ≤ toRat (.finite false units : Binary f) ↔ 2 ^ f.scale ≤ units := by
  rw [toRat_finite_false, le_div_iff₀ (by positivity), one_mul]
  norm_cast

theorem toRat_lt_half_iff {units : Nat} :
    toRat (.finite false units : Binary f) < 1 / 2 ↔ units * 2 < 2 ^ f.scale := by
  rw [toRat_finite_false, div_lt_div_iff₀ (by positivity) (by positivity), one_mul]
  norm_cast

theorem toNat_whole {units : Nat} (hunits : units < 2 ^ f.scale * 2) :
    (whole (.finite false units : Binary f)).toNat = units / 2 ^ f.scale := by
  have hsmall : units / 2 ^ f.scale < 2 := Nat.div_lt_of_lt_mul hunits
  have hwhole : whole (.finite false units : Binary f) = UInt32.ofNat (units / 2 ^ f.scale) := by
    simp only [whole, truncate?, Bool.false_eq_true, if_false, Option.getD_some, Int.toNat_natCast,
      Nat.shiftRight_eq_div_pow]
  rw [hwhole, UInt32.toNat_ofNat']
  exact Nat.mod_eq_of_lt (hsmall.trans (by decide))

theorem negate_ofInt_bit {bit : Nat} (hbit : bit < 2) :
    negate (ofInt (bit : ℕ)) = .finite true (bit <<< format64.scale) := by
  have hnegative : decide ((bit : ℤ) < 0) = false := decide_eq_false (by omega)
  rw [ofInt, hnegative, Int.natAbs_natCast, round_natCast false (hbit.trans (by decide)), negate,
    Bool.not_false]
  rfl

theorem add_opposite {units other : Nat} (hle : other ≤ units) (h : f.Holds (units - other)) :
    add (.finite false units : Binary f) (.finite true other) = .finite false (units - other) := by
  have hsum : ((units : ℤ) + -(other : ℤ)) = ((units - other : ℕ) : ℤ) := by omega
  simp only [add, Bool.false_eq_true, if_false, if_true, hsum, Bool.and_true]
  split_ifs with hzero
  · rw [Int.natCast_eq_zero.mp hzero]
  · rw [decide_eq_false (by omega), Int.natAbs_natCast]
    apply round_of_holds false (one_shiftLeft_pos _) _ h
    rw [Nat.shiftLeft_eq, Nat.one_mul]

end Binary

/-! ### The loops -/

/-- What a loop makes of a state: the body is run as long as the test holds. A loop that does not end
makes nothing of it. -/
inductive Loop {σ : Type} (test : σ → Prop) (body : σ → σ) : σ → σ → Prop
  | ends {s : σ} (htest : ¬test s) : Loop test body s s
  | goes {s t : σ} (htest : test s) (hloop : Loop test body (body s) t) : Loop test body s t

/-- A number, and the power of two that was taken out of it. -/
structure Scaling (f : Binary.Format) where
  number : Binary f
  exponent : ℤ

namespace Scaling

variable {f : Binary.Format}

/-- One round of the loop for numbers that are too large. -/
def halved (s : Scaling f) : Scaling f := ⟨s.number.half, s.exponent + 1⟩

/-- One round of the loop for numbers that are too small. -/
def doubled (s : Scaling f) : Scaling f := ⟨s.number.twice, s.exponent - 1⟩

/-- Brings a number between one half, included, and one. -/
def Normalises (v : Binary f) (s : Scaling f) : Prop :=
  ∃ middle, Loop (1 ≤ ·.number.toRat) halved ⟨v.magnitude, 0⟩ middle ∧
    Loop (·.number.toRat < 1 / 2) doubled middle s

/-- A number of units that is at least one half and below one. -/
structure Normal (f : Binary.Format) (units : Nat) : Prop where
  precise : f.Precise units
  low : 2 ^ f.scale ≤ units * 2
  high : units < 2 ^ f.scale

theorem loop_halved {units : Nat} (hunits : Normal f units) (k : Nat) (e : ℤ)
    (hbound : units * 2 ^ k < 2 ^ (f.scale + f.range)) :
    Loop (1 ≤ ·.number.toRat) halved ⟨.finite false (units * 2 ^ k), e⟩
      (⟨.finite false units, e + k⟩ : Scaling f) := by
  induction k generalizing e with
  | zero =>
    rw [pow_zero, Nat.mul_one, Nat.cast_zero, add_zero]
    apply Loop.ends
    rw [Binary.one_le_toRat_iff]
    exact hunits.high.not_ge
  | succ k ih =>
    rw [pow_succ, ← Nat.mul_assoc] at hbound ⊢
    have hpow : units * 1 ≤ units * 2 ^ k := Nat.mul_le_mul_left _ Nat.one_le_two_pow
    have hsmaller : units * 2 ^ k < 2 ^ (f.scale + f.range) := by omega
    refine Loop.goes ?_ ?_
    · have := hunits.low
      exact Binary.one_le_toRat_iff.mpr (by omega)
    · have hhalf := Binary.half_finite false ⟨hunits.precise.mul_two_pow k, hsmaller⟩
      rw [halved, hhalf, Nat.cast_succ, ← add_assoc, add_right_comm]
      exact ih (e + 1) hsmaller

theorem loop_doubled {units k : Nat} (hunits : Normal f (units * 2 ^ k)) (hrange : 0 < f.range)
    (e : ℤ) :
    Loop (·.number.toRat < 1 / 2) doubled ⟨.finite false units, e⟩
      (⟨.finite false (units * 2 ^ k), e - k⟩ : Scaling f) := by
  induction k generalizing units e with
  | zero =>
    rw [pow_zero, Nat.mul_one] at hunits ⊢
    rw [Nat.cast_zero, sub_zero]
    apply Loop.ends
    rw [Binary.toRat_lt_half_iff]
    exact hunits.low.not_gt
  | succ k ih =>
    have hshift : units * 2 ^ (k + 1) = units * 2 * 2 ^ k := by rw [pow_succ]; ring
    rw [hshift] at hunits ⊢
    have hpow : units * 2 * 1 ≤ units * 2 * 2 ^ k := Nat.mul_le_mul_left _ Nat.one_le_two_pow
    have hsmaller : units * 2 < 2 ^ f.scale := by
      have := hunits.high
      omega
    refine Loop.goes (Binary.toRat_lt_half_iff.mpr hsmaller) ?_
    have hholds : f.Holds (units * 2) := by
      refine ⟨hunits.precise.of_mul_two_pow, hsmaller.trans_le ?_⟩
      exact Nat.pow_le_pow_right (by decide) (by omega)
    rw [doubled, Binary.twice_finite false hholds, Nat.cast_succ, ← sub_sub, sub_right_comm]
    exact ih hunits (e - 1)

theorem normal_of_bitLength {units : Nat} (hprecise : f.Precise units)
    (hlength : Binary.bitLength units = f.scale) (hscale : 0 < f.scale) : Normal f units := by
  have hlow : 2 ^ (f.scale - 1) ≤ units := Binary.lt_bitLength_iff.mp (by omega)
  have hpow : 2 ^ f.scale = 2 ^ (f.scale - 1) * 2 := by
    rw [← pow_succ, Nat.sub_add_cancel hscale]
  exact ⟨hprecise, by omega, Binary.bitLength_le_iff.mp hlength.le⟩

/-- **Both loops end**, with a number between one half and one and the exponent of the number. -/
theorem exists_normalises (negative : Bool) {units : Nat} (hpos : 0 < units) (hunits : f.Holds units)
    (hscale : 0 < f.scale) (hprecision : f.precision ≤ f.scale) (hrange : 0 < f.range) :
    ∃ normal, Normal f normal ∧
      Normalises (.finite negative units)
        (⟨.finite false normal, Binary.bitLength units - (f.scale : ℤ)⟩ : Scaling f) ∧
      (normal : ℚ) = units * 2 ^ ((f.scale : ℤ) - Binary.bitLength units) := by
  rcases Nat.le_total f.scale (Binary.bitLength units) with hlarge | hsmall
  · -- A number that is at least one half is halved, and then it is not doubled.
    obtain ⟨k, hk⟩ := Nat.exists_eq_add_of_le hlarge
    obtain ⟨normal, hnormal⟩ : 2 ^ k ∣ units := hunits.1.dvd (by omega)
    rw [Nat.mul_comm] at hnormal
    subst hnormal
    rw [Binary.bitLength_mul_two_pow (Nat.pos_of_mul_pos_right hpos)] at hk ⊢
    have hnorm := normal_of_bitLength hunits.1.of_mul_two_pow (by omega) hscale
    refine ⟨normal, hnorm, ⟨_, loop_halved hnorm k 0 hunits.2, ?_⟩, ?_⟩
    · rw [show ((Binary.bitLength normal + k : ℕ) : ℤ) - f.scale = 0 + k by omega]
      apply Loop.ends
      rw [Binary.toRat_lt_half_iff]
      exact hnorm.low.not_gt
    · rw [show (f.scale : ℤ) - (Binary.bitLength normal + k : ℕ) = -k by omega, zpow_neg, zpow_natCast,
        Nat.cast_mul, Nat.cast_pow, Nat.cast_ofNat, mul_inv_cancel_right₀ (by positivity)]
  · -- A number that is below one is not halved.
    obtain ⟨k, hk⟩ := Nat.exists_eq_add_of_le hsmall
    have hnorm : Normal f (units * 2 ^ k) := by
      apply normal_of_bitLength (hunits.1.mul_two_pow k) _ hscale
      rw [Binary.bitLength_mul_two_pow hpos, hk]
    refine ⟨_, hnorm, ⟨_, Loop.ends ?_, ?_⟩, ?_⟩
    · rw [Binary.magnitude, Binary.one_le_toRat_iff, Nat.not_le]
      exact Binary.bitLength_le_iff.mp hsmall
    · rw [show (Binary.bitLength units : ℤ) - f.scale = 0 - k by omega]
      exact loop_doubled hnorm hrange 0
    · rw [hk]
      push_cast
      rw [add_sub_cancel_left, zpow_natCast]

end Scaling

/-! ### The bits of the mantissa -/

/-- The bits of a mantissa that were taken so far, and the number that gives the others. -/
structure Peeling where
  mantissa : UInt32
  rest : Binary64

namespace Peeling

open Binary (format64)

/-- Takes the whole part of the number as the next bit, and twice the remainder as the number. -/
def next (p : Peeling) : Peeling where
  mantissa := p.mantissa <<< 1 ||| p.rest.whole
  rest := (p.rest.add (.negate (.ofInt p.rest.whole.toNat))).twice

/-- The mantissa, rounded by the bit behind it unless all its bits are set, without its first bit. -/
def rounded (p : Peeling) : UInt32 :=
  (if p.rest.whole ≠ 0 ∧ p.mantissa ≠ 0xFFFFFFFF then p.mantissa + 1 else p.mantissa) &&& 0x7FFFFFFF

/-- What holds when some bits of a number were taken: together with the number that is left they
still make up the whole number. -/
structure Taken (units count : Nat) (p : Peeling) : Prop where
  exists_rest : ∃ rest, p.rest = .finite false rest ∧ format64.Precise rest ∧
    rest < 2 ^ format64.scale * 2 ∧
    p.mantissa.toNat * (2 ^ format64.scale * 2) + rest = units * 2 ^ count
  mantissa_lt : p.mantissa.toNat < 2 ^ count

theorem rest_next {rest : Nat} (hprecise : format64.Precise rest)
    (hlt : rest < 2 ^ format64.scale * 2) (mantissa : UInt32) :
    (next ⟨mantissa, .finite false rest⟩).rest = .finite false (rest % 2 ^ format64.scale * 2) := by
  have hscale : 2 ^ format64.scale * 2 ≤ 2 ^ (format64.scale + format64.range) := by
    rw [← pow_succ]
    exact Nat.pow_le_pow_right (by decide) (by decide)
  have hmod := Nat.div_add_mod rest (2 ^ format64.scale)
  have hmodlt := Nat.mod_lt rest (Nat.two_pow_pos format64.scale)
  have hbit : (rest / 2 ^ format64.scale) <<< format64.scale =
      2 ^ format64.scale * (rest / 2 ^ format64.scale) := by
    rw [Nat.shiftLeft_eq, Nat.mul_comm]
  have hsub : rest - (rest / 2 ^ format64.scale) <<< format64.scale = rest % 2 ^ format64.scale := by
    omega
  have hprecise' := hprecise.mod hlt
  simp only [next, Binary.toNat_whole hlt]
  rw [Binary.negate_ofInt_bit (Nat.div_lt_of_lt_mul hlt),
    Binary.add_opposite (by omega) (by rw [hsub]; exact ⟨hprecise', by omega⟩), hsub,
    Binary.twice_finite false ⟨hprecise'.mul_two_pow 1, by omega⟩]

theorem mantissa_next {mantissa : UInt32} {rest count : Nat} (hlt : rest < 2 ^ format64.scale * 2)
    (hmantissa : mantissa.toNat < 2 ^ count) (hcount : count < 32) :
    (next ⟨mantissa, .finite false rest⟩).mantissa.toNat =
      mantissa.toNat * 2 + rest / 2 ^ format64.scale := by
  have hpow : 2 ^ count ≤ 2 ^ 31 := Nat.pow_le_pow_right (by decide) (by omega)
  have hshift : (mantissa <<< 1).toNat = mantissa.toNat <<< 1 := by
    rw [UInt32.toNat_shiftLeft, show (1 : UInt32).toNat % 32 = 1 from rfl]
    apply Nat.mod_eq_of_lt
    rw [Nat.shiftLeft_eq]
    omega
  have hbit : rest / 2 ^ format64.scale < 2 ^ 1 := by
    rw [pow_one]
    exact Nat.div_lt_of_lt_mul hlt
  simp only [next]
  rw [UInt32.toNat_or, hshift, Binary.toNat_whole hlt, ← Nat.shiftLeft_add_eq_or_of_lt hbit,
    Nat.shiftLeft_eq, pow_one]

theorem Taken.next {units count : Nat} {p : Peeling} (h : Taken units count p) (hcount : count < 32) :
    Taken units (count + 1) p.next := by
  obtain ⟨mantissa, number⟩ := p
  obtain ⟨⟨rest, hrest, hprecise, hlt, hsum⟩, hmantissa⟩ := h
  dsimp only at hrest hsum hmantissa
  subst hrest
  have hmod := Nat.div_add_mod rest (2 ^ format64.scale)
  have hmodlt := Nat.mod_lt rest (Nat.two_pow_pos format64.scale)
  have hbit : rest / 2 ^ format64.scale < 2 := Nat.div_lt_of_lt_mul hlt
  refine ⟨⟨_, rest_next hprecise hlt mantissa, (hprecise.mod hlt).mul_two_pow 1, by omega, ?_⟩, ?_⟩
  · rw [mantissa_next hlt hmantissa hcount, pow_succ, ← Nat.mul_assoc units, ← hsum]
    generalize rest / 2 ^ format64.scale = bit at *
    generalize rest % 2 ^ format64.scale = remainder at *
    rw [← hmod]
    generalize 2 ^ format64.scale = one
    ring
  · rw [mantissa_next hlt hmantissa hcount, pow_succ]
    omega

theorem taken_iterate {units : Nat} (hprecise : format64.Precise units)
    (hlt : units < 2 ^ format64.scale * 2) {count : Nat} (hcount : count ≤ 32) :
    Taken units count (next^[count] ⟨0, .finite false units⟩) := by
  induction count with
  | zero =>
    refine ⟨⟨units, rfl, hprecise, hlt, ?_⟩, Nat.one_pos⟩
    rw [Function.iterate_zero, id, UInt32.toNat_zero, Nat.zero_mul, Nat.zero_add, pow_zero, Nat.mul_one]
  | succ count ih =>
    rw [Function.iterate_succ_apply']
    exact (ih (by omega)).next (by omega)

/-- The bits that were taken and the bit behind them are the first bits of the number. -/
theorem Taken.leading {units count : Nat} {p : Peeling} (h : Taken units count p) :
    p.mantissa.toNat * 2 + p.rest.whole.toNat = units * 2 ^ count / 2 ^ format64.scale ∧
      p.rest.whole.toNat < 2 := by
  obtain ⟨⟨rest, hrest, _, hlt, hsum⟩, _⟩ := h
  rw [hrest, Binary.toNat_whole hlt, ← hsum]
  refine ⟨?_, Nat.div_lt_of_lt_mul hlt⟩
  rw [Nat.mul_left_comm, Nat.mul_add_div (Nat.two_pow_pos _)]

theorem Taken.rounded {units : Nat} {p : Peeling} {number : Nat} (hnumber : 0 < number)
    (h : Taken units 32 p)
    (hleading : units * 2 ^ 32 / 2 ^ format64.scale = FiveByte.leadingBits number) :
    p.rounded = UInt32.ofNat (FiveByte.roundedMantissa number - 2 ^ 31) := by
  obtain ⟨hsum, hbit⟩ := h.leading
  rw [hleading] at hsum
  have hmantissa := h.mantissa_lt
  obtain ⟨hlow, hhigh⟩ := FiveByte.roundedMantissa_bounds hnumber
  have hvalue := FiveByte.roundedMantissa_eq_min number
  rw [← hsum] at hvalue
  have hwhole : p.rest.whole = 0 ↔ p.rest.whole.toNat = 0 := UInt32.toNat_inj.symm
  have hfull : p.mantissa = 0xFFFFFFFF ↔ p.mantissa.toNat = 2 ^ 32 - 1 := UInt32.toNat_inj.symm
  apply UInt32.toNat_inj.mp
  rw [Peeling.rounded, UInt32.toNat_and, UInt32.toNat_ofNat',
    show (0x7FFFFFFF : UInt32).toNat = 2 ^ 31 - 1 from rfl, Nat.and_two_pow_sub_one_eq_mod]
  split_ifs with hup
  · rw [Ne, Ne, hwhole, hfull] at hup
    rw [UInt32.toNat_add, show (1 : UInt32).toNat = 1 from rfl]
    omega
  · rw [Ne, Ne, hwhole, hfull] at hup
    omega

end Peeling

/-- The five byte form of a number that was normalised. -/
def Scaling.form (s : Scaling Binary.format64) : Option FiveByte :=
  if s.exponent < -128 ∨ 127 < s.exponent then none
  else some ⟨UInt8.ofNat (s.exponent + 128).toNat,
    (Peeling.next^[32] ⟨0, s.number.twice⟩).rounded⟩

namespace FiveByte

open Binary (bitLength format64)

theorem leadingBits_of_normal {units normal : Nat}
    (hnormal : (normal : ℚ) = units * 2 ^ ((format64.scale : ℤ) - bitLength units)) :
    normal * 2 * 2 ^ 32 / 2 ^ format64.scale = leadingBits units := by
  have hvalue : (units / 2 ^ format64.scale * 2 ^ (33 - binaryExponent units) : ℚ) =
      (normal * 2 * 2 ^ 32 : ℕ) / 2 ^ format64.scale := by
    rw [Nat.cast_mul, Nat.cast_mul, hnormal, binaryExponent,
      show (33 : ℤ) - (bitLength units - (format64.scale : ℕ)) =
        (33 : ℕ) + ((format64.scale : ℤ) - bitLength units) by omega,
      zpow_add₀ two_ne_zero, zpow_natCast]
    generalize (2 : ℚ) ^ ((format64.scale : ℤ) - bitLength units) = power
    generalize (2 : ℚ) ^ format64.scale = one
    push_cast
    ring
  rw [leadingBits_eq, hvalue, floor_div_two_pow]

theorem normalises_form (negative : Bool) {units : Nat} (hpos : 0 < units)
    (hunits : format64.Holds units) :
    ∃ s, Scaling.Normalises (.finite negative units) s ∧ s.exponent = binaryExponent units ∧
      s.form =
        if binaryExponent units < -128 ∨ 127 < binaryExponent units then none
        else some ⟨UInt8.ofNat (binaryExponent units + 128).toNat,
          UInt32.ofNat (roundedMantissa units - 2 ^ 31)⟩ := by
  obtain ⟨normal, hnormal, hloops, hvalue⟩ := Scaling.exists_normalises negative hpos hunits
    (by decide) (by decide) (by decide)
  refine ⟨_, hloops, rfl, ?_⟩
  have hprecise : format64.Precise (normal * 2) := hnormal.precise.mul_two_pow 1
  have hlt : normal * 2 < 2 ^ format64.scale * 2 := by
    have := hnormal.high
    omega
  have htwice : Binary.twice (.finite false normal : Binary64) = .finite false (normal * 2) := by
    apply Binary.twice_finite
    refine ⟨hprecise, hlt.trans_le ?_⟩
    rw [← pow_succ]
    exact Nat.pow_le_pow_right (by decide) (by decide)
  have hrounded := (Peeling.taken_iterate hprecise hlt le_rfl).rounded hpos
    (leadingBits_of_normal hvalue)
  rw [Scaling.form, htwice, hrounded]
  rfl

/-- **The five byte form of every finite number.** A whole number of at most 65535 has the exponent
zero and its two bytes as the mantissa. Any other number has a form exactly if its exponent fits a
byte, and the mantissa is the nearest one that fits. For every bit pattern the loops end and give
that form. -/
theorem encode?_finite (negative : Bool) (units : Nat) :
    let v : Binary64 := .finite negative units
    let q := |v.toRat|
    (∀ n : ℕ, n ≤ 65535 → q = n →
      encode? v = some ⟨0, UInt32.ofNat (n % 256 * 2 ^ 16 + n / 256 * 2 ^ 8)⟩) ∧
    ((¬∃ n : ℕ, n ≤ 65535 ∧ q = n) → ∃ e : ℤ, (2 ^ (e - 1) ≤ q ∧ q < 2 ^ e) ∧
      (encode? v = none ↔ e < -128 ∨ 127 < e) ∧
      (∀ w, encode? v = some w → (w.exponent.toNat : ℤ) = e + 128 ∧
        (w.mantissa.toNat : ℤ) = min ⌊q * 2 ^ (32 - e) + 1 / 2⌋ (2 ^ 32 - 1) - 2 ^ 31) ∧
      (∀ bits, Binary.ofBits format64 bits = v →
        ∃ s, Scaling.Normalises v s ∧ s.exponent = e ∧ s.form = encode? v)) := by
  intro v q
  have hq : q = units / 2 ^ format64.scale := Binary.abs_toRat_finite negative units
  rw [hq]
  refine ⟨fun n hn hvalue => encode?_of_eq_natCast negative hn hvalue, fun hword => ?_⟩
  have hunits := pos_of_not_isWord hword
  have hencode := encode?_of_not_isWord negative hword
  refine ⟨binaryExponent units, isExponent_binaryExponent hunits, ?_, fun w hw => ?_,
    fun bits hbits => ?_⟩
  · rw [hencode]
    split_ifs with hrange
    · exact iff_of_true rfl hrange
    · exact iff_of_false not_false hrange
  · obtain ⟨hexponent, hmantissa⟩ := fields_of_encode? hword hw
    have hlow := (roundedMantissa_bounds hunits).1
    refine ⟨hexponent, ?_⟩
    rw [← roundedMantissa_eq]
    omega
  · obtain ⟨s, hs, hexponent, hform⟩ := normalises_form negative hunits (Binary.holds_of_ofBits hbits)
    refine ⟨s, hs, hexponent, ?_⟩
    rw [hform, hencode]

/-- The greatest number below one, whose mantissa cannot be rounded up. -/
def belowOne : Nat := 9007199254740991 <<< 1021

theorem encode?_finite_belowOne :
    let v : Binary64 := .finite false belowOne
    encode? (.finite true (65535 <<< 1074)) = some ⟨0, UInt32.ofNat (255 * 2 ^ 16 + 255 * 2 ^ 8)⟩ ∧
      (¬∃ n : ℕ, n ≤ 65535 ∧ |v.toRat| = n) ∧
      Binary.ofBits format64 0x3FEFFFFFFFFFFFFF = v ∧ encode? v = some ⟨128, 0x7FFFFFFF⟩ ∧
      ∃ e : ℤ, (2 ^ (e - 1) ≤ |v.toRat| ∧ |v.toRat| < 2 ^ e) ∧
        2 ^ 31 - 1 = min ⌊|v.toRat| * 2 ^ (32 - e) + 1 / 2⌋ (2 ^ 32 - 1) - 2 ^ 31 ∧
        ∃ s, Scaling.Normalises v s ∧ s.exponent = e ∧ s.form = some ⟨128, 0x7FFFFFFF⟩ := by
  intro v
  have hword : ¬∃ n : ℕ, n ≤ 65535 ∧ |v.toRat| = n := by
    rw [show |v.toRat| = _ from Binary.abs_toRat_finite false belowOne]
    exact not_isWord_of_mod (by decide +kernel)
  have hbits : Binary.ofBits format64 0x3FEFFFFFFFFFFFFF = v := by decide +kernel
  have hencode : encode? v = some ⟨128, 0x7FFFFFFF⟩ := by decide +kernel
  have hlast : |Binary.toRat (.finite true (65535 <<< 1074) : Binary64)| = (65535 : ℕ) :=
    (Binary.abs_toRat_finite true _).trans (value_eq_natCast_iff.mpr rfl)
  obtain ⟨e, he, _, hfields, hloops⟩ := (encode?_finite false belowOne).2 hword
  refine ⟨(encode?_finite true _).1 65535 le_rfl hlast, hword, hbits, hencode, e, he,
    (hfields _ hencode).2, ?_⟩
  obtain ⟨s, hs, hexponent, hform⟩ := hloops _ hbits
  exact ⟨s, hs, hexponent, hform.trans hencode⟩

end FiveByte

end SpectrumTape
