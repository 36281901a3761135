import SpectrumTape.Text.Rune
import Mathlib.Data.FinEnum
import Mathlib.Data.List.Forall2

/-!
# Texts that differ by case only

Two texts are compared character by character, each pair up to the case of letters. Some letters
beyond ASCII then stand for one of ASCII: the Kelvin sign for `k`, the long s for `s`. They take
more than one byte, and a text that has as many characters as bytes has none of them. So as soon as
a text of ASCII is compared with as many bytes, only the case of ASCII letters counts
(`CaseFolding.equal_iff`), whatever the folding does to the rest.
-/

namespace SpectrumTape

/-! ### Foldings -/

/-- Two texts that differ by the case of ASCII letters only. -/
def Bytes.EqualCase (s t : Bytes) : Prop := s.map Ascii.toLower = t.map Ascii.toLower

/-- When two characters differ by case only. Of simple case folding only two things matter here:
among the characters of ASCII it relates the two cases of each letter, and it relates a byte that
belongs to no character, which stands for the replacement character, to none of them. -/
structure CaseFolding where
  Same : Rune → Rune → Prop
  ascii {a b : UInt8} : a < 0x80 → b < 0x80 →
    (Same (.scalar a.toNat) (.scalar b.toNat) ↔ Ascii.toLower a = Ascii.toLower b)
  stray {a b : UInt8} : b < 0x80 → ¬Same (.stray a) (.scalar b.toNat)

/-- The code point that a character has in common with all that differ from it by case only, for
those among which there is one of ASCII. -/
def Rune.folded : Rune → Nat
  | .stray _ => 0xFFFD
  | .scalar n =>
    if 0x41 ≤ n && n ≤ 0x5A then n + 0x20
    else if n == 0x212A then 0x6B
    else if n == 0x17F then 0x73
    else n

theorem Rune.folded_ascii {a : UInt8} (ha : a < 0x80) :
    Rune.folded (.scalar a.toNat) = (Ascii.toLower a).toNat := by
  have hall : ∀ a : UInt8, a < 0x80 → Rune.folded (.scalar a.toNat) = (Ascii.toLower a).toNat := by
    decide +kernel
  exact hall a ha

namespace CaseFolding

/-- Simple case folding, as far as characters of ASCII are concerned. -/
def simple : CaseFolding where
  Same r q := r.folded = q.folded
  ascii := by
    intro a b ha hb
    rw [Rune.folded_ascii ha, Rune.folded_ascii hb, UInt8.toNat_inj]
  stray := by
    intro a b hb
    have hall : ∀ b : UInt8, b < 0x80 → Rune.folded (.scalar b.toNat) ≠ 0xFFFD := by
      decide +kernel
    exact fun h => hall b hb h.symm

instance : Inhabited CaseFolding := ⟨simple⟩

/-- Two texts have as many characters, and these differ by case only. -/
def Equal (fold : CaseFolding) (s t : Bytes) : Prop := List.Forall₂ fold.Same s.runes t.runes

end CaseFolding

/-! ### Characters and bytes -/

namespace Rune

theorem length_of_wide? {a : UInt8} {rest : Bytes} {code more : Nat}
    (h : wide? a rest = some (code, more)) : 0 < more ∧ more ≤ rest.length := by
  unfold wide? at h
  split at h
  · simp only [Option.orElse_eq_or, Option.or_eq_some_iff, Option.map_eq_some_iff,
      Prod.mk.injEq] at h
    rcases h with ⟨_, _, _, rfl⟩ | ⟨_, ⟨_, _, _, rfl⟩ | ⟨_, _, _, _, rfl⟩⟩ <;> simp
  · simp only [Option.orElse_eq_or, Option.or_eq_some_iff, Option.map_eq_some_iff,
      Prod.mk.injEq] at h
    rcases h with ⟨_, _, _, rfl⟩ | ⟨_, _, _, _, rfl⟩ <;> simp
  · obtain ⟨_, _, heq⟩ := Option.map_eq_some_iff.mp h
    cases heq
    simp
  · cases h

theorem length_runesFrom_le (skip : Nat) (s : Bytes) :
    (runesFrom skip s).length ≤ s.length - skip := by
  fun_induction runesFrom skip s with
  | case1 => exact Nat.zero_le _
  | case2 skip c rest ih =>
    rw [List.length_cons]
    omega
  | case3 a rest ha ih =>
    simp only [List.length_cons]
    omega
  | case4 a rest ha code more hwide ih =>
    simp only [List.length_cons]
    omega
  | case5 a rest ha hwide ih =>
    simp only [List.length_cons]
    omega

end Rune

theorem Bytes.runes_of_ascii {s : Bytes} (hs : ∀ c ∈ s, c < 0x80) :
    s.runes = s.map fun c => .scalar c.toNat := by
  induction s with
  | nil => rfl
  | cons c s ih =>
    obtain ⟨hc, hs⟩ := List.forall_mem_cons.mp hs
    rw [Bytes.runes, Rune.runesFrom, if_pos hc, List.map_cons]
    exact congrArg _ (ih hs)

theorem Ascii.toLower_ne_of_ascii {a b : UInt8} (ha : ¬a < 0x80) (hb : b < 0x80) :
    toLower a ≠ toLower b := by
  have hhigh : ∀ a : UInt8, ¬a < 0x80 → ¬toLower a < 0x80 := by decide +kernel
  have hlow : ∀ b : UInt8, b < 0x80 → toLower b < 0x80 := by decide +kernel
  intro heq
  apply hhigh a ha
  rw [heq]
  exact hlow b hb

/-- **As many bytes as an ASCII text has equal it up to case exactly if they do as ASCII letters.** -/
theorem CaseFolding.equal_iff (fold : CaseFolding) {s t : Bytes} (hlength : s.length = t.length)
    (ht : ∀ c ∈ t, c < 0x80) : fold.Equal s t ↔ Bytes.EqualCase s t := by
  unfold Equal Bytes.EqualCase
  rw [Bytes.runes_of_ascii ht]
  induction t generalizing s with
  | nil =>
    rw [List.eq_nil_of_length_eq_zero hlength]
    exact iff_of_true .nil rfl
  | cons b t ih =>
    obtain ⟨hb, ht⟩ := List.forall_mem_cons.mp ht
    cases s with
    | nil => cases hlength
    | cons a s =>
      have hrest : s.length = t.length := Nat.succ.inj hlength
      rw [Bytes.runes, Rune.runesFrom, List.map_cons, List.map_cons, List.map_cons, List.cons.injEq]
      by_cases ha : a < 0x80
      · rw [if_pos ha, List.forall₂_cons, fold.ascii ha hb]
        exact and_congr_right fun _ => ih hrest ht
      · -- A byte beyond ASCII equals no letter of ASCII. As a part of a character it leaves too few
        -- characters for the rest, and as a stray it is related to none of ASCII.
        rw [if_neg ha]
        refine iff_of_false ?_ fun h => Ascii.toLower_ne_of_ascii ha hb h.1
        cases hwide : Rune.wide? a s with
        | none =>
          intro h
          exact fold.stray hb (List.forall₂_cons.mp h).1
        | some wide =>
          obtain ⟨code, more⟩ := wide
          obtain ⟨hpos, hmore⟩ := Rune.length_of_wide? hwide
          have hcount := Rune.length_runesFrom_le more s
          intro h
          have hsame := (List.forall₂_cons.mp h).2.length_eq
          rw [List.length_map] at hsame
          omega

end SpectrumTape
