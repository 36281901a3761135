import SpectrumTape.Basic.Symbols
import Mathlib.Data.List.Nodup
import Mathlib.Tactic.Common

/-!
# The order of symbols

Setting a variable keeps the names in strictly ascending byte order (`Symbols.Ascending.set`), so
each name is there once and the variable with a name is the one that is found
(`Symbols.Ascending.get?_eq_some_iff`).
-/

namespace SpectrumTape

namespace Bytes

theorem lt_iff_lt (a b : Bytes) : lt a b = true ↔ a < b := by
  fun_induction lt a b with
  | case1 => simp
  | case2 => simp
  | case3 => simp
  | case4 a as b bs ih =>
    rw [List.cons_lt_cons_iff, ← ih]
    simp

theorem lt_trans {a b c : Bytes} (hab : lt a b = true) (hbc : lt b c = true) : lt a c = true := by
  rw [lt_iff_lt] at hab hbc ⊢
  exact List.lt_trans hab hbc

theorem lt_irrefl (a : Bytes) : ¬lt a a = true := by
  rw [lt_iff_lt]
  exact List.lt_irrefl a

theorem lt_of_ne_of_not_lt {a b : Bytes} (hne : a ≠ b) (hab : ¬lt a b = true) : lt b a = true := by
  rw [lt_iff_lt] at hab ⊢
  rcases Std.lt_trichotomy a b with h | h | h
  · exact absurd h hab
  · exact absurd h hne
  · exact h

end Bytes

namespace Basic.Symbols

def names (s : Symbols) : List Bytes := s.toList.map Variable.name

/-- Each name is behind the one before it. -/
def Ascending (s : Symbols) : Prop := s.names.Pairwise (Bytes.lt · ·)

theorem mem_insertOrdered {v w : Variable} {vs : List Variable} (h : w ∈ insertOrdered v vs) :
    w = v ∨ w ∈ vs := by
  fun_induction insertOrdered v vs with
  | case1 => simpa using h
  | case2 u vs hname =>
    rcases List.mem_cons.mp h with h | h
    · exact Or.inl h
    · exact Or.inr (List.mem_cons_of_mem _ h)
  | case3 u vs hname hless => exact List.mem_cons.mp h
  | case4 u vs hname hless ih =>
    rcases List.mem_cons.mp h with rfl | h
    · exact Or.inr List.mem_cons_self
    · exact (ih h).imp_right (List.mem_cons_of_mem _)

theorem pairwise_insertOrdered (v : Variable) {vs : List Variable}
    (h : vs.Pairwise fun a b => Bytes.lt a.name b.name = true) :
    (insertOrdered v vs).Pairwise fun a b => Bytes.lt a.name b.name = true := by
  fun_induction insertOrdered v vs with
  | case1 => exact List.pairwise_singleton _ v
  | case2 w vs hname =>
    obtain ⟨hw, hvs⟩ := List.pairwise_cons.mp h
    rw [← beq_iff_eq.mp hname] at hw
    exact List.pairwise_cons.mpr ⟨hw, hvs⟩
  | case3 w vs hname hless =>
    obtain ⟨hw, hvs⟩ := List.pairwise_cons.mp h
    refine List.pairwise_cons.mpr ⟨List.forall_mem_cons.mpr ⟨hless, fun u hu => ?_⟩, h⟩
    exact Bytes.lt_trans hless (hw u hu)
  | case4 w vs hname hless ih =>
    obtain ⟨hw, hvs⟩ := List.pairwise_cons.mp h
    refine List.pairwise_cons.mpr ⟨fun u hu => ?_, ih hvs⟩
    -- What stands behind `w` is the new variable or was behind it before.
    rcases mem_insertOrdered hu with rfl | hu
    · exact Bytes.lt_of_ne_of_not_lt (fun heq => hname (beq_iff_eq.mpr heq)) hless
    · exact hw u hu

theorem ascending_empty : Ascending {} := List.Pairwise.nil

theorem Ascending.set {s : Symbols} (hs : s.Ascending) (v : Variable) : (s.set v).Ascending :=
  List.pairwise_map.mpr (pairwise_insertOrdered v (List.pairwise_map.mp hs))

theorem mem_names_iff {s : Symbols} {name : Bytes} :
    name ∈ s.names ↔ s.contains name = true := by
  unfold names contains get?
  rw [List.find?_isSome, List.mem_map]
  simp only [beq_iff_eq]

theorem Ascending.nodup {s : Symbols} (hs : s.Ascending) : s.names.Nodup := by
  refine List.Pairwise.imp ?_ hs
  rintro a b hlt rfl
  exact Bytes.lt_irrefl a hlt

theorem Ascending.get?_eq_some_iff {s : Symbols} (hs : s.Ascending) {v : Variable} :
    s.get? v.name = some v ↔ v ∈ s.toList := by
  refine ⟨List.mem_of_find?_eq_some, fun hv => ?_⟩
  have hthere : s.contains v.name = true := mem_names_iff.mp (List.mem_map_of_mem hv)
  obtain ⟨w, hw⟩ := Option.isSome_iff_exists.mp hthere
  have hname : w.name = v.name := by simpa using List.find?_some hw
  rw [hw, List.inj_on_of_nodup_map hs.nodup (List.mem_of_find?_eq_some hw) hv hname]

end Basic.Symbols

end SpectrumTape
