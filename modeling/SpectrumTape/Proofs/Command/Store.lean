import SpectrumTape.Command.Store
import Mathlib.Tactic.Common

/-!
# What is read from stored tables

A copy can be written to without any other table taking notice (`read_extend_copy`). A table is extended
by names that are not bound in it, and then binds them and what it bound before (`extend_eq_none`); if one
of the names is bound, the extension stops there (`extend_eq_some`). All that depends on nothing but the
table that was copied (`extend_congr`).
-/

namespace SpectrumTape.Command

namespace Store

variable {α : Type} {s s' : Store α} {a a' b : Nat} {entries : List (Bytes × Cmd α)}

/-! ### One table -/

theorem read_copy_of_lt (h : b < s.size) : (s.copy a).2.read b = s.read b := by
  have h : b < s.tables.length := h
  simp [read, copy, List.getD_eq_getElem?_getD, List.getElem?_append_left h]

theorem read_copy_self (s : Store α) (a : Nat) : (s.copy a).2.read (s.copy a).1 = s.read a := by
  show (s.tables ++ [s.read a]).getD s.tables.length [] = s.read a
  simp

theorem lt_size_copy (s : Store α) (a : Nat) : (s.copy a).1 < (s.copy a).2.size := by
  show s.tables.length < (s.tables ++ [s.read a]).length
  simp

theorem read_write_self (h : a < s.size) (name : Bytes) (c : Cmd α) :
    (s.write a name c).read a = (s.read a).insert name c := by
  have h : a < s.tables.length := h
  simp [read, write, List.getD_eq_getElem?_getD, List.getElem?_eq_getElem h]

theorem size_write (s : Store α) (a : Nat) (name : Bytes) (c : Cmd α) :
    (s.write a name c).size = s.size :=
  List.length_modify ..

theorem read_write_of_ne (h : b ≠ a) (name : Bytes) (c : Cmd α) :
    (s.write a name c).read b = s.read b := by
  simp [read, write, List.getD_eq_getElem?_getD, h.symm]

/-! ### Extensions -/

theorem extend_cons_of_contains {name : Bytes} {c : Cmd α}
    (h : (s.read a).contains name = true) : s.extend a ((name, c) :: entries) = (s, some name) := by
  rw [extend, if_pos h]

theorem extend_cons_of_not_contains {name : Bytes} {c : Cmd α}
    (h : ¬(s.read a).contains name = true) :
    s.extend a ((name, c) :: entries) = (s.write a name c).extend a entries := by
  rw [extend, if_neg h]

theorem read_extend_of_ne (h : b ≠ a) (s : Store α) (entries : List (Bytes × Cmd α)) :
    (s.extend a entries).1.read b = s.read b := by
  induction entries generalizing s with
  | nil => rfl
  | cons e entries ih =>
    obtain ⟨name, c⟩ := e
    by_cases hbound : (s.read a).contains name = true
    · rw [extend_cons_of_contains hbound]
    · rw [extend_cons_of_not_contains hbound, ih, read_write_of_ne h]

theorem read_extend_copy (h : b < s.size) (a : Nat) (entries : List (Bytes × Cmd α)) :
    ((s.copy a).2.extend (s.copy a).1 entries).1.read b = s.read b := by
  have hne : b ≠ (s.copy a).1 := Nat.ne_of_lt h
  rw [read_extend_of_ne hne, read_copy_of_lt h]

theorem extend_eq_none (ha : a < s.size) (hnodup : (entries.map Prod.fst).Nodup)
    (h : (s.extend a entries).2 = none) :
    (∀ e ∈ entries, (s.read a).find? e.1 = none) ∧
      ∀ name c, ((s.extend a entries).1.read a).find? name = some c ↔
        (s.read a).find? name = some c ∨ (name, c) ∈ entries := by
  induction entries generalizing s with
  | nil => exact ⟨nofun, fun name c => by simp [extend]⟩
  | cons e entries ih =>
    obtain ⟨name, c⟩ := e
    rw [List.map_cons, List.nodup_cons] at hnodup
    by_cases hbound : (s.read a).contains name = true
    · rw [extend_cons_of_contains hbound] at h
      cases h
    · rw [extend_cons_of_not_contains hbound] at h ⊢
      have hfree : (s.read a).find? name = none := by simpa [Table.contains] using hbound
      have hsize : a < (s.write a name c).size := by rwa [size_write]
      obtain ⟨hnone, hfind⟩ := ih hsize hnodup.2 h
      rw [read_write_self ha] at hnone hfind
      -- The names that follow are others, so they were free before this one was bound.
      have hother : ∀ e ∈ entries, e.1 ≠ name := by
        rintro e he rfl
        exact hnodup.1 (List.mem_map.mpr ⟨e, he, rfl⟩)
      refine ⟨List.forall_mem_cons.mpr ⟨hfree, fun e he => ?_⟩, fun other d => ?_⟩
      · have hlater := hnone e he
        rwa [Table.find?_insert, if_neg (hother e he)] at hlater
      · rw [hfind, Table.find?_insert, List.mem_cons, Prod.mk.injEq]
        by_cases hname : other = name
        · subst hname
          have hlater : (other, d) ∉ entries := fun h => hother _ h rfl
          simp [hfree, hlater, eq_comm]
        · simp [hname]

theorem extend_eq_some (ha : a < s.size) (hnodup : (entries.map Prod.fst).Nodup) {sub : Bytes}
    (h : (s.extend a entries).2 = some sub) :
    ∃ c, (sub, c) ∈ entries ∧ ∃ d, (s.read a).find? sub = some d := by
  induction entries generalizing s with
  | nil => cases h
  | cons e entries ih =>
    obtain ⟨name, c⟩ := e
    rw [List.map_cons, List.nodup_cons] at hnodup
    by_cases hbound : (s.read a).contains name = true
    · rw [extend_cons_of_contains hbound] at h
      obtain rfl : name = sub := Option.some.inj h
      exact ⟨c, List.mem_cons_self, Option.isSome_iff_exists.mp hbound⟩
    · rw [extend_cons_of_not_contains hbound] at h
      have hsize : a < (s.write a name c).size := by rwa [size_write]
      obtain ⟨d, hd, hfind⟩ := ih hsize hnodup.2 h
      have hother : sub ≠ name := by
        rintro rfl
        exact hnodup.1 (List.mem_map.mpr ⟨_, hd, rfl⟩)
      rw [read_write_self ha, Table.find?_insert, if_neg hother] at hfind
      exact ⟨d, List.mem_cons_of_mem _ hd, hfind⟩

theorem extend_congr (ha : a < s.size) (ha' : a' < s'.size) (h : s.read a = s'.read a') :
    (s.extend a entries).2 = (s'.extend a' entries).2 ∧
      (s.extend a entries).1.read a = (s'.extend a' entries).1.read a' := by
  induction entries generalizing s s' with
  | nil => exact ⟨rfl, h⟩
  | cons e entries ih =>
    obtain ⟨name, c⟩ := e
    by_cases hbound : (s.read a).contains name = true
    · rw [extend_cons_of_contains hbound, extend_cons_of_contains (h ▸ hbound)]
      exact ⟨rfl, h⟩
    · rw [extend_cons_of_not_contains hbound, extend_cons_of_not_contains (h ▸ hbound)]
      refine ih (by rwa [size_write]) (by rwa [size_write]) ?_
      rw [read_write_self ha, read_write_self ha', h]

theorem extend_copy_congr (h : s.read a = s'.read a') (entries : List (Bytes × Cmd α)) :
    ((s.copy a).2.extend (s.copy a).1 entries).2 = ((s'.copy a').2.extend (s'.copy a').1 entries).2 ∧
      ((s.copy a).2.extend (s.copy a).1 entries).1.read (s.copy a).1 =
        ((s'.copy a').2.extend (s'.copy a').1 entries).1.read (s'.copy a').1 :=
  extend_congr (lt_size_copy s a) (lt_size_copy s' a') (by rw [read_copy_self, read_copy_self, h])

theorem lt_size_extend_copy (s : Store α) (a : Nat) (entries : List (Bytes × Cmd α)) :
    (s.copy a).1 < ((s.copy a).2.extend (s.copy a).1 entries).1.size := by
  rw [size_extend]
  exact lt_size_copy s a

end Store

end SpectrumTape.Command
