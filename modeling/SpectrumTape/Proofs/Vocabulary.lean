import SpectrumTape.Vocabulary
import Mathlib.Data.List.Sort

/-!
# Spellings

The spellings of a vocabulary are sorted by merging. The order is total but does not tell two
spellings of one keyword with the same length apart, so it is the stability of merging that fixes
the list: it is the one that inserting the spellings one after the other gives (`mergeSort_before`).
The longer spellings being first, that list can be put together from one list for each length
(`mergeSort_eq_byLength`). In that form the vocabulary of a dialect can be computed with little work
(`Vocabulary.ofDialect_eq`).

A spelling that is found in a text lies at its start (`findKeyword?_bounds`, `findEscape?_bounds`),
and no keyword is empty (`findKeyword?_pos`).
-/

namespace SpectrumTape

namespace Spelling

theorem before_trans (a b c : Spelling) (hab : before a b) (hbc : before b c) : before a c := by
  simp only [before, Bool.or_eq_true, Bool.and_eq_true, decide_eq_true_eq, beq_iff_eq,
    UInt8.le_iff_toNat_le] at hab hbc ⊢
  omega

theorem before_total (a b : Spelling) : before a b || before b a := by
  simp only [before, Bool.or_eq_true, Bool.and_eq_true, decide_eq_true_eq, beq_iff_eq,
    UInt8.le_iff_toNat_le]
  omega

section Insert

variable {a : Spelling} {l₁ l₂ : List Spelling}

theorem orderedInsert_append_left (hthen : ∀ b ∈ l₂, before a b) :
    (l₁ ++ l₂).orderedInsert (before · ·) a = l₁.orderedInsert (before · ·) a ++ l₂ := by
  induction l₁ with
  | nil =>
    cases l₂ with
    | nil => rfl
    | cons b l₂ => exact List.orderedInsert_cons_of_le _ _ (hthen b List.mem_cons_self)
  | cons b l₁ ih =>
    rw [List.cons_append, List.orderedInsert_cons, List.orderedInsert_cons, ih]
    split_ifs <;> rfl

theorem orderedInsert_append_right (hfirst : ∀ b ∈ l₁, !before a b) :
    (l₁ ++ l₂).orderedInsert (before · ·) a = l₁ ++ l₂.orderedInsert (before · ·) a := by
  induction l₁ with
  | nil => rfl
  | cons b l₁ ih =>
    obtain ⟨hb, hfirst⟩ := List.forall_mem_cons.mp hfirst
    rw [List.cons_append, List.orderedInsert_of_not_le _ _ (by simpa using hb), ih hfirst,
      List.cons_append]

end Insert

theorem mergeSort_before (l : List Spelling) :
    l.mergeSort before = l.insertionSort (before · ·) := by
  induction l with
  | nil => simp
  | cons a l ih =>
    obtain ⟨l₁, l₂, hsorted, hrest, hfirst⟩ := List.mergeSort_cons before_trans before_total a l
    have hthen : ∀ b ∈ l₂, before a b := by
      have h := List.pairwise_mergeSort before_trans before_total (a :: l)
      rw [hsorted, List.pairwise_append] at h
      exact (List.pairwise_cons.mp h.2.1).1
    have hinsert : l₂.orderedInsert (before · ·) a = a :: l₂ :=
      @orderedInsert_append_left a [] l₂ hthen
    rw [List.insertionSort_cons, ← ih, hrest, hsorted, orderedInsert_append_right hfirst, hinsert]

/-! ### One list for each length -/

/-- The spellings of fewer than `n` bytes, the ones of each length being sorted apart. -/
def byLength (l : List Spelling) : Nat → List Spelling
  | 0 => []
  | n + 1 => (l.filter (·.text.length == n)).insertionSort (before · ·) ++ byLength l n

theorem length_of_mem_byLength {l : List Spelling} {n : Nat} {s : Spelling} (hs : s ∈ byLength l n) :
    s.text.length < n := by
  induction n with
  | zero => cases hs
  | succ n ih =>
    rcases List.mem_append.mp hs with hs | hs
    · have hlength := (List.mem_filter.mp ((List.mem_insertionSort _).mp hs)).2
      exact Nat.lt_succ_of_le (beq_iff_eq.mp hlength).le
    · exact Nat.lt_succ_of_lt (ih hs)

theorem byLength_cons_of_le {a : Spelling} {l : List Spelling} {n : Nat} (ha : n ≤ a.text.length) :
    byLength (a :: l) n = byLength l n := by
  induction n with
  | zero => rfl
  | succ n ih =>
    rw [byLength, byLength, List.filter_cons_of_neg (by simp; omega), ih (by omega)]

theorem orderedInsert_byLength {a : Spelling} {l : List Spelling} {n : Nat} (ha : a.text.length < n) :
    (byLength l n).orderedInsert (before · ·) a = byLength (a :: l) n := by
  induction n with
  | zero => exact absurd ha (Nat.not_lt_zero _)
  | succ n ih =>
    rw [byLength, byLength]
    rcases Nat.lt_succ_iff_lt_or_eq.mp ha with hlt | heq
    · have hfirst : ∀ b ∈ (l.filter (·.text.length == n)).insertionSort (before · ·), !before a b := by
        intro b hb
        have hlength := beq_iff_eq.mp (List.mem_filter.mp ((List.mem_insertionSort _).mp hb)).2
        simp only [before, hlength, Bool.not_eq_true', Bool.or_eq_false_iff, Bool.and_eq_false_iff,
          decide_eq_false_iff_not, beq_eq_false_iff_ne]
        exact ⟨by omega, .inl (by omega)⟩
      rw [orderedInsert_append_right hfirst, ih hlt, List.filter_cons_of_neg (by simp; omega)]
    · have hthen : ∀ b ∈ byLength l n, before a b := by
        intro b hb
        have hlength := length_of_mem_byLength hb
        simp only [before, Bool.or_eq_true, decide_eq_true_eq]
        exact .inl (by omega)
      rw [orderedInsert_append_left hthen, List.filter_cons_of_pos (by simpa using heq),
        List.insertionSort_cons, byLength_cons_of_le heq.ge]

theorem byLength_nil (n : Nat) : byLength [] n = [] := by
  induction n with
  | zero => rfl
  | succ n ih => rw [byLength, ih]; rfl

theorem mergeSort_eq_byLength {l : List Spelling} {n : Nat} (hl : ∀ s ∈ l, s.text.length < n) :
    l.mergeSort before = byLength l n := by
  rw [mergeSort_before]
  induction l with
  | nil => exact (byLength_nil n).symm
  | cons a l ih =>
    obtain ⟨ha, hl⟩ := List.forall_mem_cons.mp hl
    rw [List.insertionSort_cons, ih hl, orderedInsert_byLength ha]

end Spelling

namespace Vocabulary

theorem length_of_mem_keywordsOf {dialect : Dialect} {k : Keyword} (hk : k ∈ keywordsOf dialect) :
    ∀ s ∈ k.spellings, 0 < s.text.length ∧ s.text.length < 10 := by
  have hcommon : ∀ k ∈ commonKeywords, ∀ s ∈ k.spellings,
      0 < s.text.length ∧ s.text.length < 10 := by
    decide +kernel
  have hextra : ∀ k ∈ extraKeywords, ∀ s ∈ k.spellings,
      0 < s.text.length ∧ s.text.length < 10 := by
    decide +kernel
  rcases List.mem_append.mp hk with hk | hk
  · exact hcommon k hk
  · split_ifs at hk
    · exact hextra k hk
    · cases hk

theorem ofDialect_eq (dialect : Dialect) :
    ofDialect dialect =
      ⟨dialect, keywordsOf dialect, escapesOf dialect,
        Spelling.byLength ((keywordsOf dialect).flatMap Keyword.spellings) 10,
        ((escapesOf dialect).map Escape.spelling).insertionSort (Spelling.before · ·)⟩ := by
  have hkeywords : ∀ s ∈ (keywordsOf dialect).flatMap Keyword.spellings, s.text.length < 10 := by
    intro s hs
    obtain ⟨k, hk, hsk⟩ := List.mem_flatMap.mp hs
    exact (length_of_mem_keywordsOf hk s hsk).2
  rw [ofDialect, Spelling.mergeSort_eq_byLength hkeywords, Spelling.mergeSort_before]

end Vocabulary

/-! ### Spellings that are found -/

theorem Bytes.dropPrefix?_eq_some_iff {a s rest : Bytes} :
    dropPrefix? a s = some rest ↔ s = a ++ rest := by
  fun_induction dropPrefix? a s with
  | case1 s => simp
  | case2 => simp
  | case3 a as b bs hab ih => simp [ih, (beq_iff_eq.mp hab).symm]
  | case4 a as b bs hab =>
    have hne : ¬b = a := fun h => hab (beq_iff_eq.mpr h.symm)
    simp [hne]

namespace Spelling

theorem afterFolded?_eq_some {a s rest : Bytes} (h : afterFolded? a s = some rest) :
    a.length ≤ s.length ∧ rest = s.drop a.length := by
  fun_induction afterFolded? a s with
  | case1 s =>
    cases h
    exact ⟨Nat.zero_le _, rfl⟩
  | case2 => cases h
  | case3 a as b bs hab ih => simpa using ih h
  | case4 => cases h

theorem keywordRest?_eq_some {s : Spelling} {text rest : Bytes}
    (h : s.keywordRest? text = some rest) : s.text.length ≤ text.length ∧ rest = text.drop s.text.length := by
  refine afterFolded?_eq_some ?_
  unfold keywordRest? at h
  split at h
  · rename_i c more hfound
    split_ifs at h
    rw [hfound, h]
  · exact h

theorem exists_of_firstFound {rest? : Spelling → Bytes → Option Bytes} {text : Bytes}
    {spellings : List Spelling} {found : Found} (h : firstFound rest? text spellings = some found) :
    ∃ s ∈ spellings, rest? s text = some found.rest ∧ found = ⟨s.code, s.text.length, found.rest⟩ := by
  induction spellings with
  | nil => cases h
  | cons s spellings ih =>
    rw [firstFound] at h
    cases hrest : rest? s text with
    | some rest =>
      rw [hrest] at h
      cases h
      exact ⟨s, List.mem_cons_self, hrest, rfl⟩
    | none =>
      rw [hrest] at h
      obtain ⟨t, ht, hfound⟩ := ih h
      exact ⟨t, List.mem_cons_of_mem s ht, hfound⟩

theorem firstFound_eq_some {rest? : Spelling → Bytes → Option Bytes} {text : Bytes}
    {spellings : List Spelling} {found : Found} (h : firstFound rest? text spellings = some found) :
    ∃ s ∈ spellings, rest? s text = some found.rest ∧ found.size = s.text.length := by
  obtain ⟨s, hs, hrest, hfound⟩ := exists_of_firstFound h
  exact ⟨s, hs, hrest, by rw [hfound]⟩

end Spelling

namespace Vocabulary

theorem findEscape?_bounds {v : Vocabulary} {text : Bytes} {found : Spelling.Found}
    (h : v.findEscape? text = some found) : found.size ≤ text.length := by
  obtain ⟨s, -, hrest, hsize⟩ := Spelling.firstFound_eq_some h
  rw [hsize, Bytes.dropPrefix?_eq_some_iff.mp hrest, List.length_append]
  exact Nat.le_add_right _ _

theorem findKeyword?_bounds {v : Vocabulary} {text : Bytes} {found : Spelling.Found}
    (h : v.findKeyword? text = some found) :
    found.size ≤ text.length ∧ found.rest = text.drop found.size := by
  obtain ⟨s, -, hrest, hsize⟩ := Spelling.firstFound_eq_some h
  rw [hsize]
  exact Spelling.keywordRest?_eq_some hrest

theorem findKeyword?_pos {dialect : Dialect} {text : Bytes} {found : Spelling.Found}
    (h : (ofDialect dialect).findKeyword? text = some found) : 0 < found.size := by
  obtain ⟨s, hs, -, hsize⟩ := Spelling.firstFound_eq_some h
  obtain ⟨k, hk, hsk⟩ := List.mem_flatMap.mp (List.mem_mergeSort.mp hs)
  rw [hsize]
  exact (length_of_mem_keywordsOf hk s hsk).1

end Vocabulary

end SpectrumTape
