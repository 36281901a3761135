import SpectrumTape.Proofs.Vocabulary

/-!
# The escape at the start of a text

No escape sequence is the beginning of another one (`Vocabulary.eq_of_begins`). So what is found at the
start of a text is the one sequence that the text begins with, whatever the order of the search
(`Vocabulary.findEscape?_eq_some_iff`).
-/

namespace SpectrumTape

namespace Spelling

theorem firstFound_of_unique {rest? : Spelling → Bytes → Option Bytes} {text rest : Bytes}
    {spellings : List Spelling} {s : Spelling} (hs : s ∈ spellings) (hrest : rest? s text = some rest)
    (hunique : ∀ t ∈ spellings, (rest? t text).isSome → t = s) :
    firstFound rest? text spellings = some ⟨s.code, s.text.length, rest⟩ := by
  induction spellings with
  | nil => cases hs
  | cons t spellings ih =>
    obtain ⟨ht, hunique⟩ := List.forall_mem_cons.mp hunique
    rw [firstFound]
    cases hfits : rest? t text with
    | some more =>
      obtain rfl := ht (by rw [hfits]; rfl)
      cases hfits.symm.trans hrest
      rfl
    | none =>
      rcases List.mem_cons.mp hs with rfl | hs
      · rw [hrest] at hfits
        cases hfits
      · exact ih hs hunique

end Spelling

namespace Vocabulary

theorem mem_escapeSpellings {dialect : Dialect} {s : Spelling} :
    s ∈ (ofDialect dialect).escapeSpellings ↔ ∃ e ∈ escapesOf dialect, e.spelling = s :=
  List.mem_mergeSort.trans List.mem_map

/-- All escapes: the smaller machine has those of the larger one, and two more letters. -/
theorem mem_escapesOf {dialect : Dialect} {e : Escape} (he : e ∈ escapesOf dialect) :
    e ∈ escapesOf .k48 := by
  have hall : (escapesOf .k128).all fun e => (escapesOf .k48).contains e := by decide +kernel
  by_cases hdialect : dialect = .k128
  · subst hdialect
    simpa using List.all_eq_true.mp hall e he
  · simpa [escapesOf, hdialect] using he

theorem eq_of_begins {dialect : Dialect} {e f : Escape} (he : e ∈ escapesOf dialect)
    (hf : f ∈ escapesOf dialect) (h : e.sequence <+: f.sequence) : e = f := by
  have hall : (escapesOf .k48).all fun e => (escapesOf .k48).all fun f =>
      !e.sequence.isPrefixOf f.sequence || e == f := by
    decide +kernel
  have := List.all_eq_true.mp (List.all_eq_true.mp hall e (mem_escapesOf he)) f (mem_escapesOf hf)
  simpa [List.isPrefixOf_iff_prefix.mpr h] using this

/-- **What is found at the start of a text is the escape that it begins with.** -/
theorem findEscape?_eq_some_iff {dialect : Dialect} {text : Bytes} {found : Spelling.Found} :
    (ofDialect dialect).findEscape? text = some found ↔
      ∃ e ∈ escapesOf dialect, text = e.sequence ++ found.rest ∧
        found = ⟨e.code, e.sequence.length, found.rest⟩ := by
  constructor
  · intro h
    obtain ⟨s, hs, hrest, hfound⟩ := Spelling.exists_of_firstFound h
    obtain ⟨e, he, rfl⟩ := mem_escapeSpellings.mp hs
    exact ⟨e, he, Bytes.dropPrefix?_eq_some_iff.mp hrest, hfound⟩
  · rintro ⟨e, he, htext, hfound⟩
    rw [hfound]
    have hrest : Spelling.escapeRest? e.spelling text = some found.rest :=
      Bytes.dropPrefix?_eq_some_iff.mpr htext
    refine Spelling.firstFound_of_unique (mem_escapeSpellings.mpr ⟨e, he, rfl⟩) hrest ?_
    intro t ht hfits
    obtain ⟨f, hf, rfl⟩ := mem_escapeSpellings.mp ht
    obtain ⟨more, hmore⟩ := Option.isSome_iff_exists.mp hfits
    have hother : text = f.sequence ++ more := Bytes.dropPrefix?_eq_some_iff.mp hmore
    -- Two beginnings of one text are comparable.
    rcases List.prefix_or_prefix_of_prefix (⟨_, htext.symm⟩ : e.sequence <+: text)
      ⟨more, hother.symm⟩ with h | h
    · rw [eq_of_begins he hf h]
    · rw [eq_of_begins hf he h]

end Vocabulary

end SpectrumTape
