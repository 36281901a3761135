import SpectrumTape.Basic.Survey
import SpectrumTape.Proofs.Basic.Numbering

/-!
# What the first pass leaves behind

`Survey.step_cases` says all that a step of the survey can do. From it follows what holds behind the
whole survey: a name with a value is a label, and the value is a number of at most 19998 written in
decimal (`Survey.Sound`); every name that is referred to is a constant or among the symbols
(`Survey.run_references`); and there is one warning for each text behind a line escape
(`Survey.run_warnings`).
-/

namespace SpectrumTape.Basic

/-! ### Symbols -/

namespace Symbols

-- The order of the names plays no part here: a name is replaced where it stands first.
theorem find?_insertOrdered (v : Variable) (name : Bytes) (vs : List Variable) :
    (insertOrdered v vs).find? (·.name == name) =
      if v.name = name then some v else vs.find? (·.name == name) := by
  induction vs with
  | nil =>
    by_cases hv : v.name = name
    · simp [insertOrdered, hv]
    · simp [insertOrdered, hv]
  | cons w vs ih =>
    rw [insertOrdered]
    by_cases hv : v.name = name
    · split_ifs with hsame hless
      · simp [hv]
      · simp [hv]
      · have hw : (w.name == name) = false := by
          rw [← hv, beq_eq_false_iff_ne]
          exact fun h => hsame (beq_iff_eq.mpr h.symm)
        rw [List.find?_cons, hw, ih, if_pos hv]
    · have hv' : (v.name == name) = false := beq_eq_false_iff_ne.mpr hv
      split_ifs with hsame hless
      · have hw : (w.name == name) = false := by
          rw [← beq_iff_eq.mp hsame]
          exact hv'
        rw [List.find?_cons, hv', List.find?_cons, hw]
      · rw [List.find?_cons, hv']
      · rw [List.find?_cons, List.find?_cons, ih, if_neg hv]

theorem get?_set (s : Symbols) (v : Variable) (name : Bytes) :
    (s.set v).get? name = if v.name = name then some v else s.get? name :=
  find?_insertOrdered v name s.toList

theorem value?_set (s : Symbols) (v : Variable) (name : Bytes) :
    (s.set v).value? name = if v.name = name then v.value else s.value? name := by
  rw [value?, get?_set]
  split_ifs with h
  · rfl
  · rfl

theorem contains_set (s : Symbols) (v : Variable) (name : Bytes) :
    (s.set v).contains name = true ↔ v.name = name ∨ s.contains name = true := by
  rw [contains, get?_set]
  split_ifs with h
  · simp [h]
  · simp [h, contains]

theorem value?_isSome {s : Symbols} (hs : ∀ v ∈ s.toList, v.isResolved) {name : Bytes}
    (hname : s.contains name = true) : ∃ value, s.value? name = some value := by
  obtain ⟨v, hv⟩ := Option.isSome_iff_exists.mp hname
  obtain ⟨value, hvalue⟩ := Option.isSome_iff_exists.mp (hs v (List.mem_of_find?_eq_some hv))
  exact ⟨value, by rw [value?, hv]; exact hvalue⟩

end Symbols

namespace Survey

/-! ### Steps -/

/-- The warning about an item whose text is ignored. -/
def warning (path : Bytes) (i : Item) : Diagnostic := ⟨.warning, place path i, ignoredText⟩

/-- What a step can do to the names and the warnings, the numbering behind it being given. -/
inductive Behind (o : Options) (constants : Symbols) (path : Bytes) (s : Survey) (i : Item)
    (numbering : Numbering) : Survey → Prop where
  | label {name : Bytes} (hi : i.token = .label name)
      (hconstant : constants.contains name = false) (hfresh : s.symbols.value? name = none) :
      Behind o constants path s i numbering
        { s with
          numbering
          symbols := s.symbols.set (.constant name (Bytes.decimal (s.numbering.next o))) }
  | reference {name : Bytes} (hi : i.token = .reference name) :
      Behind o constants path s i numbering
        { s with numbering, symbols := noteReference constants s.symbols name }
  | ignored (hi : i.token = .ignored) :
      Behind o constants path s i numbering
        { s with numbering, warnings := warning path i :: s.warnings }
  | other (hreference : ∀ name, i.token ≠ .reference name) (hignored : i.token ≠ .ignored)
      (hfault : ∀ cause, i.token ≠ .fault cause) (hlabel : ∀ name, i.token ≠ .label name) :
      Behind o constants path s i numbering { s with numbering }

section steps

variable {o : Options} {constants : Symbols} {path : Bytes} {s s' : Survey} {i : Item}

theorem step_cases (hstep : step o constants path s i = .ok s') :
    ∃ numbering, s.numbering.step o i.token = .ok numbering ∧
      Behind o constants path s i numbering s' := by
  unfold step at hstep
  obtain ⟨numbering, hnumbering, hstep⟩ := bind_eq_ok_iff.mp (mapError_eq_ok_iff.mp hstep)
  refine ⟨numbering, hnumbering, ?_⟩
  split at hstep
  · rename_i name hi
    obtain ⟨symbols, hsymbols, hstep⟩ := bind_eq_ok_iff.mp hstep
    cases hstep
    unfold bindLabel at hsymbols
    split at hsymbols
    · cases hsymbols
    · rename_i hfree
      cases hsymbols
      rw [Bool.or_eq_true_iff, not_or, Bool.not_eq_true, Option.not_isSome_iff_eq_none] at hfree
      exact .label hi hfree.1 hfree.2
  · rename_i name hi
    cases hstep
    exact .reference hi
  · rename_i hi
    cases hstep
    exact .ignored hi
  · cases hstep
  · rename_i hlabel hreference hignored hfault
    cases hstep
    exact .other hreference hignored hfault hlabel

theorem step_numbering (hstep : step o constants path s i = .ok s') :
    s.numbering.step o i.token = .ok s'.numbering := by
  obtain ⟨numbering, hnumbering, hbehind⟩ := step_cases hstep
  cases hbehind with
  | label hi => exact hnumbering
  | reference hi => exact hnumbering
  | ignored hi => exact hnumbering
  | other hreference hignored hfault => exact hnumbering

theorem step_ne_fault (hstep : step o constants path s i = .ok s') (cause : Cause) :
    i.token ≠ .fault cause := by
  intro hi
  obtain ⟨numbering, -, hbehind⟩ := step_cases hstep
  cases hbehind with
  | label hi' => cases hi.symm.trans hi'
  | reference hi' => cases hi.symm.trans hi'
  | ignored hi' => cases hi.symm.trans hi'
  | other hreference hignored hfault => exact hfault cause hi

/-- What the survey knows so far is sound: the numbering is, and a value is a number written in
decimal. -/
structure Sound (o : Options) (s : Survey) : Prop where
  regular : s.numbering.Regular o
  last_le : s.numbering.last ≤ 9999
  values : ∀ name value, s.symbols.value? name = some value →
    ∃ n, n ≤ 19998 ∧ value = Bytes.decimal n

theorem sound_start (o : Options) : Sound o {} where
  regular := Numbering.regular_start o 0
  last_le := by decide
  values name value h := by cases h

theorem contains_noteReference (symbols : Symbols) (name other : Bytes) :
    (noteReference constants symbols name).contains other = true ↔
      symbols.contains other = true ∨ other = name ∧ constants.contains name = false := by
  unfold noteReference
  split_ifs with hknown
  · rcases Bool.or_eq_true_iff.mp hknown with h | h
    · simp [h]
    · constructor
      · exact Or.inl
      · rintro (hother | ⟨rfl, -⟩)
        · exact hother
        · exact h
  · rw [Bool.or_eq_true_iff, not_or, Bool.not_eq_true] at hknown
    rw [Symbols.contains_set, or_comm, and_iff_left hknown.1]
    exact or_congr_right eq_comm

theorem value?_noteReference (symbols : Symbols) (name other : Bytes) :
    (noteReference constants symbols name).value? other = symbols.value? other := by
  unfold noteReference
  split_ifs with hknown
  · rfl
  · rw [Bool.or_eq_true_iff, not_or, Bool.not_eq_true, Bool.not_eq_true] at hknown
    rw [Symbols.value?_set]
    split_ifs with hname
    · have hnone : symbols.get? name = none := by simpa [Symbols.contains] using hknown.2
      rw [← hname, Symbols.value?, hnone]
      rfl
    · rfl

theorem step_sound (hs : s.Sound o) (hstep : step o constants path s i = .ok s') : s'.Sound o := by
  obtain ⟨numbering, hnumbering, hbehind⟩ := step_cases hstep
  obtain ⟨hregular, hlast⟩ := Numbering.step_regular hs.regular hs.last_le hnumbering
  cases hbehind with
  | label hi =>
    refine ⟨hregular, hlast, fun other value hvalue => ?_⟩
    rw [Symbols.value?_set] at hvalue
    split_ifs at hvalue with hname
    · cases hvalue
      exact ⟨_, Numbering.next_le hs.regular hs.last_le, rfl⟩
    · exact hs.values other value hvalue
  | reference hi =>
    refine ⟨hregular, hlast, fun other value hvalue => ?_⟩
    rw [value?_noteReference] at hvalue
    exact hs.values other value hvalue
  | ignored hi => exact ⟨hregular, hlast, hs.values⟩
  | other hreference hignored hfault => exact ⟨hregular, hlast, hs.values⟩

theorem step_contains (hstep : step o constants path s i = .ok s') {name : Bytes}
    (hname : s.symbols.contains name = true) : s'.symbols.contains name = true := by
  obtain ⟨numbering, -, hbehind⟩ := step_cases hstep
  cases hbehind with
  | label hi => exact (Symbols.contains_set _ _ _).mpr (Or.inr hname)
  | reference hi => exact (contains_noteReference _ _ _).mpr (Or.inl hname)
  | ignored hi => exact hname
  | other hreference hignored hfault => exact hname

theorem step_reference (hstep : step o constants path s i = .ok s') {name : Bytes}
    (hi : i.token = .reference name) :
    constants.contains name = true ∨ s'.symbols.contains name = true := by
  obtain ⟨numbering, -, hbehind⟩ := step_cases hstep
  cases hbehind with
  | label hi' => cases hi.symm.trans hi'
  | reference hi' =>
    cases hi.symm.trans hi'
    cases hconstant : constants.contains name with
    | true => exact Or.inl rfl
    | false => exact Or.inr ((contains_noteReference _ _ _).mpr (Or.inr ⟨rfl, hconstant⟩))
  | ignored hi' => cases hi.symm.trans hi'
  | other hreference hignored hfault => exact absurd hi (hreference name)

theorem step_warnings (hstep : step o constants path s i = .ok s') :
    s'.warnings.reverse =
      s.warnings.reverse ++ ([i].filter (·.token = .ignored)).map (warning path) := by
  obtain ⟨numbering, -, hbehind⟩ := step_cases hstep
  cases hbehind with
  | label hi => simp [hi]
  | reference hi => simp [hi]
  | ignored hi => simp [hi]
  | other hreference hignored hfault => simp [hignored]

end steps

/-! ### Runs -/

section runs

variable {o : Options} {constants : Symbols} {path : Bytes} {s s' : Survey} {items : List Item}

theorem run_sound (hs : s.Sound o)
    (hrun : runSteps (step o constants path) s items = (s', none)) : s'.Sound o :=
  runSteps_keeps (fun _ _ _ => step_sound) hs hrun

theorem run_contains (hrun : runSteps (step o constants path) s items = (s', none)) {name : Bytes}
    (hname : s.symbols.contains name = true) : s'.symbols.contains name = true :=
  runSteps_keeps (fun _ _ _ h hstep => step_contains hstep h) hname hrun

theorem run_references (hrun : runSteps (step o constants path) s items = (s', none)) :
    ∀ i ∈ items, ∀ name, i.token = .reference name →
      constants.contains name = true ∨ s'.symbols.contains name = true := by
  induction items generalizing s with
  | nil => simp
  | cons i items ih =>
    obtain ⟨s₁, hstep, hrun⟩ := runSteps_cons_eq_none_iff.mp hrun
    refine List.forall_mem_cons.mpr ⟨fun name hi => ?_, ih hrun⟩
    exact (step_reference hstep hi).imp_right (run_contains hrun)

theorem run_ne_fault (hrun : runSteps (step o constants path) s items = (s', none)) :
    ∀ i ∈ items, ∀ cause, i.token ≠ .fault cause := by
  induction items generalizing s with
  | nil => simp
  | cons i items ih =>
    obtain ⟨s₁, hstep, hrun⟩ := runSteps_cons_eq_none_iff.mp hrun
    exact List.forall_mem_cons.mpr ⟨step_ne_fault hstep, ih hrun⟩

theorem run_warnings (hrun : runSteps (step o constants path) s items = (s', none)) :
    s'.warnings.reverse =
      s.warnings.reverse ++ (items.filter (·.token = .ignored)).map (warning path) := by
  induction items generalizing s with
  | nil =>
    cases hrun
    simp
  | cons i items ih =>
    obtain ⟨s₁, hstep, hrun⟩ := runSteps_cons_eq_none_iff.mp hrun
    rw [ih hrun, step_warnings hstep, List.append_assoc, ← List.map_append, ← List.filter_append,
      List.singleton_append]

end runs

end Survey

end SpectrumTape.Basic
