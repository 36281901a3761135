import SpectrumTape.Proofs.Basic.Symbols
import SpectrumTape.Proofs.Basic.Survey

/-!
# The names of a source

Behind a survey the symbols are the labels of the source and the names it refers to that are no
constants, and the labels are those that have a value (`Survey.Knows`, `Survey.run_knows`). A label
keeps the value it was given (`Survey.run_value?`). So the names that are left open are those that
the source refers to and nothing defines (`Survey.unresolved_open`).
-/

namespace SpectrumTape.Basic

/-- A source with these tokens refers to a name that is neither one of its labels nor a constant. -/
def NameOpen (constants : Symbols) (tokens : List Token) (name : Bytes) : Prop :=
  .reference name ∈ tokens ∧ .label name ∉ tokens ∧ constants.contains name = false

namespace Survey

/-- What the symbols say about the tokens up to here. -/
structure Knows (constants : Symbols) (tokens : List Token) (s : Survey) : Prop where
  ascending : s.symbols.Ascending
  contains : ∀ name, s.symbols.contains name = true ↔
    .label name ∈ tokens ∨ constants.contains name = false ∧ .reference name ∈ tokens
  resolved : ∀ name, (s.symbols.value? name).isSome = true ↔ .label name ∈ tokens
  fresh : ∀ name, .label name ∈ tokens → constants.contains name = false

theorem knows_start (constants : Symbols) : Knows constants [] {} where
  ascending := Symbols.ascending_empty
  contains name := by simp [Symbols.contains, Symbols.get?]
  resolved name := by simp [Symbols.value?, Symbols.get?]
  fresh name h := by cases h

section steps

variable {o : Options} {constants : Symbols} {path : Bytes} {s s' : Survey} {i : Item}

theorem step_label_value? (hstep : step o constants path s i = .ok s') {name : Bytes}
    (hi : i.token = .label name) :
    s'.symbols.value? name = some (Bytes.decimal (s.numbering.next o)) := by
  obtain ⟨numbering, -, hbehind⟩ := step_cases hstep
  cases hbehind with
  | label hi' =>
    cases hi.symm.trans hi'
    exact (Symbols.value?_set _ _ _).trans (if_pos rfl)
  | reference hi' => cases hi.symm.trans hi'
  | ignored hi' => cases hi.symm.trans hi'
  | other hreference hignored hfault hlabel => exact absurd hi (hlabel name)

theorem ascending_noteReference {symbols : Symbols} (h : symbols.Ascending) (name : Bytes) :
    (noteReference constants symbols name).Ascending := by
  unfold noteReference
  split_ifs
  · exact h
  · exact h.set _

theorem step_value? (hstep : step o constants path s i = .ok s') {name value : Bytes}
    (hvalue : s.symbols.value? name = some value) : s'.symbols.value? name = some value := by
  obtain ⟨numbering, -, hbehind⟩ := step_cases hstep
  cases hbehind with
  | label hi hconstant hfresh =>
    rw [Symbols.value?_set, if_neg, hvalue]
    intro hname
    rw [← hname] at hvalue
    cases hvalue.symm.trans hfresh
  | reference hi =>
    rw [value?_noteReference]
    exact hvalue
  | ignored hi => exact hvalue
  | other hreference hignored hfault hlabel => exact hvalue

theorem Knows.of_symbols_eq {tokens : List Token} {t : Token} (h : s.Knows constants tokens)
    (hsymbols : s'.symbols = s.symbols) (hlabel : ∀ name, t ≠ .label name)
    (hreference : ∀ name, t ≠ .reference name) : s'.Knows constants (tokens ++ [t]) := by
  have hmem (name : Bytes) : .label name ∈ tokens ++ [t] ↔ .label name ∈ tokens := by
    simp [(hlabel name).symm]
  refine ⟨hsymbols ▸ h.ascending, fun name => ?_, fun name => ?_, fun name hname => ?_⟩
  · rw [hsymbols, h.contains, hmem]
    simp [(hreference name).symm]
  · rw [hsymbols, h.resolved, hmem]
  · exact h.fresh name ((hmem name).mp hname)

theorem step_knows {tokens : List Token} (h : s.Knows constants tokens)
    (hstep : step o constants path s i = .ok s') : s'.Knows constants (tokens ++ [i.token]) := by
  obtain ⟨numbering, -, hbehind⟩ := step_cases hstep
  cases hbehind with
  | @label name hi hconstant hfresh =>
    rw [hi]
    refine ⟨h.ascending.set _, fun other => ?_, fun other => ?_, fun other hother => ?_⟩
    · rw [Symbols.contains_set, h.contains]
      by_cases hname : name = other
      · simp [Variable.constant, hname]
      · simp [Variable.constant, hname, Ne.symm hname]
    · rw [Symbols.value?_set]
      by_cases hname : name = other
      · simp [Variable.constant, hname]
      · simp [Variable.constant, hname, Ne.symm hname, h.resolved]
    · rcases List.mem_append.mp hother with hother | hother
      · exact h.fresh other hother
      · cases List.mem_singleton.mp hother
        exact hconstant
  | @reference name hi =>
    rw [hi]
    refine ⟨ascending_noteReference h.ascending name, fun other => ?_, fun other => ?_,
      fun other hother => ?_⟩
    · rw [contains_noteReference, h.contains]
      by_cases hname : other = name
      · subst hname
        simp only [true_and, List.mem_append, List.mem_singleton, reduceCtorEq, or_false, or_true,
          and_true]
        tauto
      · simp [hname]
    · rw [value?_noteReference, h.resolved]
      simp
    · exact h.fresh other (by simpa using hother)
  | ignored hi =>
    rw [hi]
    exact h.of_symbols_eq rfl (by simp) (by simp)
  | other hreference hignored hfault hlabel => exact h.of_symbols_eq rfl hlabel hreference

end steps

section runs

variable {o : Options} {constants : Symbols} {path : Bytes} {s s' : Survey} {items : List Item}

theorem run_value? (hrun : runSteps (step o constants path) s items = (s', none))
    {name value : Bytes} (hvalue : s.symbols.value? name = some value) :
    s'.symbols.value? name = some value :=
  runSteps_keeps (fun _ _ _ h hstep => step_value? hstep h) hvalue hrun

theorem run_knows (hrun : Survey.run o constants path items = (s, none)) :
    s.Knows constants (items.map Item.token) := by
  have hkeep (done : List Item) (s : Survey) (i : Item) (s' : Survey)
      (h : s.Knows constants (done.map Item.token)) (hstep : step o constants path s i = .ok s') :
      s'.Knows constants ((done ++ [i]).map Item.token) := by
    rw [List.map_append]
    exact step_knows h hstep
  exact runSteps_collects hkeep [] (knows_start constants) hrun

theorem unresolved_open {tokens : List Token} (h : s.Knows constants tokens) :
    s.unresolved.Pairwise (Bytes.lt · ·) ∧
      ∀ name, name ∈ s.unresolved ↔ NameOpen constants tokens name := by
  constructor
  · exact List.pairwise_map.mpr ((List.pairwise_map.mp h.ascending).filter _)
  intro name
  have hvalue : name ∈ s.unresolved ↔
      s.symbols.contains name = true ∧ (s.symbols.value? name).isSome = false := by
    unfold unresolved
    rw [List.mem_map]
    constructor
    · rintro ⟨v, hv, rfl⟩
      obtain ⟨hv, hopen⟩ := List.mem_filter.mp hv
      have hget := h.ascending.get?_eq_some_iff.mpr hv
      refine ⟨by rw [Symbols.contains, hget]; rfl, ?_⟩
      rw [Symbols.value?, hget]
      simpa [Variable.isResolved] using hopen
    · rintro ⟨hthere, hopen⟩
      obtain ⟨v, hv⟩ := Option.isSome_iff_exists.mp hthere
      have hname : v.name = name := by simpa using List.find?_some hv
      refine ⟨v, List.mem_filter.mpr ⟨List.mem_of_find?_eq_some hv, ?_⟩, hname⟩
      rw [Symbols.value?, hv] at hopen
      simpa [Variable.isResolved] using hopen
  rw [hvalue, h.contains, ← Bool.not_eq_true (Option.isSome _), h.resolved, NameOpen]
  tauto

end runs

end Survey

end SpectrumTape.Basic
