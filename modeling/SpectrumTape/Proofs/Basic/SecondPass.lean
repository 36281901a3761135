import SpectrumTape.Proofs.Number.Decimal
import SpectrumTape.Proofs.Basic.Frame
import SpectrumTape.Proofs.Basic.Survey
import SpectrumTape.Proofs.Basic.Walk

/-!
# The second pass follows the first one

Both passes keep a numbering and nothing else that decides about numbers, so they go on alike. What
the first pass got through, the second one gets through as well, unless a token has no bytes. Only a
reference can lack them, and its name is known from the first pass: a label has the decimal digits
of a number, which can always be read (`Emission.numberOfValue_decimal`), so it is a constant whose
value is no number, or none that the machine can hold (`Emission.step_stops`).

`emission_follows_survey` puts this together for the whole compiler.
-/

namespace SpectrumTape.Basic

/-- The second pass can only stop with this fault: an item refers to a constant, and the value of
the constant is no number, or none that the machine can hold. -/
def ConstantFault (constants : Symbols) (path : Bytes) (i : Item) (f : Fault Cause) : Prop :=
  ∃ name value, i.token = .reference name ∧ constants.value? name = some value ∧
    f.location = some (Survey.place path i) ∧
    (f.cause = .notANumber value name ∨ f.cause = .largeNumber)

namespace Emission

variable {o : Options} {constants symbols : Symbols} {path : Bytes}

theorem numberOfValue_eq_error {name value : Bytes} {cause : Cause}
    (h : numberOfValue name value = .error cause) :
    cause = .notANumber value name ∨ cause = .largeNumber := by
  unfold numberOfValue at h
  split at h
  · unfold Literal.numberOf at h
    split at h
    · cases h
    · cases h
      exact Or.inr rfl
  · cases h
    exact Or.inl rfl

theorem tokenBytes_eq_error {t : Token} {cause : Cause} (hfault : ∀ cause, t ≠ .fault cause)
    (h : tokenBytes o constants symbols t = .error cause) :
    ∃ name, t = .reference name ∧
      (valueOf? constants symbols name = none ∨
        ∃ value, valueOf? constants symbols name = some value ∧
          numberOfValue name value = .error cause) := by
  cases t with
  | reference name =>
    refine ⟨name, rfl, ?_⟩
    unfold tokenBytes at h
    dsimp only at h
    split at h
    · rename_i value hvalue
      rcases bind_eq_error_iff.mp h with h | ⟨n, -, h⟩
      · exact Or.inr ⟨value, hvalue, h⟩
      · cases h
    · rename_i hvalue
      exact Or.inl hvalue
  | fault cause => exact absurd rfl (hfault cause)
  | _ => cases h

theorem valueOf?_constant {name : Bytes} (hname : constants.contains name = true) :
    valueOf? constants symbols name = constants.value? name := by
  obtain ⟨v, hv⟩ := Option.isSome_iff_exists.mp hname
  simp only [valueOf?, Symbols.value?, hv, Option.bind_some]

theorem valueOf?_symbol {name : Bytes} (hname : ¬constants.contains name = true) :
    valueOf? constants symbols name = symbols.value? name := by
  have hnone : constants.get? name = none := by
    simpa [Symbols.contains] using hname
  rw [valueOf?, hnone]

theorem step_stops {e : Emission} {i : Item} {fault : Fault Cause} {numbering : Numbering}
    (hconstants : ∀ v ∈ constants.toList, v.isResolved)
    (hsymbols : ∀ v ∈ symbols.toList, v.isResolved)
    (hvalues : ∀ name value, symbols.value? name = some value →
      ∃ n, n ≤ 19998 ∧ value = Bytes.decimal n)
    (hreference : ∀ name, i.token = .reference name →
      constants.contains name = true ∨ symbols.contains name = true)
    (hfault : ∀ cause, i.token ≠ .fault cause)
    (hnumbering : e.numbering.step o i.token = .ok numbering)
    (hstep : step o constants symbols path e i = .error fault) :
    ConstantFault constants path i fault := by
  obtain ⟨cause, hcause, rfl⟩ := step_eq_error_iff.mp hstep
  rcases hcause with hcause | ⟨-, -, hcause⟩
  · rw [hnumbering] at hcause
    cases hcause
  obtain ⟨name, hi, hvalue⟩ := tokenBytes_eq_error hfault hcause
  by_cases hconstant : constants.contains name = true
  · obtain ⟨value, hknown⟩ := Symbols.value?_isSome hconstants hconstant
    rw [valueOf?_constant hconstant, hknown] at hvalue
    rcases hvalue with hvalue | ⟨_, hvalue, hnumber⟩
    · cases hvalue
    · cases hvalue
      exact ⟨name, value, hi, hknown, rfl, numberOfValue_eq_error hnumber⟩
  · -- A name that is no constant is a label, and the number of a label can be read.
    have hsymbol := (hreference name hi).resolve_left hconstant
    obtain ⟨value, hknown⟩ := Symbols.value?_isSome hsymbols hsymbol
    obtain ⟨n, hn, rfl⟩ := hvalues name value hknown
    rw [valueOf?_symbol hconstant, hknown] at hvalue
    rcases hvalue with hvalue | ⟨_, hvalue, hnumber⟩
    · cases hvalue
    · cases hvalue
      rw [numberOfValue_decimal name (hn.trans (by decide))] at hnumber
      cases hnumber

end Emission

/-! ### Both passes -/

section passes

variable {o : Options} {constants : Symbols} {path : Bytes} {items : List Item} {s : Survey}

theorem Survey.resolved_of_unresolved (hresolved : s.unresolved = []) :
    ∀ v ∈ s.symbols.toList, v.isResolved := by
  intro v hv
  by_contra hnot
  have hmem : v.name ∈ s.unresolved :=
    List.mem_map_of_mem (List.mem_filter.mpr ⟨hv, by simpa using hnot⟩)
  rw [hresolved] at hmem
  cases hmem

theorem numbering_agree {symbols : Symbols} (s : Survey) (e : Emission) (i : Item) (s' : Survey)
    (e' : Emission) (h : s.numbering = e.numbering)
    (hsurvey : Survey.step o constants path s i = .ok s')
    (hemission : Emission.step o constants symbols path e i = .ok e') :
    s'.numbering = e'.numbering := by
  have hs := Survey.step_numbering hsurvey
  have he := Emission.step_numbering hemission
  rw [h, he] at hs
  exact (Except.ok.inj hs).symm

theorem emission_stops {e : Emission} {f : Fault Cause}
    (hconstants : ∀ v ∈ constants.toList, v.isResolved) (hresolved : s.unresolved = [])
    (hsurvey : Survey.run o constants path items = (s, none))
    (hemission : Emission.run o constants s.symbols path items = (e, some f)) :
    ∃ i rest, items = (passed (Emission.step o constants s.symbols path) {} items).map Prod.fst ++
      i :: rest ∧ ConstantFault constants path i f := by
  obtain ⟨i, rest, s₁, s₂, hitems, hnumbering, hstep, hstops⟩ :=
    runSteps_stopped numbering_agree rfl hsurvey hemission
  have hmem : i ∈ items := by
    rw [hitems]
    exact List.mem_append_right _ List.mem_cons_self
  refine ⟨i, rest, hitems, ?_⟩
  have hnext := Survey.step_numbering hstep
  rw [hnumbering] at hnext
  exact Emission.step_stops hconstants (Survey.resolved_of_unresolved hresolved)
    (Survey.run_sound (Survey.sound_start o) hsurvey).values
    (Survey.run_references hsurvey i hmem) (Survey.step_ne_fault hstep) hnext hstops

/-- The compiler makes its second pass if the first one leaves nothing open. -/
theorem compile_eq_emit {dialect : Dialect} {source : Bytes}
    (hconstants : ∀ v ∈ constants.toList, v.isResolved)
    (hsurvey : Survey.run o constants path (lex (Vocabulary.ofDialect dialect) source) = (s, none))
    (hresolved : s.unresolved = []) :
    compile o dialect constants path source =
      emit o constants path (lex (Vocabulary.ofDialect dialect) source) s.warnings.reverse
        s.symbols := by
  have hfind : constants.toList.find? (!·.isResolved) = none := by
    rw [List.find?_eq_none]
    exact fun v hv => by simpa using hconstants v hv
  simp only [compile, hfind, compileItems, hsurvey, hresolved, List.map_nil, Failure.ofFaults?]

end passes

/-! ### What is reported -/

section reports

variable {constants symbols : Symbols} {path : Bytes} {warnings : List Diagnostic}
  {outcome : Emission × Option (Fault Cause)} {compiled : Compiled}

theorem Emitted.result_eq_ok (h : Emitted path warnings symbols outcome compiled) {p : Program}
    (hresult : compiled.result = .ok p) : outcome.2 = none ∧ p = outcome.1.program := by
  cases h with
  | stopped e f => cases hresult
  | empty e => cases hresult
  | written e hprogram =>
    cases hresult
    exact ⟨rfl, rfl⟩

theorem Emitted.result_eq_error (h : Emitted path warnings symbols outcome compiled)
    {failure : Failure Cause} (hresult : compiled.result = .error failure) :
    failure.more = [] ∧
      (outcome.2 = some failure.first ∨ failure.first = fileFault path .emptyProgram) := by
  cases h with
  | stopped e f =>
    cases hresult
    exact ⟨rfl, Or.inl rfl⟩
  | empty e =>
    cases hresult
    exact ⟨rfl, Or.inr rfl⟩
  | written e hprogram => cases hresult

theorem Emitted.diagnostics (h : Emitted path warnings symbols outcome compiled) :
    ∃ faults : List (Fault Cause), compiled.diagnostics = warnings ++ faults.map report ∧
      ∀ f ∈ faults, outcome.2 = some f ∨ f = fileFault path .emptyProgram := by
  cases h with
  | stopped e f => exact ⟨[f], rfl, by simp⟩
  | empty e => exact ⟨[_], rfl, by simp⟩
  | written e hprogram => exact ⟨[], (List.append_nil _).symm, by simp⟩

-- The first byte tells the messages apart.
theorem ne_message_of_head? {message : Bytes}
    (h : message.head? ∈ [some 0x42, some 0x43, some 0x45, some 0x56]) :
    message ≠ Cause.message .noBytes ∧ ∀ name, message ≠ Cause.message (.noValue name) := by
  constructor
  · rintro rfl
    revert h
    decide
  · rintro name rfl
    have hhead : (Cause.message (.noValue name)).head? = some 0x55 := rfl
    rw [hhead] at h
    revert h
    decide

theorem head?_message_of_constantFault {i : Item} {f : Fault Cause}
    (h : ConstantFault constants path i f) :
    f.cause.message.head? ∈ [some 0x42, some 0x43, some 0x45, some 0x56] := by
  obtain ⟨name, value, -, -, -, hcause | hcause⟩ := h
  · have hhead : (Cause.message (.notANumber value name)).head? = some 0x56 := rfl
    rw [hcause, hhead]
    decide
  · rw [hcause]
    decide

theorem Emitted.ne_message (h : Emitted path warnings symbols outcome compiled)
    (hwarnings : ∀ d ∈ warnings, d.message = Survey.ignoredText)
    (hstops : ∀ f, outcome.2 = some f → ∃ i, ConstantFault constants path i f) :
    ∀ d ∈ compiled.diagnostics, d.message ≠ Cause.message .noBytes ∧
      ∀ name, d.message ≠ Cause.message (.noValue name) := by
  obtain ⟨faults, hdiagnostics, hfaults⟩ := h.diagnostics
  intro d hd
  apply ne_message_of_head?
  rw [hdiagnostics] at hd
  rcases List.mem_append.mp hd with hd | hd
  · rw [hwarnings d hd]
    decide
  · obtain ⟨f, hf, rfl⟩ := List.mem_map.mp hd
    rcases hfaults f hf with hf | rfl
    · obtain ⟨i, hfault⟩ := hstops f hf
      exact head?_message_of_constantFault hfault
    · change (Cause.message .emptyProgram).head? ∈ _
      decide

theorem Emitted.filter_warning (h : Emitted path warnings symbols outcome compiled)
    (hwarnings : ∀ d ∈ warnings, d.severity = .warning) :
    compiled.diagnostics.filter (·.severity = .warning) = warnings := by
  obtain ⟨faults, hdiagnostics, -⟩ := h.diagnostics
  have herrors : (faults.map report).filter (·.severity = .warning) = [] := by
    rw [List.filter_eq_nil_iff]
    intro d hd
    obtain ⟨f, -, rfl⟩ := List.mem_map.mp hd
    simp [report]
  rw [hdiagnostics, List.filter_append, herrors, List.append_nil, List.filter_eq_self]
  exact fun d hd => by simpa using hwarnings d hd

end reports

/-- **The second pass follows the first one.** As far as it goes, it gets past the same items and
opens lines with the same numbers. It stops only at a constant that is of no use, and besides that
only an empty program can be found at fault. There is one warning for each text that is ignored. -/
theorem emission_follows_survey (o : Options) (dialect : Dialect) (constants : Symbols)
    (path source : Bytes) {s : Survey} (hconstants : ∀ v ∈ constants.toList, v.isResolved)
    (hsurvey : Survey.run o constants path (lex (Vocabulary.ofDialect dialect) source) = (s, none))
    (hresolved : s.unresolved = []) :
    let items := lex (Vocabulary.ofDialect dialect) source
    let first := (passed (Survey.step o constants path) {} items).map fun p => (p.1, p.2.numbering)
    let second := (passed (Emission.step o constants s.symbols path) {} items).map fun p =>
      (p.1, p.2.numbering)
    let outcome := Emission.run o constants s.symbols path items
    let compiled := compile o dialect constants path source
    (first.map Prod.fst = items ∧ second <+: first ∧ outcome.1.numbers <+: openedNumbers first) ∧
    (outcome.2 = none → second = first ∧ outcome.1.numbers = openedNumbers first) ∧
    (∀ f, outcome.2 = some f →
      ∃ i rest, items = second.map Prod.fst ++ i :: rest ∧ ConstantFault constants path i f) ∧
    (∀ p, compiled.result = .ok p → outcome.2 = none ∧ p = outcome.1.program) ∧
    (∀ failure, compiled.result = .error failure → failure.more = [] ∧
      (outcome.2 = some failure.first ∨ failure.first = fileFault path .emptyProgram)) ∧
    (∀ d ∈ compiled.diagnostics, d.message ≠ Cause.message .noBytes ∧
      ∀ name, d.message ≠ Cause.message (.noValue name)) ∧
    compiled.diagnostics.filter (·.severity = .warning) =
      (items.filter (·.token = .ignored)).map (Survey.warning path) := by
  intro items first second outcome compiled
  have hfollows : second <+: first := passed_isPrefix numbering_agree rfl hsurvey
  have hnumbers : outcome.1.numbers = openedNumbers second :=
    Emission.run_numbers (orderly_lex (Vocabulary.ofDialect dialect) source)
  have hopened : openedNumbers second <+: openedNumbers first := (hfollows.filter _).map _
  have hstops (f : Fault Cause) (hf : outcome.2 = some f) :
      ∃ i rest, items = second.map Prod.fst ++ i :: rest ∧ ConstantFault constants path i f := by
    have houtcome : outcome = (outcome.1, some f) := Prod.ext rfl hf
    obtain ⟨i, rest, hitems, hfault⟩ := emission_stops hconstants hresolved hsurvey houtcome
    refine ⟨i, rest, ?_, hfault⟩
    rwa [List.map_map]
  have hemitted : Emitted path s.warnings.reverse s.symbols outcome compiled := by
    rw [show compiled = _ from compile_eq_emit hconstants hsurvey hresolved]
    exact emitted_emit o constants path items s.warnings.reverse s.symbols
  have hwarnings : s.warnings.reverse =
      (items.filter (·.token = .ignored)).map (Survey.warning path) := Survey.run_warnings hsurvey
  have hwarned : ∀ d ∈ s.warnings.reverse,
      d.severity = .warning ∧ d.message = Survey.ignoredText := by
    intro d hd
    rw [hwarnings] at hd
    obtain ⟨i, -, rfl⟩ := List.mem_map.mp hd
    exact ⟨rfl, rfl⟩
  have hfault (f : Fault Cause) (hf : outcome.2 = some f) :
      ∃ i, ConstantFault constants path i f := by
    obtain ⟨i, rest, -, hfault⟩ := hstops f hf
    exact ⟨i, hfault⟩
  refine ⟨⟨?_, hfollows, hnumbers ▸ hopened⟩, fun hnone => ?_, hstops,
    fun p => hemitted.result_eq_ok, fun failure => hemitted.result_eq_error,
    hemitted.ne_message (fun d hd => (hwarned d hd).2) hfault, ?_⟩
  · rw [List.map_map]
    exact map_fst_passed hsurvey
  · have houtcome : outcome = (outcome.1, none) := Prod.ext rfl hnone
    have heq : second = first := passed_eq numbering_agree rfl hsurvey houtcome
    exact ⟨heq, by rw [hnumbers, heq]⟩
  · rw [hemitted.filter_warning fun d hd => (hwarned d hd).1, hwarnings]

/-- One constant that is a number, with blanks around it, and one that is none. -/
def mixedConstants : Symbols := ⟨[.constant "bad" "seven", .constant "top" " 7 "]⟩

/-- A source that refers to its own label, to both constants, and has text behind a line escape. -/
def mixedSource : Bytes := "@loop: PRINT @top \\ junk\n ; @loop\n20 GO TO @loop\nPRINT @bad\n"

theorem runs_mixedSource :
    let items := lex (Vocabulary.ofDialect .k48) mixedSource
    let surveyed := Survey.run .standard mixedConstants [] items
    (surveyed.2 = none ∧ surveyed.1.unresolved = []) ∧
      (Emission.run .standard mixedConstants surveyed.1.symbols [] items).2.isSome = true ∧
      (items.filter (·.token = .ignored)).map (Survey.warning []) =
        [⟨.warning, ⟨[], 1, 19⟩, "Characters after line escape (\\) will be ignored."⟩] := by
  rw [Vocabulary.ofDialect_eq]
  decide +kernel

theorem emission_follows_survey_mixedSource :
    let items := lex (Vocabulary.ofDialect .k48) mixedSource
    let s := (Survey.run .standard mixedConstants [] items).1
    let outcome := Emission.run .standard mixedConstants s.symbols [] items
    (s.unresolved = [] ∧ (∀ v ∈ mixedConstants.toList, v.isResolved)) ∧
      (∃ f i, outcome.2 = some f ∧ i ∈ items ∧ ConstantFault mixedConstants [] i f) ∧
      (compile .standard .k48 mixedConstants [] mixedSource).diagnostics.filter
          (·.severity = .warning) =
        [⟨.warning, ⟨[], 1, 19⟩, "Characters after line escape (\\) will be ignored."⟩] := by
  intro items s outcome
  obtain ⟨⟨hnone, hresolved⟩, hstopped, hignored⟩ := runs_mixedSource
  have hconstants : ∀ v ∈ mixedConstants.toList, v.isResolved := by decide
  have hsurvey : Survey.run .standard mixedConstants [] items = (s, none) := Prod.ext rfl hnone
  obtain ⟨-, -, hstops, -, -, -, hwarnings⟩ :=
    emission_follows_survey .standard .k48 mixedConstants [] mixedSource hconstants hsurvey hresolved
  obtain ⟨f, hf⟩ := Option.isSome_iff_exists.mp hstopped
  obtain ⟨i, rest, hitems, hfault⟩ := hstops f hf
  refine ⟨⟨hresolved, hconstants⟩, ⟨f, i, hf, ?_, hfault⟩, hwarnings.trans hignored⟩
  rw [show items = _ from hitems]
  exact List.mem_append_right _ List.mem_cons_self

end SpectrumTape.Basic
