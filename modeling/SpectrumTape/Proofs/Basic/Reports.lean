import SpectrumTape.Proofs.Basic.Frame
import SpectrumTape.Proofs.Basic.Names

/-!
# What a compilation reports

A compilation ends in one of four ways (`Ends`): a constant has no value, the first pass stops at a
fault, names are left open, or the second pass ends somehow. In each of them what is reported beside
warnings is the failure, fault by fault (`errors_failed`), and there is a program only if there is
none. `parse_reports` says so of a compiler, whatever it compiled before.
-/

namespace SpectrumTape.Basic

/-! ### How a compilation ends -/

/-- All the ways in which the compilation of a source with these items ends. -/
inductive Ends (o : Options) (constants : Symbols) (path : Bytes) (items : List Item) :
    Compiled → Prop where
  | constant {v : Variable} (hv : v ∈ constants.toList) (hvalue : v.isResolved = false) :
      Ends o constants path items
        (.failed [] {} { first := fileFault path (.unresolvedConstant v.name) })
  | fault {s : Survey} {f : Fault Cause}
      (hsurvey : Survey.run o constants path items = (s, some f)) :
      Ends o constants path items (.failed s.warnings.reverse s.symbols { first := f })
  | unresolved {s : Survey} {failure : Failure Cause}
      (hconstants : ∀ v ∈ constants.toList, v.isResolved)
      (hsurvey : Survey.run o constants path items = (s, none))
      (hfaults : failure.faults =
        s.unresolved.map fun name => fileFault path (.unresolvedVariable name)) :
      Ends o constants path items (.failed s.warnings.reverse s.symbols failure)
  | emitted {s : Survey} {compiled : Compiled}
      (hsurvey : Survey.run o constants path items = (s, none)) (hresolved : s.unresolved = [])
      (hemitted : Emitted path s.warnings.reverse s.symbols
        (Emission.run o constants s.symbols path items) compiled) :
      Ends o constants path items compiled

theorem faults_of_ofFaults? {ε : Type} {faults : List (Fault ε)} {failure : Failure ε}
    (h : Failure.ofFaults? faults = some failure) : failure.faults = faults := by
  cases faults with
  | nil => cases h
  | cons first more =>
    cases h
    rfl

theorem compile_ends (o : Options) (dialect : Dialect) (constants : Symbols) (path source : Bytes) :
    Ends o constants path (lex (Vocabulary.ofDialect dialect) source)
      (compile o dialect constants path source) := by
  unfold compile
  cases hfind : constants.toList.find? (!·.isResolved) with
  | some v =>
    have hvalue : v.isResolved = false := by simpa using List.find?_some hfind
    exact .constant (List.mem_of_find?_eq_some hfind) hvalue
  | none =>
    have hconstants : ∀ v ∈ constants.toList, v.isResolved := by
      intro v hv
      simpa using List.find?_eq_none.mp hfind v hv
    unfold compileItems
    rcases hsurvey : Survey.run o constants path (lex (Vocabulary.ofDialect dialect) source) with
      ⟨s, _ | f⟩
    · simp only
      cases hopen : Failure.ofFaults? (s.unresolved.map (fileFault path ∘ .unresolvedVariable)) with
      | some failure => exact .unresolved hconstants hsurvey (faults_of_ofFaults? hopen)
      | none =>
        have hresolved : s.unresolved = [] := by
          cases hnames : s.unresolved with
          | nil => rfl
          | cons name names =>
            rw [hnames] at hopen
            cases hopen
        exact .emitted hsurvey hresolved (emitted_emit o constants path _ _ s.symbols)
    · exact .fault hsurvey

/-! ### Errors -/

theorem Survey.run_warning (o : Options) (constants : Symbols) (path : Bytes) (items : List Item) :
    ∀ d ∈ (Survey.run o constants path items).1.warnings.reverse, d.severity = .warning := by
  have hkeep (s : Survey) (i : Item) (s' : Survey) (h : ∀ d ∈ s.warnings, d.severity = .warning)
      (hstep : step o constants path s i = .ok s') : ∀ d ∈ s'.warnings, d.severity = .warning := by
    obtain ⟨numbering, -, hbehind⟩ := step_cases hstep
    cases hbehind with
    | ignored hi => exact List.forall_mem_cons.mpr ⟨rfl, h⟩
    | _ => exact h
  intro d hd
  exact runSteps_fst_keeps hkeep items (by simp) d (List.mem_reverse.mp hd)

theorem filter_error_of_warnings {warnings : List Diagnostic}
    (h : ∀ d ∈ warnings, d.severity = .warning) :
    warnings.filter (·.severity = .error) = [] := by
  rw [List.filter_eq_nil_iff]
  intro d hd
  simp [h d hd]

theorem errors_failed {warnings : List Diagnostic} (h : ∀ d ∈ warnings, d.severity = .warning)
    (symbols : Symbols) (failure : Failure Cause) :
    (Compiled.failed warnings symbols failure).diagnostics.filter (·.severity = .error) =
      failure.faults.map report := by
  rw [Compiled.failed, List.filter_append, filter_error_of_warnings h, List.nil_append,
    List.filter_eq_self]
  intro d hd
  obtain ⟨f, -, rfl⟩ := List.mem_map.mp hd
  rfl

/-- The line of an error in the text of a failure: the message behind its place. The line zero stands
for the file as a whole, and a source may have no path. -/
def errorLine : Diagnostic → Bytes
  | ⟨_, ⟨[], line, column⟩, message⟩ =>
    if 0 < line then Bytes.decimalInt line ++ ":" ++ Bytes.decimalInt column ++ ": " ++ message
    else message
  | ⟨_, ⟨path, line, column⟩, message⟩ =>
    if 0 < line then
      path ++ ":" ++ Bytes.decimalInt line ++ ":" ++ Bytes.decimalInt column ++ ": " ++ message
    else path ++ ": " ++ message

theorem mark_eq_errorLine (severity : Severity) (l : Location) (message : Bytes) :
    l.mark message = errorLine ⟨severity, l, message⟩ := by
  obtain ⟨path, line, column⟩ := l
  cases path with
  | nil =>
    by_cases hline : 0 < line
    · have hcolon : utf8 ":" ≠ [] := by decide
      simp [Location.mark, Location.render, errorLine, hline, hcolon]
    · simp [Location.mark, Location.render, errorLine, hline]
  | cons c path =>
    by_cases hline : 0 < line <;> simp [Location.mark, Location.render, errorLine, hline]

theorem message_fault (f : Fault Cause) : f.message Cause.message = errorLine (report f) := by
  unfold Fault.message report
  cases f.location with
  | none => rfl
  | some l => exact mark_eq_errorLine .error l f.cause.message

theorem message_faults (failure : Failure Cause) :
    failure.message Cause.message =
      List.intercalate [Ascii.lf] ((failure.faults.map report).map errorLine) := by
  have hlf : utf8 "\n" = [Ascii.lf] := by decide
  rw [Failure.message, Bytes.join, hlf, List.map_map]
  exact congrArg _ (List.map_congr_left fun f _ => message_fault f)

/-- What is known of a failure: the errors are its faults, and there is one of them unless the first
pass came to its end and left names open. -/
structure Reported (constants : Symbols) (path : Bytes) (tokens : List Token) (surveyed : Prop)
    (failure : Failure Cause) (errors : List Diagnostic) : Prop where
  faults : errors = failure.faults.map report
  names : surveyed → (∃ name, NameOpen constants tokens name) →
    ∃ names : List Bytes, names.Pairwise (Bytes.lt · ·) ∧
      (∀ name, name ∈ names ↔ NameOpen constants tokens name) ∧
      errors = names.map fun name => ⟨.error, .ofPath path, Cause.message (.unresolvedVariable name)⟩
  one : ¬(surveyed ∧ ∃ name, NameOpen constants tokens name) → ∃ d, errors = [d]

theorem Reported.of_one {constants : Symbols} {path : Bytes} {tokens : List Token} {surveyed : Prop}
    {f : Fault Cause} {errors : List Diagnostic} (herrors : errors = [report f])
    (hnot : ¬(surveyed ∧ ∃ name, NameOpen constants tokens name)) :
    Reported constants path tokens surveyed { first := f } errors where
  faults := herrors
  names hsurveyed hopen := absurd ⟨hsurveyed, hopen⟩ hnot
  one _ := ⟨_, herrors⟩

section ends

variable {o : Options} {constants : Symbols} {path : Bytes} {items : List Item}

theorem no_name_open {s : Survey} (hsurvey : Survey.run o constants path items = (s, none))
    (hresolved : s.unresolved = []) :
    ¬∃ name, NameOpen constants (items.map Item.token) name := by
  rintro ⟨name, hopen⟩
  have hmem := ((Survey.unresolved_open (Survey.run_knows hsurvey)).2 name).mpr hopen
  rw [hresolved] at hmem
  cases hmem

theorem Ends.result_eq_ok {compiled : Compiled} (h : Ends o constants path items compiled)
    {p : Program} (hresult : compiled.result = .ok p) :
    compiled.diagnostics.filter (·.severity = .error) = [] ∧ p ≠ [] := by
  cases h with
  | constant hv hvalue => cases hresult
  | fault hsurvey => cases hresult
  | unresolved hconstants hsurvey hfaults => cases hresult
  | @emitted s _ hsurvey hresolved hemitted =>
    have hwarning := Survey.run_warning o constants path items
    rw [hsurvey] at hwarning
    generalize Emission.run o constants s.symbols path items = outcome at hemitted
    cases hemitted with
    | stopped e f => cases hresult
    | empty e => cases hresult
    | written e hprogram =>
      cases hresult
      exact ⟨filter_error_of_warnings hwarning, hprogram⟩

theorem Ends.survey_of_ok {compiled : Compiled} (h : Ends o constants path items compiled)
    {p : Program} (hresult : compiled.result = .ok p) :
    ∃ s, Survey.run o constants path items = (s, none) ∧ s.unresolved = [] ∧
      compiled.symbols = s.symbols ∧
      ∃ e, Emission.run o constants s.symbols path items = (e, none) ∧ e.program = p := by
  cases h with
  | constant hv hvalue => cases hresult
  | fault hsurvey => cases hresult
  | unresolved hconstants hsurvey hfaults => cases hresult
  | @emitted s _ hsurvey hresolved hemitted =>
    refine ⟨s, hsurvey, hresolved, ?_⟩
    generalize Emission.run o constants s.symbols path items = outcome at hemitted ⊢
    cases hemitted with
    | stopped e f => cases hresult
    | empty e => cases hresult
    | written e hprogram =>
      cases hresult
      exact ⟨rfl, e, rfl, rfl⟩

theorem Ends.result_eq_error {compiled : Compiled} (h : Ends o constants path items compiled)
    {failure : Failure Cause} (hresult : compiled.result = .error failure) :
    Reported constants path (items.map Item.token)
      ((∀ v ∈ constants.toList, v.isResolved) ∧ (Survey.run o constants path items).2 = none) failure
      (compiled.diagnostics.filter (·.severity = .error)) := by
  have hwarning := Survey.run_warning o constants path items
  cases h with
  | @constant v hv hvalue =>
    cases hresult
    refine .of_one (errors_failed (by simp) _ _) ?_
    rintro ⟨⟨hconstants, -⟩, -⟩
    have hresolved := hconstants v hv
    rw [hvalue] at hresolved
    cases hresolved
  | fault hsurvey =>
    cases hresult
    rw [hsurvey] at hwarning ⊢
    refine .of_one (errors_failed hwarning _ _) ?_
    rintro ⟨⟨-, hnone⟩, -⟩
    cases hnone
  | @unresolved s _ hconstants hsurvey hfaults =>
    cases hresult
    rw [hsurvey] at hwarning ⊢
    obtain ⟨hascending, hmem⟩ := Survey.unresolved_open (Survey.run_knows hsurvey)
    have herrors := errors_failed hwarning s.symbols failure
    refine ⟨herrors, fun _ _ => ⟨s.unresolved, hascending, hmem, ?_⟩, fun hnot => ?_⟩
    · rw [herrors, hfaults, List.map_map]
      rfl
    · -- There is a fault, so there is a name that is left open.
      have hfirst : failure.first ∈ failure.faults := List.mem_cons_self
      rw [hfaults] at hfirst
      obtain ⟨name, hname, -⟩ := List.mem_map.mp hfirst
      exact absurd ⟨⟨hconstants, rfl⟩, name, (hmem name).mp hname⟩ hnot
  | @emitted s _ hsurvey hresolved hemitted =>
    have hnot := no_name_open hsurvey hresolved
    rw [hsurvey] at hwarning
    generalize Emission.run o constants s.symbols path items = outcome at hemitted
    cases hemitted with
    | stopped e f =>
      cases hresult
      exact .of_one (errors_failed hwarning _ _) fun h => hnot h.2
    | empty e =>
      cases hresult
      exact .of_one (errors_failed hwarning _ _) fun h => hnot h.2
    | written e hprogram => cases hresult

end ends

/-- **A compilation fails exactly if it reports an error.** With success there are program bytes, and
without there are none. A failure is reported by one error, or, if names are left open, by one for
each of them in their order; its text is that of these errors at their places. -/
theorem parse_reports (c : Compiler) (dialect : Dialect) (path source : Bytes) :
    let items := lex (Vocabulary.ofDialect dialect) source
    let tokens := items.map Item.token
    let after := (c.parse dialect path source).1
    let compiled := (c.parse dialect path source).2
    let errors := compiled.diagnostics.filter (·.severity = .error)
    let namesOpen := ((∀ v ∈ c.constants.toList, v.isResolved) ∧
      (Survey.run c.options c.constants path items).2 = none) ∧
        ∃ name, NameOpen c.constants tokens name
    ((∃ p, compiled.result = .ok p) ↔ errors = []) ∧
    (∀ p, compiled.result = .ok p → after.program ≠ []) ∧
    (∀ failure, compiled.result = .error failure →
      after.program = [] ∧
      failure.message Cause.message = List.intercalate [Ascii.lf] (errors.map errorLine) ∧
      (¬namesOpen → ∃ d, errors = [d]) ∧
      (namesOpen → ∃ names : List Bytes, names.Pairwise (Bytes.lt · ·) ∧
        (∀ name, name ∈ names ↔ NameOpen c.constants tokens name) ∧
        errors = names.map fun name =>
          ⟨.error, .ofPath path, Cause.message (.unresolvedVariable name)⟩)) := by
  intro items tokens after compiled errors namesOpen
  have hends : Ends c.options c.constants path items compiled :=
    compile_ends c.options dialect c.constants path source
  refine ⟨⟨?_, fun hnone => ?_⟩, fun p hresult => ?_, fun failure hresult => ?_⟩
  · rintro ⟨p, hresult⟩
    exact (hends.result_eq_ok hresult).1
  · cases hresult : compiled.result with
    | ok p => exact ⟨p, rfl⟩
    | error failure =>
      have hfaults := (hends.result_eq_error hresult).faults
      rw [show List.filter _ _ = [] from hnone] at hfaults
      cases hfaults
  · have hprogram : after.program = Program.bytes p := Compiler.program_parse hresult
    rw [hprogram]
    exact Program.bytes_ne_nil (hends.result_eq_ok hresult).2
  · have hreported := hends.result_eq_error hresult
    refine ⟨?_, ?_, hreported.one, fun h => hreported.names h.1 h.2⟩
    · have hcompile : (compile c.options dialect c.constants path source).result = .error failure :=
        hresult
      simp only [after, Compiler.parse, hcompile]
    · rw [message_faults, ← hreported.faults]

/-- A source that refers to two names that nothing defines, one of them twice. -/
def openSource : Bytes := "@here: GO TO @there\nGO TO @away\nGO TO @there\nGO TO @here\n"

/-- A source with a string that does not end on its second line. -/
def unendingSource : Bytes := "PRINT 1\nPRINT \"a"

theorem errors_openSource :
    let errors source :=
      (countingCompiler.parse .k48 "a.bas" source).2.diagnostics.filter (·.severity = .error)
    errors openSource =
        [⟨.error, ⟨"a.bas", 0, 0⟩, "Variable `away` used in BASIC has unresolved value."⟩,
          ⟨.error, ⟨"a.bas", 0, 0⟩, "Variable `there` used in BASIC has unresolved value."⟩] ∧
      errors unendingSource = [⟨.error, ⟨"a.bas", 2, 9⟩, "Unexpected end of string."⟩] := by
  unfold Compiler.parse compile
  rw [Vocabulary.ofDialect_eq]
  decide +kernel

theorem parse_reports_openSource :
    (∃ failure, (countingCompiler.parse .k48 "a.bas" openSource).2.result = .error failure ∧
      (countingCompiler.parse .k48 "a.bas" openSource).1.program = [] ∧
      failure.message Cause.message =
        utf8 "a.bas: Variable `away` used in BASIC has unresolved value.\n" ++
          utf8 "a.bas: Variable `there` used in BASIC has unresolved value.") ∧
    ∃ failure, (countingCompiler.parse .k48 "a.bas" unendingSource).2.result = .error failure ∧
      (countingCompiler.parse .k48 "a.bas" unendingSource).1.program = [] ∧
      failure.message Cause.message = utf8 "a.bas:2:9: Unexpected end of string." := by
  have fails {source : Bytes} {errors : List Diagnostic} (hne : errors ≠ [])
      (herrors : (countingCompiler.parse .k48 "a.bas" source).2.diagnostics.filter
        (·.severity = .error) = errors) :
      ∃ failure, (countingCompiler.parse .k48 "a.bas" source).2.result = .error failure ∧
        (countingCompiler.parse .k48 "a.bas" source).1.program = [] ∧
        failure.message Cause.message = List.intercalate [Ascii.lf] (errors.map errorLine) := by
    obtain ⟨hok, -, hfailure⟩ := parse_reports countingCompiler .k48 "a.bas" source
    rw [herrors] at hok hfailure
    cases hresult : (countingCompiler.parse .k48 "a.bas" source).2.result with
    | ok p => exact absurd (hok.mp ⟨p, hresult⟩) hne
    | error failure =>
      obtain ⟨hprogram, hmessage, -⟩ := hfailure failure hresult
      exact ⟨failure, rfl, hprogram, hmessage⟩
  obtain ⟨failure, hresult, hprogram, hmessage⟩ := fails (by simp) errors_openSource.1
  obtain ⟨failure', hresult', hprogram', hmessage'⟩ := fails (by simp) errors_openSource.2
  exact ⟨⟨failure, hresult, hprogram, hmessage.trans (by decide +kernel)⟩,
    failure', hresult', hprogram', hmessage'.trans (by decide +kernel)⟩

end SpectrumTape.Basic
