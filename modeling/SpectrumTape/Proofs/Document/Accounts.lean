import SpectrumTape.Proofs.Document.Work
import SpectrumTape.Proofs.Basic.Merging
import SpectrumTape.Proofs.Basic.Reports
import SpectrumTape.Proofs.Tape.Building

/-!
# Failures and reported errors

Work on a document accounts for what becomes of it (`Accounts`): what it returns, collects and notes
depends on nothing but the files collected before, and it fails exactly if it reports an error. Most
work fails right where it reports (`accounts_fail`). A compiler and a tape hand over all that they have
to report at once, and then there is an error among it exactly if they failed (`Basic.parse_fails_iff`,
`Tape.build_fails_iff`). Work that is put together from parts that account for what becomes of them
does so as well (`Accounts.bind`). A document forgets the files collected before, so nothing of them is
left in what becomes of it (`processText_accounts`).
-/

namespace SpectrumTape

/-! ### Errors among diagnostics -/

/-- Whether there is an error among diagnostics. -/
def HasError (ds : List Diagnostic) : Prop := ∃ d ∈ ds, d.severity = .error

theorem not_hasError_nil : ¬HasError [] := by
  rintro ⟨d, hd, -⟩
  cases hd

theorem hasError_append {ds ds' : List Diagnostic} :
    HasError (ds ++ ds') ↔ HasError ds ∨ HasError ds' := by
  simp only [HasError, List.mem_append, or_and_right, exists_or]

theorem not_hasError_of_warnings {ds : List Diagnostic} (h : ∀ d ∈ ds, d.severity = .warning) :
    ¬HasError ds := by
  rintro ⟨d, hd, herror⟩
  rw [h d hd] at herror
  cases herror

theorem outcome_of_fails_iff {ε α : Type} {ds : List Diagnostic} {result : Except ε α}
    (h : (∃ failure, result = .error failure) ↔ HasError ds) :
    (∃ failure, result = .error failure ∧ HasError ds) ∨ ∃ a, result = .ok a ∧ ¬HasError ds := by
  cases result with
  | error failure => exact .inl ⟨failure, rfl, h.mp ⟨failure, rfl⟩⟩
  | ok a => exact .inr ⟨a, rfl, fun herror => by simpa using h.mpr herror⟩

theorem hasError_iff_filter {ds : List Diagnostic} :
    HasError ds ↔ ds.filter (·.severity = .error) ≠ [] := by
  rw [Ne, List.filter_eq_nil_iff]
  simp [HasError]

namespace Basic

theorem warning_create (dialect : Dialect) (settings : Settings) :
    ∀ d ∈ (Compiler.create dialect settings).2, d.severity = .warning := by
  unfold Compiler.create
  split <;> simp

theorem warning_setConstants (c : Compiler) (cs : Constants) :
    ∀ d ∈ (c.setConstants cs).2, d.severity = .warning := by
  have hwarnings : (c.setConstants cs).2 = cs.repeats.map fun v =>
    Compiler.repeatedConstant c.path v.name := Compiler.snd_foldl_addConstant c.path cs
  rw [hwarnings, List.forall_mem_map]
  exact fun v _ => rfl

theorem parse_fails_iff (c : Compiler) (dialect : Dialect) (path source : Bytes) :
    (∃ failure, (c.parse dialect path source).2.result = .error failure) ↔
      HasError (c.parse dialect path source).2.diagnostics := by
  have hends : Ends c.options c.constants path _ (c.parse dialect path source).2 :=
    compile_ends c.options dialect c.constants path source
  rw [hasError_iff_filter]
  cases hresult : (c.parse dialect path source).2.result with
  | ok p => simp [(hends.result_eq_ok hresult).1]
  | error failure =>
    rw [(hends.result_eq_error hresult).faults]
    simp [Failure.faults]

end Basic

namespace Tape

theorem build_fails_iff (entries : List Entry) :
    (∃ failure, (build entries).result = .error failure) ↔ HasError (build entries).diagnostics := by
  have herrors : HasError (build entries).diagnostics ↔ ¬∀ e ∈ entries, e.Valid := by
    rw [diagnostics_build, not_forall_valid_iff]
    simp [HasError, issueReports, issueReport, and_assoc]
  rw [herrors]
  by_cases hvalid : ∀ e ∈ entries, e.Valid
  · rw [build_of_valid hvalid]
    exact iff_of_false (by simp) (not_not_intro hvalid)
  · obtain ⟨failure, hbuild, -⟩ := build_of_invalid hvalid
    exact iff_of_true ⟨failure, by rw [hbuild]⟩ hvalid

end Tape

/-! ### Work that accounts for what becomes of it -/

namespace Document

variable {α β : Type}

/-- What was reported, the latest first. -/
def reported (events : List Journal.Event) : List Diagnostic :=
  events.filterMap Journal.Event.diagnostic?

theorem reported_append (events events' : List Journal.Event) :
    reported (events ++ events') = reported events ++ reported events' :=
  List.filterMap_append

/-- Work that fails exactly if it reports an error, and for which nothing counts but the files
collected before it. -/
def Accounts (w : Work α) : Prop :=
  ∀ entries, ∃ result entries' events,
    (∀ journal, w.run.run ⟨entries, journal⟩ = (result, ⟨entries', events ++ journal⟩)) ∧
      ((∃ failure, result = .error failure) ↔ HasError (reported events))

theorem accounts_of_ok {w : Work α} (h : ∀ entries, ∃ a entries' events,
    (∀ journal, w.run.run ⟨entries, journal⟩ = (.ok a, ⟨entries', events ++ journal⟩)) ∧
      ¬HasError (reported events)) : Accounts w := by
  intro entries
  obtain ⟨a, entries', events, hrun, hnone⟩ := h entries
  exact ⟨.ok a, entries', events, hrun, iff_of_false (by simp) hnone⟩

theorem accounts_of_error {w : Work α} (h : ∀ entries, ∃ failure entries' events,
    (∀ journal, w.run.run ⟨entries, journal⟩ = (.error failure, ⟨entries', events ++ journal⟩)) ∧
      HasError (reported events)) : Accounts w := by
  intro entries
  obtain ⟨failure, entries', events, hrun, herror⟩ := h entries
  exact ⟨.error failure, entries', events, hrun, iff_of_true ⟨failure, rfl⟩ herror⟩

theorem accounts_pure (a : α) : Accounts (pure a) :=
  accounts_of_ok fun entries => ⟨a, entries, [], fun _ => rfl, not_hasError_nil⟩

theorem accounts_modifyEntries (f : List Tape.Entry → List Tape.Entry) :
    Accounts (modify fun s => { s with entries := f s.entries } : Work Unit) :=
  accounts_of_ok fun entries => ⟨(), f entries, [], fun _ => rfl, not_hasError_nil⟩

theorem accounts_note (c : Journal.Context) (level : Journal.Level) (message : Bytes)
    (attributes : List Journal.Attribute) : Accounts (note (c.note level message attributes)) :=
  accounts_of_ok fun entries => ⟨(), entries, [_], fun _ => rfl, not_hasError_nil⟩

theorem accounts_fail (l : Location) (cause : Cause) : Accounts (fail l cause : Work α) :=
  accounts_of_error fun entries => ⟨_, entries, [.reported ⟨.error, l, cause.report⟩],
    fun _ => rfl, _, List.mem_cons_self, rfl⟩

theorem Accounts.bind {w : Work α} {f : α → Work β} (hw : Accounts w) (hf : ∀ a, Accounts (f a)) :
    Accounts (w >>= f) := by
  intro entries
  obtain ⟨result, entries₁, events, hrun, hiff⟩ := hw entries
  cases result with
  | error failure =>
    exact ⟨.error failure, entries₁, events, fun journal => run_bind_of_error (hrun journal),
      iff_of_true ⟨failure, rfl⟩ (hiff.mp ⟨failure, rfl⟩)⟩
  | ok a =>
    obtain ⟨result, entries₂, more, hmore, hiff'⟩ := hf a entries₁
    refine ⟨result, entries₂, more ++ events, fun journal => ?_, ?_⟩
    · rw [run_bind_of_ok (hrun journal), hmore, List.append_assoc]
    · have hnone : ¬HasError (reported events) := fun herror => by simpa using hiff.mpr herror
      rw [reported_append, hasError_append, or_iff_left hnone]
      exact hiff'

theorem accounts_get {f : State → Work α} (hjournal : ∀ s, f s = f ⟨s.entries, []⟩)
    (hf : ∀ s, Accounts (f s)) : Accounts (get >>= f) := by
  intro entries
  obtain ⟨result, entries', events, hrun, hiff⟩ := hf ⟨entries, []⟩ entries
  refine ⟨result, entries', events, fun journal => ?_, hiff⟩
  rw [← hrun journal, ← hjournal ⟨entries, journal⟩]
  rfl

theorem accounts_forIn_note {c : Journal.Context} {level : Journal.Level} {message : Bytes}
    (attributes : α → List Journal.Attribute) (xs : List α) :
    Accounts (forIn xs PUnit.unit fun x _ => do
      note (c.note level message (attributes x))
      pure (ForInStep.yield PUnit.unit) : Work PUnit) := by
  induction xs with
  | nil => exact accounts_pure _
  | cons x xs ih =>
    rw [List.forIn_cons]
    refine ((accounts_note c level message (attributes x)).bind fun _ => accounts_pure _).bind ?_
    rintro (_ | _)
    · exact accounts_pure _
    · exact ih

theorem hasError_reported (ds : List Diagnostic) :
    HasError (reported (ds.map Journal.Event.reported).reverse) ↔ HasError ds := by
  have hreported : ds.filterMap (Journal.Event.diagnostic? ∘ Journal.Event.reported) = ds :=
    List.filterMap_some
  rw [reported, List.filterMap_reverse, List.filterMap_map, hreported]
  simp [HasError]

theorem accounts_reportAll {ds : List Diagnostic} (h : ¬HasError ds) : Accounts (reportAll ds) :=
  accounts_of_ok fun entries => ⟨(), entries, _, fun _ => rfl, (hasError_reported ds).not.mpr h⟩

theorem accounts_reportAll_throw {ds : List Diagnostic} (h : HasError ds)
    (failure : Failure Cause) : Accounts (do reportAll ds; throw failure : Work α) :=
  accounts_of_error fun entries =>
    ⟨failure, entries, _, fun _ => rfl, (hasError_reported ds).mpr h⟩

theorem accounts_tryCatch {w : Work α} (handler : Failure Cause → Failure Cause)
    (hw : Accounts w) : Accounts (tryCatch w fun failure => throw (handler failure)) := by
  intro entries
  obtain ⟨result, entries', events, hrun, hiff⟩ := hw entries
  cases result with
  | error failure =>
    refine ⟨.error (handler failure), entries', events, fun journal => ?_, ?_⟩
    · rw [ExceptT.run_tryCatch, StateT.run_bind, hrun]
      rfl
    · exact iff_of_true ⟨_, rfl⟩ (hiff.mp ⟨failure, rfl⟩)
  | ok a =>
    refine ⟨.ok a, entries', events, fun journal => ?_, hiff⟩
    rw [ExceptT.run_tryCatch, StateT.run_bind, hrun]
    rfl

/-! ### Documents -/

variable {env : Environment} {c : Journal.Context} {l : Location}

theorem accounts_collect (e : Tape.Entry) : Accounts (collect c e) :=
  (accounts_modifyEntries fun entries => entries ++ [e]).bind fun _ => accounts_note c _ _ _

theorem accounts_autostartLine (given : Int) (symbol : Option Bytes) :
    Accounts (autostartLine l given symbol) := by
  unfold autostartLine
  split_ifs
  · exact accounts_pure given
  · split
    · exact accounts_pure _
    · split
      · exact accounts_pure _
      · exact accounts_fail l _

theorem accounts_addBasic (file : BasicFile) : Accounts (addBasic env c l file) := by
  rcases hcreate : Basic.Compiler.create env.dialect env.settings with ⟨compiler₀, unusable⟩
  rcases hset : compiler₀.setConstants (file.constants.merge env.constants) with ⟨compiler₁, repeated⟩
  unfold addBasic
  split
  · exact accounts_fail l _
  · rename_i source hread
    simp only [hcreate, hset]
    -- Compilers of other settings and constants only warn, so an error is one of the compilation.
    have herrors : HasError (unusable ++ repeated ++
        (compiler₁.parse env.dialect file.path source).2.diagnostics) ↔
        HasError (compiler₁.parse env.dialect file.path source).2.diagnostics := by
      have hunusable := Basic.warning_create env.dialect env.settings
      have hrepeated := Basic.warning_setConstants compiler₀ (file.constants.merge env.constants)
      rw [hcreate] at hunusable
      rw [hset] at hrepeated
      rw [hasError_append, hasError_append, or_assoc,
        or_iff_right (not_hasError_of_warnings hunusable),
        or_iff_right (not_hasError_of_warnings hrepeated)]
    have hfails := (Basic.parse_fails_iff compiler₁ env.dialect file.path source).trans herrors.symm
    obtain ⟨failure, hresult, herror⟩ | ⟨p, hresult, hnone⟩ := outcome_of_fails_iff hfails
    · rw [hresult]
      exact accounts_reportAll_throw herror _
    · rw [hresult]
      exact (accounts_reportAll hnone).bind fun _ => (accounts_forIn_note _ _).bind fun _ =>
        (accounts_autostartLine _ _).bind fun _ => (accounts_collect _).bind fun _ => accounts_pure _

theorem accounts_addCode (file : CodeFile) : Accounts (addCode env c l file) := by
  unfold addCode
  split
  · exact accounts_fail l _
  · exact (accounts_collect _).bind fun _ => accounts_pure _

theorem accounts_follow (d : Directive) : Accounts (follow env c l d) := by
  cases d with
  | basic path name => exact (accounts_addBasic _).bind fun _ => accounts_pure _
  | code path address name => exact (accounts_addCode _).bind fun _ => accounts_pure _

theorem accounts_followLine (path : Bytes) (number : Nat) (line : Bytes) :
    Accounts (followLine env c path number line) := by
  unfold followLine
  split
  · exact accounts_pure _
  · exact accounts_fail _ _
  · refine (accounts_follow _).bind fun _ => ?_
    split
    · exact accounts_pure _
    · exact accounts_fail _ _

theorem accounts_followLines (path : Bytes) (number : Nat) (lines : List Bytes) :
    Accounts (followLines env c path number lines) := by
  induction lines generalizing number with
  | nil => exact accounts_pure _
  | cons line lines ih => exact (accounts_followLine path number line).bind fun _ => ih (number + 1)

theorem accounts_build : Accounts (build c) := by
  refine accounts_get (fun _ => rfl) fun s => ?_
  dsimp only
  split_ifs
  · exact accounts_fail _ _
  · obtain ⟨failure, hresult, herror⟩ | ⟨bytes, hresult, hnone⟩ :=
      outcome_of_fails_iff (Tape.build_fails_iff s.entries)
    · rw [hresult]
      exact accounts_reportAll_throw herror _
    · rw [hresult]
      exact (accounts_reportAll hnone).bind fun _ => (accounts_note c _ _ _).bind fun _ =>
        accounts_pure _

/-- In a document all work starts without files, so what was collected before does not count. -/
theorem inDocument_accounts (path : Bytes) {work : Journal.Context → Work Bytes}
    (hwork : ∀ inner, Accounts (work inner)) :
    ∃ result entries events,
      (∀ s, (inDocument c path work).run.run s = (result, ⟨entries, events ++ s.journal⟩)) ∧
      ((∃ failure, result = .error failure) ↔ HasError (reported events)) := by
  obtain ⟨result, entries, events, hrun, hiff⟩ :=
    accounts_tryCatch (fun failure => (c.enter path).1.wrap .inDocument failure)
      (hwork (c.enter path).1) []
  refine ⟨result, entries, events ++ [(c.enter path).2], fun s => ?_, ?_⟩
  · rw [List.append_assoc]
    exact hrun _
  · rw [reported_append, hasError_append]
    exact hiff.trans (or_iff_left not_hasError_nil).symm

/-- **Working on a document fails exactly if an error is reported.** What it returns, what it notes and
what is collected in the end are the same, whatever was collected and noted before. -/
theorem processText_accounts (env : Environment) (c : Journal.Context) (path source : Bytes) :
    ∃ result entries events,
      (∀ s, (processText env c path source).run.run s =
        (result, ⟨entries, events ++ s.journal⟩)) ∧
      ((∃ failure, result = .error failure) ↔ HasError (reported events)) :=
  inDocument_accounts path fun _ =>
    (accounts_followLines path 1 source.lines).bind fun _ => accounts_build

end Document

end SpectrumTape
