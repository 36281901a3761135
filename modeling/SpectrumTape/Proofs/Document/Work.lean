import SpectrumTape.Document.Text
import SpectrumTape.Proofs.Basic.Frame
import Mathlib.Data.List.Forall2
import Mathlib.Tactic.Common

/-!
# The files that a document collects

Work that succeeds is put together from parts that succeed (`run_bind_eq_ok_iff`). Notes and reports
leave the collected files alone (`Keeps`), and each directive adds one file, which is what the
directive gives in its environment (`Gives`, `follow_collects`). So a document that was followed to
its end has collected one file for each of its directives, in their order (`followLines_collects`),
and these are the files of its archive (`processText_eq_ok`).
-/

namespace SpectrumTape.Document

variable {α β : Type} {s s' : State}

/-! ### Work that succeeds -/

theorem run_bind_eq_ok_iff {w : Work α} {f : α → Work β} {b : β} :
    (w >>= f).run.run s = (.ok b, s') ↔
      ∃ a s₁, w.run.run s = (.ok a, s₁) ∧ (f a).run.run s₁ = (.ok b, s') := by
  rw [ExceptT.run_bind, StateT.run_bind]
  rcases w.run.run s with ⟨e | a, s₁⟩
  · constructor
    · intro h
      cases h
    · rintro ⟨a, s₂, h, -⟩
      cases h
  · constructor
    · exact fun h => ⟨a, s₁, rfl, h⟩
    · rintro ⟨a', s₂, h, hf⟩
      cases h
      exact hf

theorem run_bind_of_ok {w : Work α} {f : α → Work β} {a : α} {s₁ : State}
    (h : w.run.run s = (.ok a, s₁)) : (w >>= f).run.run s = (f a).run.run s₁ := by
  rw [ExceptT.run_bind, StateT.run_bind, h]
  rfl

theorem run_bind_of_error {w : Work α} {f : α → Work β} {failure : Failure Cause} {s₁ : State}
    (h : w.run.run s = (.error failure, s₁)) : (w >>= f).run.run s = (.error failure, s₁) := by
  rw [ExceptT.run_bind, StateT.run_bind, h]
  rfl

theorem fail_ne_ok {l : Location} {cause : Cause} {a : α} :
    (fail l cause : Work α).run.run s ≠ (.ok a, s') := by
  intro h
  cases h

theorem run_of_tryCatch_throw {w : Work α} {handler : Failure Cause → Failure Cause} {a : α}
    (h : (tryCatch w fun failure => throw (handler failure)).run.run s = (.ok a, s')) :
    w.run.run s = (.ok a, s') := by
  rw [ExceptT.run_tryCatch, StateT.run_bind] at h
  rcases hw : w.run.run s with ⟨e | b, s₁⟩
  · rw [hw] at h
    cases h
  · rw [hw] at h
    exact h

theorem inDocument_eq_ok {c : Journal.Context} {path : Bytes} {work : Journal.Context → Work Bytes}
    {b : Bytes} (h : (inDocument c path work).run.run s = (.ok b, s')) :
    ∃ inner s₁, s₁.entries = [] ∧ (work inner).run.run s₁ = (.ok b, s') := by
  unfold inDocument at h
  obtain ⟨_, s₁, hnote, h⟩ := run_bind_eq_ok_iff.mp h
  obtain ⟨_, s₂, hreset, h⟩ := run_bind_eq_ok_iff.mp h
  cases hreset
  -- The handler only throws, so what was returned was returned by the work itself.
  exact ⟨_, _, rfl, run_of_tryCatch_throw h⟩

/-- Work that leaves the collected files alone. -/
def Keeps (w : Work α) : Prop :=
  ∀ s a s', w.run.run s = (.ok a, s') → s'.entries = s.entries

theorem keeps_pure (a : α) : Keeps (pure a) := by
  intro s b s' h
  cases h
  rfl

theorem keeps_note (e : Journal.Event) : Keeps (note e) := by
  intro s a s' h
  cases h
  rfl

theorem keeps_reportAll (ds : List Diagnostic) : Keeps (reportAll ds) := by
  intro s a s' h
  cases h
  rfl

theorem exists_forIn_note (xs : List α) (event : α → Journal.Event) (s : State) :
    ∃ s', (forIn xs PUnit.unit fun x _ => do
        note (event x)
        pure (ForInStep.yield PUnit.unit) : Work PUnit).run.run s = (.ok PUnit.unit, s') ∧
      s'.entries = s.entries := by
  induction xs generalizing s with
  | nil => exact ⟨s, rfl, rfl⟩
  | cons x xs ih =>
    rw [List.forIn_cons]
    obtain ⟨s', hrun, hentries⟩ := ih { s with journal := event x :: s.journal }
    exact ⟨s', hrun, hentries⟩

theorem keeps_autostartLine (l : Location) (given : Int) (symbol : Option Bytes) :
    Keeps (autostartLine l given symbol) := by
  unfold autostartLine
  split_ifs
  · exact keeps_pure given
  · split
    · exact keeps_pure _
    · split
      · exact keeps_pure _
      · intro s a s' h
        exact absurd h fail_ne_ok

/-! ### What directives give -/

section Following

variable {env : Environment} {c : Journal.Context} {l : Location}

/-- The compiler of the programs of a document, each of which may bring constants of its own. -/
def Environment.compiler (env : Environment) (own : Basic.Constants) : Basic.Compiler :=
  ((Basic.Compiler.create env.dialect env.settings).1.setConstants (own.merge env.constants)).1

/-- A file that a directive gives: the program that the named source compiles to, or the named
content. -/
inductive Gives (env : Environment) : Directive → Tape.Entry → Prop where
  | basic {path name source : Bytes} {p : Basic.Program} {autostart : Int}
      (hread : readSource env.files path = .ok source)
      (hcompile : ((env.compiler []).parse env.dialect path source).2.result = .ok p) :
      Gives env (.basic path name)
        { Tape.Entry.ofProgram (entryName name path) (Basic.Program.bytes p) autostart with
          source := path }
  | code {path name content : Bytes} {address : Nat}
      (hread : readSource env.files path = .ok content) :
      Gives env (.code path address name)
        { Tape.Entry.ofCode (entryName name path) content address with source := path }

theorem collect_entries {e : Tape.Entry} {u : Unit}
    (h : (collect c e).run.run s = (.ok u, s')) : s'.entries = s.entries ++ [e] := by
  cases h
  rfl

/-- The program on tape, with the line it starts at. -/
def programEntry (file : BasicFile) (p : Basic.Program) (autostart : Int) : Tape.Entry :=
  { Tape.Entry.ofProgram (entryName file.name file.path) (Basic.Program.bytes p) autostart with
    source := file.path }

/-- What is left to do when a program was read and compiled: to find the line it starts at, and to add
it. A program that has no compiled form is not added. -/
theorem run_addBasic {file : BasicFile} {source : Bytes}
    (hread : readSource env.files file.path = .ok source) :
    ∃ s₁, s₁.entries = s.entries ∧ (addBasic env c l file).run.run s =
      match ((env.compiler file.constants).parse env.dialect file.path source).2.result with
      | .error failure => (.error (failure.map .basic), s₁)
      | .ok p => (do
          let autostart ← autostartLine l file.autostart
            (((env.compiler file.constants).parse env.dialect file.path source).1.valueOf? "autostart")
          collect c (programEntry file p autostart)
          return programEntry file p autostart : Work Tape.Entry).run.run s₁ := by
  rcases hcreate : Basic.Compiler.create env.dialect env.settings with ⟨compiler₀, unusable⟩
  rcases hset : compiler₀.setConstants (file.constants.merge env.constants) with ⟨compiler₁, repeated⟩
  have hcompiler : env.compiler file.constants = compiler₁ := by
    simp only [Environment.compiler, hcreate, hset]
  rw [hcompiler]
  rcases hparse : compiler₁.parse env.dialect file.path source with ⟨compiler, compiled⟩
  let reported : State := { s with journal := ((unusable ++ repeated ++ compiled.diagnostics).map
    Journal.Event.reported).reverse ++ s.journal }
  have hreport : (reportAll (unusable ++ repeated ++ compiled.diagnostics)).run.run s =
      (.ok (), reported) := rfl
  unfold addBasic
  simp only [hread, hcreate, hset, hparse]
  rw [run_bind_of_ok hreport]
  cases hresult : compiled.result with
  | error failure => exact ⟨reported, rfl, rfl⟩
  | ok p =>
    have hparsed : (compiler₁.parse env.dialect file.path source).2.result = .ok p := by
      rw [hparse, hresult]
    have hprogram := Basic.Compiler.program_parse hparsed
    rw [hparse] at hprogram
    obtain ⟨s₁, hnotes, hentries⟩ := exists_forIn_note compiler.symbols.toList
      (fun v => c.note .debug "symbol" [.text "name" v.name, .text "value" (v.value.getD [])]) reported
    refine ⟨s₁, hentries, ?_⟩
    dsimp only
    rw [run_bind_of_ok hnotes, hprogram]
    rfl

theorem addBasic_collects {file : BasicFile} {e : Tape.Entry}
    (h : (addBasic env c l file).run.run s = (.ok e, s')) :
    s'.entries = s.entries ++ [e] ∧ ∃ source p autostart,
      readSource env.files file.path = .ok source ∧
      ((env.compiler file.constants).parse env.dialect file.path source).2.result = .ok p ∧
      e = programEntry file p autostart := by
  cases hread : readSource env.files file.path with
  | error problem =>
    unfold addBasic at h
    rw [hread] at h
    exact absurd h fail_ne_ok
  | ok source =>
    obtain ⟨s₁, hentries, hrun⟩ := run_addBasic (s := s) (c := c) (l := l) hread
    rw [hrun] at h
    cases hresult : ((env.compiler file.constants).parse env.dialect file.path source).2.result with
    | error failure =>
      rw [hresult] at h
      cases h
    | ok p =>
      rw [hresult] at h
      obtain ⟨autostart, s₂, hautostart, h⟩ := run_bind_eq_ok_iff.mp h
      obtain ⟨_, s₃, hcollect, h⟩ := run_bind_eq_ok_iff.mp h
      cases h
      rw [collect_entries hcollect, keeps_autostartLine _ _ _ _ _ _ hautostart, hentries]
      exact ⟨rfl, source, p, autostart, rfl, hresult, rfl⟩

theorem addCode_collects {file : CodeFile} {e : Tape.Entry}
    (h : (addCode env c l file).run.run s = (.ok e, s')) :
    s'.entries = s.entries ++ [e] ∧ ∃ content, readSource env.files file.path = .ok content ∧
      e = { Tape.Entry.ofCode (entryName file.name file.path) content file.address with
            source := file.path } := by
  unfold addCode at h
  cases hread : readSource env.files file.path with
  | error problem =>
    rw [hread] at h
    exact absurd h fail_ne_ok
  | ok content =>
    rw [hread] at h
    obtain ⟨_, s₁, hcollect, h⟩ := run_bind_eq_ok_iff.mp h
    cases h
    exact ⟨collect_entries hcollect, content, rfl, rfl⟩

theorem follow_collects {d : Directive} {u : Unit}
    (h : (follow env c l d).run.run s = (.ok u, s')) :
    ∃ e, s'.entries = s.entries ++ [e] ∧ Gives env d e := by
  cases d with
  | basic path name =>
    obtain ⟨e, s₁, hadd, hpure⟩ := run_bind_eq_ok_iff.mp h
    cases hpure
    obtain ⟨hentries, source, p, autostart, hread, hcompile, rfl⟩ := addBasic_collects hadd
    exact ⟨_, hentries, .basic hread hcompile⟩
  | code path address name =>
    obtain ⟨e, s₁, hadd, hpure⟩ := run_bind_eq_ok_iff.mp h
    cases hpure
    obtain ⟨hentries, content, hread, rfl⟩ := addCode_collects hadd
    exact ⟨_, hentries, .code hread⟩

/-! ### Documents -/

/-- The directive of a line, whatever is wrong behind it. -/
def DocLine.directive? : DocLine → Option Directive
  | .directive _ d _ => some d
  | _ => none

/-- The directives of a document, in their order. -/
def directives (source : Bytes) : List Directive :=
  source.lines.filterMap fun line => (DocLine.parse line).directive?

theorem followLine_collects {path : Bytes} {number : Nat} {line : Bytes} {u : Unit}
    (h : (followLine env c path number line).run.run s = (.ok u, s')) :
    ∃ new, s'.entries = s.entries ++ new ∧
      List.Forall₂ (Gives env) (DocLine.parse line).directive?.toList new := by
  unfold followLine at h
  cases hline : DocLine.parse line with
  | blank =>
    rw [hline] at h
    cases h
    exact ⟨[], (List.append_nil _).symm, .nil⟩
  | fault column cause =>
    rw [hline] at h
    exact absurd h fail_ne_ok
  | directive column d trailing =>
    rw [hline] at h
    obtain ⟨_, s₁, hfollow, hbehind⟩ := run_bind_eq_ok_iff.mp h
    obtain ⟨e, hentries, hgives⟩ := follow_collects hfollow
    cases trailing with
    | some column => exact absurd hbehind fail_ne_ok
    | none =>
      cases hbehind
      exact ⟨[e], hentries, .cons hgives .nil⟩

theorem followLines_collects {path : Bytes} {number : Nat} {lines : List Bytes} {u : Unit}
    (h : (followLines env c path number lines).run.run s = (.ok u, s')) :
    ∃ new, s'.entries = s.entries ++ new ∧
      List.Forall₂ (Gives env) (lines.filterMap fun line => (DocLine.parse line).directive?) new := by
  induction lines generalizing number s with
  | nil =>
    cases h
    exact ⟨[], (List.append_nil _).symm, .nil⟩
  | cons line lines ih =>
    obtain ⟨_, s₁, hline, hlines⟩ := run_bind_eq_ok_iff.mp h
    obtain ⟨first, hfirst, hgives⟩ := followLine_collects hline
    obtain ⟨more, hmore, hrest⟩ := ih hlines
    refine ⟨first ++ more, by rw [hmore, hfirst, List.append_assoc], ?_⟩
    have hsplit : (line :: lines).filterMap (fun line => (DocLine.parse line).directive?) =
        (DocLine.parse line).directive?.toList ++
          lines.filterMap fun line => (DocLine.parse line).directive? := by
      rw [List.filterMap_cons]
      cases (DocLine.parse line).directive? <;> rfl
    rw [hsplit]
    exact List.rel_append hgives hrest

theorem build_eq_ok {archive : Bytes} (h : (build c).run.run s = (.ok archive, s')) :
    s'.entries = s.entries ∧ (Tape.build s.entries).result = .ok archive := by
  unfold build at h
  obtain ⟨_, s₁, hget, h⟩ := run_bind_eq_ok_iff.mp h
  cases hget
  dsimp only at h
  split_ifs at h
  · exact absurd h fail_ne_ok
  · obtain ⟨_, s₂, hreport, h⟩ := run_bind_eq_ok_iff.mp h
    have hreported := keeps_reportAll _ _ _ _ hreport
    cases hresult : (Tape.build s.entries).result with
    | error failure =>
      rw [hresult] at h
      cases h
    | ok bytes =>
      rw [hresult] at h
      obtain ⟨_, s₃, hnote, h⟩ := run_bind_eq_ok_iff.mp h
      cases h
      exact ⟨(keeps_note _ _ _ _ hnote).trans hreported, rfl⟩

/-- **A document gives the archive of the files of its directives.** -/
theorem processText_eq_ok {path source archive : Bytes}
    (h : (processText env c path source).run.run s = (.ok archive, s')) :
    List.Forall₂ (Gives env) (directives source) s'.entries ∧
      (Tape.build s'.entries).result = .ok archive := by
  obtain ⟨inner, s₁, hempty, hwork⟩ := inDocument_eq_ok h
  obtain ⟨_, s₂, hlines, hbuild⟩ := run_bind_eq_ok_iff.mp hwork
  obtain ⟨new, hnew, hgives⟩ := followLines_collects hlines
  obtain ⟨hkept, hbuilt⟩ := build_eq_ok hbuild
  rw [hempty, List.nil_append] at hnew
  rw [hkept, hnew]
  exact ⟨hgives, hnew ▸ hbuilt⟩

end Following

end SpectrumTape.Document
