import SpectrumTape.Proofs.Document.Archive
import SpectrumTape.Proofs.Document.Autostart

/-!
# Documents that stop at a line

What a directive adds is determined by the environment alone (`Environment.file?`), so lines can be
told apart by whether they are got past (`Environment.passes`). Up to the first line that is not, a
document collects the files of its directives (`run_followLines_append`). A directive that fails adds
nothing, because a file is added last (`adds_follow`). But the text behind a directive is looked at
after the directive has taken effect, so if that text is what a document stops at, the file of the
line is collected as well (`processText_stops`).
-/

namespace SpectrumTape.Document

/-! ### What directives and lines add -/

/-- The line that a program starts at for a value of the symbol `autostart`. -/
def startLine? : Option Bytes → Option Int
  | none => some Tape.noAutostart
  | some value => (Reading.readBinary Binary.format64 value).toOption.map wholePart

/-- The file that a directive adds, unless it fails. -/
def Environment.file? (env : Environment) : Directive → Option Tape.Entry
  | .basic path name =>
    (readSource env.files path).toOption.bind fun source =>
      let (compiler, compiled) := (env.compiler []).parse env.dialect path source
      compiled.result.toOption.bind fun program =>
        (startLine? (compiler.valueOf? "autostart")).map (programEntry { path, name } program)
  | .code path address name =>
    (readSource env.files path).toOption.map fun content =>
      { Tape.Entry.ofCode (entryName name path) content address with source := path }

/-- Where text stands behind the directive of a line that should not be there. -/
def DocLine.trailing? : DocLine → Option Nat
  | .directive _ _ trailing => trailing
  | _ => none

namespace Environment

variable (env : Environment) (line : Bytes)

/-- The file that the directive of a line adds, whatever stands behind it. -/
def added? : Option Tape.Entry := (DocLine.parse line).directive?.bind env.file?

def passes : Bool :=
  match DocLine.parse line with
  | .blank => true
  | .fault _ _ => false
  | .directive _ d trailing => (env.file? d).isSome && trailing.isNone

end Environment

/-! ### Following lines -/

section

variable {α : Type} {env : Environment} {c : Journal.Context} {l : Location} {path : Bytes} {s : State}

theorem autostartLine_zero (symbol : Option Bytes) :
    autostartLine l 0 symbol =
      match startLine? symbol with
      | some n => pure n
      | none => fail l (.invalidAutostart (symbol.getD [])) := by
  unfold autostartLine
  rw [if_neg (by simp)]
  cases symbol with
  | none => rfl
  | some value =>
    simp only [startLine?]
    cases Reading.readBinary Binary.format64 value <;> rfl

/-- Work that fails and adds nothing if there is no file, and otherwise adds the file. -/
def Adds (w : Work α) (file : Option Tape.Entry) : Prop :=
  ∀ s, ∃ result s', w.run.run s = (result, s') ∧ result.toOption.isSome = file.isSome ∧
    s'.entries = s.entries ++ file.toList

theorem adds_fail (l : Location) (cause : Cause) : Adds (fail l cause : Work α) none :=
  fun _ => ⟨_, _, rfl, rfl, (List.append_nil _).symm⟩

theorem adds_collect (e : Tape.Entry) : Adds (do collect c e; return e) (some e) :=
  fun _ => ⟨_, _, rfl, rfl, rfl⟩

theorem Adds.discard {w : Work α} {file : Option Tape.Entry} (h : Adds w file) :
    Adds (discard w) file := by
  intro s
  obtain ⟨result, s', hrun, hresult, hentries⟩ := h s
  refine ⟨result.map fun _ => (), s', ?_, ?_, hentries⟩
  · change (w >>= fun _ => pure ()).run.run s = _
    rw [ExceptT.run_bind, StateT.run_bind, hrun]
    cases result <;> rfl
  · rw [← hresult]
    cases result <;> rfl

theorem file?_basic {path name source : Bytes} (hread : readSource env.files path = .ok source) :
    env.file? (.basic path name) =
      ((env.compiler []).parse env.dialect path source).2.result.toOption.bind fun program =>
        (startLine? (((env.compiler []).parse env.dialect path source).1.valueOf? "autostart")).map
          (programEntry { path, name } program) := by
  rw [Environment.file?, hread]
  rfl

theorem adds_addBasic (path name : Bytes) :
    Adds (addBasic env c l { path, name }) (env.file? (.basic path name)) := by
  cases hread : readSource env.files path with
  | error problem =>
    have hfile : env.file? (.basic path name) = none := by
      rw [Environment.file?, hread]
      rfl
    rw [hfile]
    unfold addBasic
    simp only [hread]
    exact adds_fail l _
  | ok source =>
    have hfile : readSource env.files (BasicFile.mk path name [] 0).path = .ok source := hread
    intro s
    obtain ⟨s₁, hentries, hrun⟩ := run_addBasic (s := s) (c := c) (l := l) hfile
    rw [hrun, file?_basic hread, ← hentries]
    dsimp only
    rw [autostartLine_zero]
    cases ((env.compiler []).parse env.dialect path source).2.result with
    | error failure => exact ⟨_, s₁, rfl, rfl, (List.append_nil _).symm⟩
    | ok p =>
      cases startLine? _ with
      | none => exact adds_fail l _ s₁
      | some n => exact adds_collect _ s₁

theorem adds_addCode (path : Bytes) (address : Nat) (name : Bytes) :
    Adds (addCode env c l { path, name, address }) (env.file? (.code path address name)) := by
  unfold addCode
  simp only [Environment.file?]
  cases readSource env.files path with
  | error problem => exact adds_fail l _
  | ok content => exact adds_collect _

theorem adds_follow (env : Environment) (c : Journal.Context) (l : Location) (d : Directive) :
    Adds (follow env c l d) (env.file? d) := by
  cases d with
  | basic path name => exact (adds_addBasic path name).discard
  | code path address name => exact (adds_addCode path address name).discard

/-- The directive of a line takes effect also if the line is at fault behind it. -/
theorem run_followLine (env : Environment) (c : Journal.Context) (path : Bytes) (number : Nat)
    (line : Bytes) (s : State) :
    ∃ result s', (followLine env c path number line).run.run s = (result, s') ∧
      result.toOption.isSome = env.passes line ∧
      s'.entries = s.entries ++ (env.added? line).toList := by
  unfold followLine Environment.passes Environment.added?
  cases DocLine.parse line with
  | blank => exact ⟨_, s, rfl, rfl, (List.append_nil _).symm⟩
  | fault column cause => exact ⟨_, _, rfl, rfl, (List.append_nil _).symm⟩
  | directive column d trailing =>
    obtain ⟨result, s', hrun, hresult, hentries⟩ := adds_follow env c ⟨path, number, column⟩ d s
    simp only [DocLine.directive?, Option.bind_some]
    rw [ExceptT.run_bind, StateT.run_bind, hrun, ← hentries, ← hresult]
    cases result with
    | error failure => exact ⟨_, s', rfl, rfl, rfl⟩
    | ok u =>
      cases trailing with
      | none => exact ⟨_, s', rfl, rfl, rfl⟩
      | some column => exact ⟨_, _, rfl, rfl, rfl⟩

theorem Environment.added?_eq_none {line : Bytes} (hline : ¬env.passes line)
    (hnone : (DocLine.parse line).trailing? = none) : env.added? line = none := by
  unfold Environment.passes at hline
  unfold Environment.added?
  cases hparse : DocLine.parse line with
  | blank => rfl
  | fault column cause => rfl
  | directive column d trailing =>
    rw [hparse] at hline hnone
    obtain rfl : trailing = none := hnone
    have hfile : ¬(env.file? d).isSome := fun hsome => hline (Bool.and_eq_true_iff.mpr ⟨hsome, rfl⟩)
    exact Option.not_isSome_iff_eq_none.mp hfile

theorem run_followLines_of_passes (c : Journal.Context) (path : Bytes) {line : Bytes}
    (hline : env.passes line) (number : Nat) (rest : List Bytes) (s : State) :
    ∃ s', s'.entries = s.entries ++ (env.added? line).toList ∧
      (followLines env c path number (line :: rest)).run.run s =
        (followLines env c path (number + 1) rest).run.run s' := by
  obtain ⟨result, s', hrun, hresult, hentries⟩ := run_followLine env c path number line s
  cases result with
  | error failure => exact absurd (hresult.trans hline) Bool.false_ne_true
  | ok u => exact ⟨s', hentries, run_bind_of_ok hrun⟩

theorem run_followLines_of_not_passes (c : Journal.Context) (path : Bytes) {line : Bytes}
    (hline : ¬env.passes line) (number : Nat) (rest : List Bytes) (s : State) :
    ∃ failure s', s'.entries = s.entries ++ (env.added? line).toList ∧
      (followLines env c path number (line :: rest)).run.run s = (.error failure, s') := by
  obtain ⟨result, s', hrun, hresult, hentries⟩ := run_followLine env c path number line s
  cases result with
  | error failure => exact ⟨failure, s', hentries, run_bind_of_error hrun⟩
  | ok u => exact absurd hresult.symm hline

theorem run_followLines_append (c : Journal.Context) (path : Bytes) {before : List Bytes}
    (hbefore : ∀ line ∈ before, env.passes line) (number : Nat) (rest : List Bytes) (s : State) :
    ∃ s', s'.entries = s.entries ++ before.filterMap env.added? ∧
      (followLines env c path number (before ++ rest)).run.run s =
        (followLines env c path (number + before.length) rest).run.run s' := by
  induction before generalizing number s with
  | nil => exact ⟨s, (List.append_nil _).symm, rfl⟩
  | cons line before ih =>
    obtain ⟨hline, hbefore⟩ := List.forall_mem_cons.mp hbefore
    obtain ⟨s₁, hadded, hfirst⟩ :=
      run_followLines_of_passes c path hline number (before ++ rest) s
    obtain ⟨s', hentries, hrest⟩ := ih hbefore (number + 1) s₁
    refine ⟨s', ?_, ?_⟩
    · rw [hentries, hadded, List.append_assoc, List.filterMap_cons]
      cases env.added? line <;> rfl
    · rw [List.cons_append, hfirst, hrest, List.length_cons, Nat.add_right_comm, Nat.add_assoc]

theorem run_build (c : Journal.Context) (s : State) :
    ∃ result s', (build c).run.run s = (result, s') ∧ s'.entries = s.entries ∧
      ∀ archive, result = .ok archive ↔
        s.entries ≠ [] ∧ (Tape.build s.entries).result = .ok archive := by
  have hget : (get : Work State).run.run s = (.ok s, s) := rfl
  unfold build
  rw [run_bind_of_ok hget]
  dsimp only
  split_ifs with hempty
  · exact ⟨_, _, rfl, rfl, fun archive =>
      iff_of_false (by simp) fun h => h.1 (List.isEmpty_iff.mp hempty)⟩
  · have hsome : s.entries ≠ [] := fun h => hempty (List.isEmpty_iff.mpr h)
    cases (Tape.build s.entries).result with
    | error failure => exact ⟨_, _, rfl, rfl, fun archive => by simp⟩
    | ok bytes => exact ⟨_, _, rfl, rfl, fun archive => by simp [hsome]⟩

/-- A document starts without files, and keeps those that its work leaves behind. -/
theorem run_inDocument {work : Journal.Context → Work Bytes} {s s' : State}
    {result : Except (Failure Cause) Bytes}
    (h : (work (c.enter path).1).run.run ⟨[], (c.enter path).2 :: s.journal⟩ = (result, s')) :
    (inDocument c path work).run.run s =
      (result.mapError ((c.enter path).1.wrap .inDocument), s') := by
  change (tryCatch (work (c.enter path).1) _ : Work Bytes).run.run
    ⟨[], (c.enter path).2 :: s.journal⟩ = _
  rw [ExceptT.run_tryCatch, StateT.run_bind, h]
  cases result with
  | error failure => rfl
  | ok b => rfl

/-- **A document that stops at a line has collected the files of the lines before it**, and the
directive that it stops at has added nothing, unless it took effect and there is text behind it that
should not be there. Then its file is collected as well. A document that gets past all its lines has
collected their files, and these decide whether there is an archive. -/
theorem processText_stops (env : Environment) (c : Journal.Context) (path source : Bytes)
    (s : State) :
    let outcome := (processText env c path source).run.run s
    ((∀ line ∈ source.lines, env.passes line) →
      outcome.2.entries = source.lines.filterMap env.added? ∧
      ∀ archive, outcome.1 = .ok archive ↔
        outcome.2.entries ≠ [] ∧ (Tape.build outcome.2.entries).result = .ok archive) ∧
    ∀ before line later, source.lines = before ++ line :: later →
      (∀ l ∈ before, env.passes l) → ¬env.passes line →
      (∃ failure, outcome.1 = .error failure) ∧
      ((DocLine.parse line).trailing? = none →
        outcome.2.entries = before.filterMap env.added?) ∧
      ((DocLine.parse line).trailing?.isSome →
        outcome.2.entries = before.filterMap env.added? ++ (env.added? line).toList) := by
  intro outcome
  let inner := (c.enter path).1
  let start : State := ⟨[], (c.enter path).2 :: s.journal⟩
  refine ⟨fun hpass => ?_, fun before line later hsource hbefore hline => ?_⟩
  · obtain ⟨s₁, hentries, hrun⟩ := run_followLines_append inner path hpass 1 [] start
    rw [List.append_nil] at hrun
    obtain ⟨result, s', hbuild, hkept, hresult⟩ := run_build inner s₁
    have houtcome : outcome = _ := run_inDocument ((run_bind_of_ok hrun).trans hbuild)
    rw [houtcome, hkept, hentries]
    refine ⟨List.nil_append _, fun archive => ?_⟩
    rw [mapError_eq_ok_iff, hresult, hentries]
  · obtain ⟨s₁, hentries, hrun⟩ :=
      run_followLines_append inner path hbefore 1 (line :: later) start
    obtain ⟨failure, s', hadded, hstop⟩ :=
      run_followLines_of_not_passes inner path hline (1 + before.length) later s₁
    rw [← hsource, hstop] at hrun
    have houtcome : outcome = _ := run_inDocument (run_bind_of_error hrun)
    rw [houtcome, hadded, hentries, List.nil_append]
    refine ⟨⟨_, rfl⟩, fun hnone => ?_, fun _ => rfl⟩
    rw [Environment.added?_eq_none hline hnone]
    exact List.append_nil _

end

/-! ### Documents at fault in their last line -/

/-- Lines with a program, a comment and a block of memory that is not there. -/
def unreadableLines : List Bytes :=
  ["basic \"src/a.bas\" Game", "# the data", "code \"c.bin\" 0x8000"]

def unreadableDocument : Bytes := Bytes.join "\n" unreadableLines

theorem processText_stops_unreadableDocument :
    let outcome := (processText smallEnvironment {} [] unreadableDocument).run.run {}
    (∃ failure, outcome.1 = .error failure) ∧
      outcome.2.entries.map (fun e => (e.type, e.name)) = [(.program, utf8 "Game")] := by
  intro outcome
  have hsource : unreadableDocument.lines =
      unreadableLines.take 2 ++ [utf8 "code \"c.bin\" 0x8000"] := by decide +kernel
  have hprogram : DocLine.parse (utf8 "basic \"src/a.bas\" Game") =
      .directive 1 (.basic "src/a.bas" "Game") none := by decide +kernel
  obtain ⟨hbefore, hadded⟩ :
      (∀ line ∈ unreadableLines.take 2, smallEnvironment.passes line) ∧
        ((unreadableLines.take 2).filterMap smallEnvironment.added?).map (fun e => (e.type, e.name)) =
          [(.program, utf8 "Game")] := by
    simp only [unreadableLines, List.take_succ_cons, List.take_zero, List.forall_mem_cons,
      List.filterMap_cons, Environment.passes, Environment.added?, hprogram, DocLine.directive?,
      Option.bind_some, Environment.file?, Basic.Compiler.parse, Basic.compile, Vocabulary.ofDialect_eq]
    decide +kernel
  have hline : ¬smallEnvironment.passes "code \"c.bin\" 0x8000" := by decide +kernel
  obtain ⟨-, hstops⟩ := processText_stops smallEnvironment {} [] unreadableDocument {}
  obtain ⟨hfails, hentries, -⟩ := hstops _ _ _ hsource hbefore hline
  refine ⟨hfails, ?_⟩
  rw [hentries (by decide +kernel)]
  exact hadded

/-- A line that adds a block of memory before it fails. -/
def trailingLine : Bytes := "code \"b.bin\" 0x8000 data more"

/-- No line is before that line, but its file is collected. -/
theorem processText_stops_trailingLine :
    let outcome := (processText smallEnvironment {} [] trailingLine).run.run {}
    trailingLine.lines = [trailingLine] ∧ (∃ failure, outcome.1 = .error failure) ∧
      outcome.2.entries.map (fun e => (e.type, e.name)) = [(.memory, utf8 "data")] := by
  intro outcome
  have hlines : trailingLine.lines = [trailingLine] := by decide +kernel
  have hnone : outcome.1.toOption = none := by decide +kernel
  refine ⟨hlines, ?_, by decide +kernel⟩
  cases hresult : outcome.1 with
  | error failure => exact ⟨failure, rfl⟩
  | ok archive =>
    rw [hresult] at hnone
    cases hnone

end SpectrumTape.Document
