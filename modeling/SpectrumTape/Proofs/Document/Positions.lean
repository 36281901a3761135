import SpectrumTape.Proofs.Basic.Positions
import SpectrumTape.Proofs.Cursor.Operations
import SpectrumTape.Proofs.Document.Accounts

/-!
# Places in a document

What is read of a line of a document never leaves the line (`DocLine.columns_parse`). So work on a
document reports only what is about a place of the document, about one of a program that it names, or
about a file as a whole, and it fails only with that (`processText_locates`). Together with what every
state of a cursor keeps this makes all places real (`reached_positions`).
-/

namespace SpectrumTape.Document

/-! ### Columns of a line -/

/-- A column of a line: that many bytes of it, less one, come before. -/
def IsColumn (line : Bytes) (column : Nat) : Prop := ∃ u x, line = u ++ x ∧ column = 1 + u.length

/-- The rest of a line stands behind as much of the line as its column says. -/
def Rest.Behind (line : Bytes) (r : Rest) : Prop := ∃ u, line = u ++ r.text ∧ r.column = 1 + u.length

/-- A reading leaves a rest of the line, or fails at a column of it. -/
def Leaves {α : Type} (line : Bytes) : Except Rest.Fault (α × Rest) → Prop
  | .ok (_, r) => r.Behind line
  | .error f => IsColumn line f.column

section columns

variable {α β : Type} {line : Bytes} {r : Rest}

theorem Leaves.bind {w : Except Rest.Fault (α × Rest)} {f : α × Rest → Except Rest.Fault (β × Rest)}
    (hw : Leaves line w) (hf : ∀ a r, r.Behind line → Leaves line (f (a, r))) :
    Leaves line (w >>= f) := by
  cases w with
  | ok p => exact hf p.1 p.2 hw
  | error fault => exact hw

namespace Rest

theorem Behind.isColumn (h : r.Behind line) : IsColumn line r.column := by
  obtain ⟨u, hline, hcolumn⟩ := h
  exact ⟨u, r.text, hline, hcolumn⟩

theorem Behind.drop (h : r.Behind line) {n : Nat} (hn : n ≤ r.text.length) :
    (r.drop n).Behind line := by
  obtain ⟨u, hline, hcolumn⟩ := h
  refine ⟨u ++ r.text.take n, ?_, ?_⟩
  · rw [hline, Rest.drop, List.append_assoc, List.take_append_drop]
  · rw [Rest.drop, hcolumn, List.length_append, List.length_take, Nat.min_eq_left hn, Nat.add_assoc]

theorem Behind.takeWhile (h : r.Behind line) (p : UInt8 → Bool) : (r.takeWhile p).2.Behind line :=
  h.drop (List.takeWhile_sublist p).length_le

theorem Behind.skipBlanks (h : r.Behind line) : r.skipBlanks.Behind line := h.takeWhile _

theorem leaves_readString (h : r.Behind line) : Leaves line r.readString := by
  have hblanks := h.skipBlanks
  unfold readString
  dsimp only
  split
  · exact hblanks.isColumn
  · rename_i c rest htext
    have hinside := hblanks.drop (n := 1) (by simp [htext])
    have hafter := hinside.takeWhile (· != Ascii.quote)
    split_ifs with hquote hempty
    · exact hafter.isColumn
    · refine hafter.drop (List.length_pos_iff.mpr ?_)
      simpa using hempty
    · exact hinside.isColumn

theorem leaves_readName (h : r.Behind line) : Leaves line r.readName := by
  unfold readName
  dsimp only
  split_ifs
  · exact leaves_readString h.skipBlanks
  · exact h.skipBlanks.takeWhile _

theorem leaves_addressOf (h : r.Behind line) (base : Nat) (missing : Cause) (digits : Bytes) :
    Leaves line (addressOf base missing digits r) := by
  unfold addressOf
  split_ifs
  · exact h.isColumn
  · split
    · exact h
    · exact h.isColumn

theorem leaves_readAddress (h : r.Behind line) : Leaves line r.readAddress := by
  have hblanks := h.skipBlanks
  unfold readAddress
  dsimp only
  split_ifs with hmark
  · rw [Bool.and_eq_true] at hmark
    have htwo := Bytes.two_le_length_of_mark (by decide) (beq_iff_eq.mp hmark.2)
    exact leaves_addressOf ((hblanks.drop htwo).takeWhile _) 16 _ _
  · exact leaves_addressOf (hblanks.takeWhile _) 10 _ _

theorem leaves_readBasic (h : r.Behind line) : Leaves line r.readBasic :=
  (leaves_readString h).bind fun _ _ hpath => (leaves_readName hpath).bind fun _ _ hname => hname

theorem leaves_readCode (h : r.Behind line) : Leaves line r.readCode :=
  (leaves_readString h).bind fun _ _ hpath => (leaves_readAddress hpath).bind fun _ _ haddress =>
    (leaves_readName haddress).bind fun _ _ hname => hname

end Rest

namespace DocLine

/-- The columns that a line is read to have something at. -/
def columns : DocLine → List Nat
  | .blank => []
  | .directive column _ trailing => column :: trailing.toList
  | .fault column _ => [column]

theorem columns_finish {column : Nat} (hcolumn : IsColumn line column)
    {e : Except Rest.Fault (Directive × Rest)} (he : Leaves line e) :
    ∀ c ∈ (Rest.finish column e).columns, IsColumn line c := by
  cases e with
  | error f =>
    intro c hc
    obtain rfl := List.mem_singleton.mp hc
    exact he
  | ok p =>
    have hrest : p.2.skipBlanks.Behind line := Rest.Behind.skipBlanks he
    intro c hc
    rcases List.mem_cons.mp hc with rfl | hc
    · exact hcolumn
    · split_ifs at hc
      · cases hc
      · obtain rfl := List.mem_singleton.mp hc
        exact hrest.isColumn

/-- **What is found on a line of a document is at a column of the line.** -/
theorem columns_parse (line : Bytes) : ∀ c ∈ (parse line).columns, IsColumn line c := by
  have hline : (Rest.mk 1 line).Behind line := ⟨[], rfl, rfl⟩
  have hstart := hline.skipBlanks
  have hafter := hstart.takeWhile Ascii.isAlpha
  have hfault {cause : Cause} :
      ∀ c ∈ (fault (Rest.mk 1 line).skipBlanks.column cause).columns, IsColumn line c := by
    intro c hc
    obtain rfl := List.mem_singleton.mp hc
    exact hstart.isColumn
  unfold parse
  dsimp only
  split_ifs
  · exact nofun
  · exact columns_finish hstart.isColumn (Rest.leaves_readBasic hafter)
  · exact columns_finish hstart.isColumn (Rest.leaves_readCode hafter)
  · exact hfault
  · exact hfault

end DocLine

end columns

/-! ### Work that names places -/

/-- Work that reports only what is about places with a property, and fails only with that. -/
def Locates {α : Type} (Q : Location → Prop) (w : Work α) : Prop :=
  ∀ s, ∃ result entries events, w.run.run s = (result, ⟨entries, events ++ s.journal⟩) ∧
    (∀ d ∈ reported events, Q d.location) ∧
    ∀ failure, result = .error failure → failure.Names Q

section work

variable {α β : Type} {Q : Location → Prop} {c : Journal.Context}

theorem locates_pure (a : α) : Locates Q (pure a) :=
  fun s => ⟨.ok a, s.entries, [], rfl, nofun, nofun⟩

theorem locates_modifyEntries (f : List Tape.Entry → List Tape.Entry) :
    Locates Q (modify fun s => { s with entries := f s.entries } : Work Unit) :=
  fun s => ⟨.ok (), f s.entries, [], rfl, nofun, nofun⟩

theorem locates_note (level : Journal.Level) (message : Bytes)
    (attributes : List Journal.Attribute) : Locates Q (note (c.note level message attributes)) :=
  fun s => ⟨.ok (), s.entries, [_], rfl, nofun, nofun⟩

theorem locates_throw {failure : Failure Cause} (h : failure.Names Q) :
    Locates Q (throw failure : Work α) := by
  refine fun s => ⟨.error failure, s.entries, [], rfl, nofun, fun failure' h' => ?_⟩
  cases h'
  exact h

theorem mem_reported_map {ds : List Diagnostic} {d : Diagnostic} :
    d ∈ reported (ds.map Journal.Event.reported).reverse ↔ d ∈ ds := by
  simp [reported, Journal.Event.diagnostic?]

theorem locates_reportAll {ds : List Diagnostic} (h : ∀ d ∈ ds, Q d.location) :
    Locates Q (reportAll ds) :=
  fun s => ⟨.ok (), s.entries, _, rfl, fun d hd => h d (mem_reported_map.mp hd), nofun⟩

theorem Locates.bind {w : Work α} {f : α → Work β} (hw : Locates Q w) (hf : ∀ a, Locates Q (f a)) :
    Locates Q (w >>= f) := by
  intro s
  obtain ⟨result, entries, events, hrun, hreported, hfailure⟩ := hw s
  cases result with
  | error failure =>
    refine ⟨.error failure, entries, events, run_bind_of_error hrun, hreported, fun failure' h => ?_⟩
    cases h
    exact hfailure failure rfl
  | ok a =>
    obtain ⟨result, entries', more, hmore, hreported', hfailure'⟩ :=
      hf a ⟨entries, events ++ s.journal⟩
    refine ⟨result, entries', more ++ events, ?_, fun d hd => ?_, hfailure'⟩
    · rw [run_bind_of_ok hrun, hmore, List.append_assoc]
    · rw [reported_append] at hd
      exact (List.mem_append.mp hd).elim (hreported' d) (hreported d)

theorem locates_fail {l : Location} (h : Q l) (cause : Cause) : Locates Q (fail l cause : Work α) := by
  refine (locates_reportAll ?_).bind fun _ => locates_throw ?_
  · intro d hd
    obtain rfl := List.mem_singleton.mp hd
    exact h
  · intro f hf l' hl'
    obtain rfl := List.mem_singleton.mp hf
    cases hl'
    exact h

theorem locates_get {f : State → Work α} (hf : ∀ s, Locates Q (f s)) : Locates Q (get >>= f) :=
  fun s => hf s s

theorem locates_forIn_note {level : Journal.Level} {message : Bytes}
    (attributes : α → List Journal.Attribute) (xs : List α) :
    Locates Q (forIn xs PUnit.unit fun x _ => do
      note (c.note level message (attributes x))
      pure (ForInStep.yield PUnit.unit) : Work PUnit) := by
  induction xs with
  | nil => exact locates_pure _
  | cons x xs ih =>
    rw [List.forIn_cons]
    refine ((locates_note level message (attributes x)).bind fun _ => locates_pure _).bind ?_
    rintro (_ | _)
    · exact locates_pure _
    · exact ih

theorem Locates.inContext {w : Work α} (hw : Locates Q w) :
    Locates Q (tryCatch w fun failure => throw (c.wrap .inDocument failure)) := by
  intro s
  obtain ⟨result, entries, events, hrun, hreported, hfailure⟩ := hw s
  cases result with
  | ok a =>
    refine ⟨.ok a, entries, events, ?_, hreported, nofun⟩
    rw [ExceptT.run_tryCatch, StateT.run_bind, hrun]
    rfl
  | error failure =>
    refine ⟨.error (c.wrap .inDocument failure), entries, events, ?_, hreported, ?_⟩
    · rw [ExceptT.run_tryCatch, StateT.run_bind, hrun]
      rfl
    · intro failure' h
      cases h
      unfold Journal.Context.wrap
      split_ifs
      · exact hfailure failure rfl
      · -- The further fault has no place.
        intro f hf l hl
        rcases List.mem_append.mp (show f ∈ failure.faults ++ [_] from hf) with hf | hf
        · exact hfailure failure rfl f hf l hl
        · obtain rfl := List.mem_singleton.mp hf
          cases hl

end work

/-! ### Documents -/

theorem whole_create (dialect : Dialect) (settings : Basic.Settings) :
    ∀ d ∈ (Basic.Compiler.create dialect settings).2, ∃ file, d.location = .ofPath file := by
  unfold Basic.Compiler.create
  split
  · exact nofun
  · intro d hd
    obtain rfl := List.mem_singleton.mp hd
    exact ⟨[], rfl⟩

theorem whole_setConstants (c : Basic.Compiler) (cs : Basic.Constants) :
    ∀ d ∈ (c.setConstants cs).2, ∃ file, d.location = .ofPath file := by
  have hwarnings : (c.setConstants cs).2 = cs.repeats.map fun v =>
    Basic.Compiler.repeatedConstant c.path v.name := Basic.Compiler.snd_foldl_addConstant c.path cs
  rw [hwarnings, List.forall_mem_map]
  exact fun v _ => ⟨c.path, rfl⟩

theorem whole_build (entries : List Tape.Entry) :
    (∀ d ∈ (Tape.build entries).diagnostics, ∃ file, d.location = .ofPath file) ∧
      ∀ failure, (Tape.build entries).result = .error failure →
        failure.Names fun l => ∃ file, l = .ofPath file := by
  constructor
  · intro d hd
    rw [Tape.diagnostics_build] at hd
    obtain ⟨e, -, hd⟩ := List.mem_flatMap.mp hd
    obtain ⟨i, -, rfl⟩ := List.mem_map.mp hd
    exact ⟨e.source, rfl⟩
  · intro failure hfailure
    by_cases hvalid : ∀ e ∈ entries, e.Valid
    · rw [Tape.build_of_valid hvalid] at hfailure
      cases hfailure
    · obtain ⟨failure', hbuild, hfaults⟩ := Tape.build_of_invalid hvalid
      rw [hbuild] at hfailure
      cases hfailure
      intro f hf l hl
      rw [hfaults] at hf
      obtain ⟨e, -, hf⟩ := List.mem_flatMap.mp hf
      obtain ⟨i, -, rfl⟩ := List.mem_map.mp hf
      cases hl
      exact ⟨e.source, rfl⟩

/-- The places that work on a document can name: files as a whole, the positions of the document, and
those of a program that can be read. -/
def Place (files : Files) (path source : Bytes) (l : Location) : Prop :=
  (∃ file, l = .ofPath file) ∨ l.Of path source ∨
    ∃ file content, readSource files file = .ok content ∧ l.Of file content

section documents

variable {env : Environment} {c : Journal.Context} {path source : Bytes} {l : Location}

theorem locates_collect {Q : Location → Prop} (e : Tape.Entry) : Locates Q (collect c e) :=
  (locates_modifyEntries fun entries => entries ++ [e]).bind fun _ => locates_note _ _ _

theorem locates_autostartLine {Q : Location → Prop} (hl : Q l) (given : Int) (symbol : Option Bytes) :
    Locates Q (autostartLine l given symbol) := by
  unfold autostartLine
  split_ifs
  · exact locates_pure given
  · split
    · exact locates_pure _
    · split
      · exact locates_pure _
      · exact locates_fail hl _

theorem locates_addBasic (hl : Place env.files path source l) (file : BasicFile) :
    Locates (Place env.files path source) (addBasic env c l file) := by
  rcases hcreate : Basic.Compiler.create env.dialect env.settings with ⟨compiler₀, unusable⟩
  rcases hset : compiler₀.setConstants (file.constants.merge env.constants) with ⟨compiler₁, repeated⟩
  unfold addBasic
  split
  · exact locates_fail hl _
  · rename_i content hread
    simp only [hcreate, hset]
    have hlocated := compiler₁.located_parse env.dialect file.path content
    have hprogram {l : Location} (h : l.Of file.path content) : Place env.files path source l :=
      .inr (.inr ⟨file.path, content, hread, h⟩)
    have hdiagnostics : ∀ d ∈ unusable ++ repeated ++
        (compiler₁.parse env.dialect file.path content).2.diagnostics,
        Place env.files path source d.location := by
      have hunusable := whole_create env.dialect env.settings
      have hrepeated := whole_setConstants compiler₀ (file.constants.merge env.constants)
      rw [hcreate] at hunusable
      rw [hset] at hrepeated
      intro d hd
      rcases List.mem_append.mp hd with hd | hd
      · exact .inl ((List.mem_append.mp hd).elim (hunusable d) (hrepeated d))
      · exact hprogram (hlocated.diagnostics d hd)
    refine (locates_reportAll hdiagnostics).bind fun _ => ?_
    split
    · rename_i failure hfailure
      refine locates_throw (Failure.Names.map (fun f hf l hl => ?_) Cause.basic)
      exact hprogram (hlocated.names hfailure f hf l hl)
    · exact (locates_forIn_note _ _).bind fun _ => (locates_autostartLine hl _ _).bind fun _ =>
        (locates_collect _).bind fun _ => locates_pure _

theorem locates_addCode (hl : Place env.files path source l) (file : CodeFile) :
    Locates (Place env.files path source) (addCode env c l file) := by
  unfold addCode
  split
  · exact locates_fail hl _
  · exact (locates_collect _).bind fun _ => locates_pure _

theorem locates_follow (hl : Place env.files path source l) (d : Directive) :
    Locates (Place env.files path source) (follow env c l d) := by
  cases d with
  | basic path name => exact (locates_addBasic hl _).bind fun _ => locates_pure _
  | code path address name => exact (locates_addCode hl _).bind fun _ => locates_pure _

theorem locates_followLine {number : Nat} {line : Bytes}
    (hline : ∀ column, IsColumn line column → Bytes.IsPosition source number column) :
    Locates (Place env.files path source) (followLine env c path number line) := by
  have hcolumns := DocLine.columns_parse line
  have hplace {column : Nat} (h : column ∈ (DocLine.parse line).columns) :
      Place env.files path source ⟨path, number, column⟩ :=
    .inr (.inl (.position (hline column (hcolumns column h))))
  unfold followLine
  cases hparse : DocLine.parse line with
  | blank => exact locates_pure _
  | fault column cause =>
    rw [hparse] at hplace
    exact locates_fail (hplace List.mem_cons_self) cause
  | directive column d trailing =>
    rw [hparse] at hplace
    refine (locates_follow (hplace List.mem_cons_self) d).bind fun _ => ?_
    cases trailing with
    | none => exact locates_pure _
    | some column' => exact locates_fail (hplace (List.mem_cons_of_mem _ List.mem_cons_self)) _

theorem locates_followLines {earlier lines : List Bytes} {number : Nat}
    (hnumber : number = 1 + earlier.length) (hlines : source.lines = earlier ++ lines) :
    Locates (Place env.files path source) (followLines env c path number lines) := by
  induction lines generalizing earlier number with
  | nil => exact locates_pure _
  | cons line lines ih =>
    refine (locates_followLine ?_).bind fun _ => ?_
    · rintro column ⟨u, x, rfl, rfl⟩
      rw [hnumber]
      exact Bytes.isPosition_of_lines hlines
    · have hnext : number + 1 = 1 + (earlier ++ [line]).length := by
        rw [hnumber, List.length_append, List.length_singleton, Nat.add_assoc]
      have hrest : source.lines = (earlier ++ [line]) ++ lines := by
        rw [hlines, List.append_assoc, List.singleton_append]
      exact ih hnext hrest

theorem locates_build : Locates (Place env.files path source) (build c) := by
  refine locates_get fun s => ?_
  obtain ⟨hdiagnostics, hfailure⟩ := whole_build s.entries
  dsimp only
  split_ifs
  · exact locates_fail (.inl ⟨c.document, rfl⟩) _
  · refine (locates_reportAll fun d hd => .inl (hdiagnostics d hd)).bind fun _ => ?_
    split
    · rename_i failure hresult
      refine locates_throw (Failure.Names.map (fun f hf l hl => .inl ?_) Cause.tape)
      exact hfailure failure hresult f hf l hl
    · exact (locates_note _ _ _).bind fun _ => locates_pure _

/-- **Work on a document names only places of the document and of its programs.** -/
theorem processText_locates (env : Environment) (c : Journal.Context) (path source : Bytes) :
    Locates (Place env.files path source) (processText env c path source) := by
  unfold processText inDocument
  refine (locates_note _ _ _).bind fun _ => (locates_modifyEntries fun _ => []).bind fun _ => ?_
  refine Locates.inContext ?_
  have hlines : source.lines = [] ++ source.lines := rfl
  exact (locates_followLines rfl hlines).bind fun _ => locates_build

end documents

end Document

/-- **Every place is one of the source.** A cursor that stops at line ends from the start on is in a line
of its source, whatever was done with it, as long as it was not moved back: no break lies in the line,
which opens at the start, behind a break or at the end, and its number counts the breaks before it. So
what is left of the line and what is captured lie in the source, and the location of the cursor is a
position of it. What a compiler and a text document report is about such positions, or about files as a
whole. -/
theorem reached_positions (source : Bytes) :
    (∀ s, Relation.ReflTransGen (Cursor.Session.ForwardStep source) (Cursor.Session.start source) s →
      let state := s.cursor.state
      (0 ≤ state.lineStart ∧ state.lineStart ≤ state.pos ∧ state.pos ≤ state.lineEnd ∧
        state.lineEnd ≤ source.length) ∧
      (∀ b ∈ source.extract state.lineStart state.lineEnd, b ≠ Ascii.cr ∧ b ≠ Ascii.lf) ∧
      (Bytes.OpensLine source state.lineStart ∨ state.lineStart = source.length) ∧
      (state.lineStart ≤ state.captureStart ∧ state.captureStart ≤ state.pos) ∧
      state.lineNumber = Bytes.breakCount (source.take state.lineStart) ∧
      (∃ rest, s.cursor.rest? = some rest) ∧
      (∃ text, s.cursor.capture.text? s.cursor.capture.captured = some text) ∧
      Bytes.IsPosition source s.cursor.location.1 s.cursor.location.2) ∧
    (∀ (c : Basic.Compiler) (dialect : Dialect) (path : Bytes),
      (c.parse dialect path source).2.Located path source) ∧
    ∀ (env : Document.Environment) (c : Journal.Context) (path : Bytes),
      Document.Locates (Document.Place env.files path source)
        (Document.processText env c path source) := by
  refine ⟨fun s hrun => ?_, fun c dialect path => c.located_parse dialect path source,
    fun env c path => Document.processText_locates env c path source⟩
  have hstart := Cursor.Session.placed_start source
  have hplaced : s.Placed source :=
    hstart.reaches (hrun.lift id fun _ _ => Cursor.Session.ForwardStep.step)
  have hcursor := hplaced.cursor
  obtain ⟨hcapture, hcapture_le⟩ :=
    (hstart.captures_reaches (Cursor.Session.captures_start source) hrun).1
  have hpos := hcursor.state.pos_le
  have hlineEnd := hcursor.state.lineEnd_le
  refine ⟨⟨Nat.zero_le _, hcursor.state.lineStart_le, hpos, hlineEnd⟩, fun b hb => ?_,
    hcursor.state.opened, ⟨hcapture, hcapture_le⟩, hcursor.state.lineNumber, ?_, ?_,
    hcursor.state.isPosition⟩
  · exact (Bytes.isBreak_eq_false_iff.mp (hcursor.state.unbroken b hb)).symm
  · rw [Cursor.rest?, hcursor.limitEnd_eq]
    exact Cursor.exists_text? hcursor.bytes hpos hlineEnd
  · exact Cursor.exists_text? (c := s.cursor.capture) hcursor.bytes hcapture_le
      (Nat.le_trans hpos hlineEnd)

/-- Three lines, each with another break behind it or none. -/
def threeLines : Bytes := "ab\r\n\rc"

/-- A session that keeps a state on the first line, goes to the last one and comes back twice. -/
def returningSession : Cursor.Session :=
  [Cursor.Command.take, .save 1, .nextLine, .nextLine, .take, .save 2, .restore 1, .resetCapture,
    .move 1, .restore 2].foldl (fun s command => s.after (.command command))
      (Cursor.Session.start threeLines)

theorem reached_positions_returningSession :
    Relation.ReflTransGen (Cursor.Session.ForwardStep threeLines) (Cursor.Session.start threeLines)
        returningSession ∧
      returningSession.cursor.location = (3, 2) ∧ Bytes.IsPosition threeLines 3 2 := by
  have hsteps : Relation.ReflTransGen (Cursor.Session.ForwardStep threeLines)
      (Cursor.Session.start threeLines) returningSession :=
    .tail (.tail (.tail (.tail (.tail (.tail (.tail (.tail (.tail (.tail .refl
      ⟨.command .take, trivial, trivial, rfl⟩) ⟨.command (.save 1), trivial, trivial, rfl⟩)
      ⟨.command .nextLine, trivial, trivial, rfl⟩) ⟨.command .nextLine, trivial, trivial, rfl⟩)
      ⟨.command .take, trivial, trivial, rfl⟩) ⟨.command (.save 2), trivial, trivial, rfl⟩)
      ⟨.command (.restore 1), by show (1 : Int) ∈ _; decide, trivial, rfl⟩)
      ⟨.command .resetCapture, trivial, trivial, rfl⟩)
      ⟨.command (.move 1), trivial, by show (0 : Int) ≤ 1; decide, rfl⟩)
      ⟨.command (.restore 2), by show (2 : Int) ∈ _; decide, trivial, rfl⟩
  have hlocation : returningSession.cursor.location = (3, 2) := by decide +kernel
  obtain ⟨-, -, -, -, -, -, -, hposition⟩ :=
    (reached_positions threeLines).1 returningSession hsteps
  rw [hlocation] at hposition
  exact ⟨hsteps, hlocation, hposition⟩

end SpectrumTape
