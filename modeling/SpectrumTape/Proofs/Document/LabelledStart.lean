import SpectrumTape.Proofs.Document.Archive
import SpectrumTape.Proofs.Document.Autostart
import SpectrumTape.Proofs.Tape.Revalidation

/-!
# Programs that start at a label

A program with the label `@autostart:` starts at the number that the label stands for. That is the
number of the first line written behind the label (`Basic.compile_labelled`), so the program has a line
with this number unless the label is behind its last line. A label there stands for the number that the
next line would get, and a tape is only asked for a number that a line can have, so such a program is
put on tape with a line to start at that it does not have (`build_labelledStart`).
-/

namespace SpectrumTape

namespace Basic

/-! ### The number of a label -/

section

variable {o : Options} {constants symbols : Symbols} {previous : Option Nat}

theorem Framed.length_eq {ls : List LogicalLine} {frames : List Frame}
    (h : Framed o constants symbols previous ls frames) :
    frames.length = ls.countP fun l => l.opening.isSome := by
  induction h with
  | nil => rfl
  | silent hopening hrest ih => rw [List.countP_cons_of_neg (by simp [hopening]), ih]
  | frame hopening hnumber htokens hrest ih =>
    rw [List.countP_cons_of_pos (by simp [hopening]), List.length_cons, ih]

theorem labelNumber_le {front back : List Frame} (h : Ascending 0 (front ++ back)) :
    labelNumber o (front.getLast?.map Frame.number) back ≤ 19998 := by
  have hstart : o.start ≤ 9999 := o.start_le
  have hstep : o.step ≤ 9999 := o.step_le
  cases back with
  | cons f more =>
    have hf := h.le f (List.mem_append_right _ List.mem_cons_self)
    exact hf.trans (by decide)
  | nil =>
    rw [labelNumber]
    cases hlast : front.getLast? with
    | none => exact hstart.trans (by decide)
    | some last =>
      have hle := h.le last (List.mem_append_left _ (List.mem_of_getLast? hlast))
      exact Nat.add_le_add hle hstep

theorem labelNumber_behind {front : List Frame} (hfront : front ≠ []) (h : Ascending 0 front) :
    ∃ last, front.getLast? = some last ∧
      labelNumber o (front.getLast?.map Frame.number) [] = last.number + o.step ∧
      ∀ f ∈ front, f.number < last.number + o.step := by
  obtain ⟨earlier, last, rfl⟩ := (List.eq_nil_or_concat' front).resolve_left hfront
  have hstep : 1 ≤ o.step := o.step_pos
  have hlast : (earlier ++ [last]).getLast? = some last := List.getLast?_concat
  refine ⟨last, hlast, by rw [hlast]; rfl, ?_⟩
  obtain ⟨-, -, hbefore⟩ := List.pairwise_append.mp h.pairwise
  intro f hf
  rcases List.mem_append.mp hf with hf | hf
  · have hless := hbefore f hf last List.mem_cons_self
    omega
  · obtain rfl := List.mem_singleton.mp hf
    omega

theorem compile_labelled {dialect : Dialect} {path source : Bytes} {p : Program}
    (h : (compile o dialect constants path source).result = .ok p) {before later : List LogicalLine}
    {l : LogicalLine} (hsplit : logicalLines (Vocabulary.ofDialect dialect) source = before ++ l :: later)
    {name : Bytes} (hname : name ∈ l.labels) :
    ∃ n, Emission.valueOf? constants (compile o dialect constants path source).symbols name =
        some (Bytes.decimal n) ∧ n ≤ 19998 ∧
      ((∃ l' ∈ l :: later, l'.opening.isSome) →
        ∃ line, p[before.countP fun l => l.opening.isSome]? = some line ∧ n = line.number) ∧
      ((∀ l' ∈ l :: later, l'.opening = none) →
        ∃ last, p.getLast? = some last ∧ n = last.number + o.step ∧
          ∀ line ∈ p, line.number < n) := by
  have hne := (compile_eq_ok h).1
  obtain ⟨s, frames, hsurvey, hresolved, hsymbols, -, rfl, hframed, hascending⟩ := compile_frames h
  have hknows := Survey.run_knows hsurvey
  have hfits := (grouped_logicalLines (Vocabulary.ofDialect dialect) source).fits
  have hmem : l ∈ logicalLines (Vocabulary.ofDialect dialect) source := by
    rw [hsplit]
    exact List.mem_append_right _ List.mem_cons_self
  rw [(hfits l hmem).labels] at hname
  have hprevious : Numbering.previous {} = none := rfl
  obtain ⟨-, hlabels⟩ := Survey.run_labels (Numbering.regular_start o 0) hprevious rfl
    (fun l hl => (hfits l hl).shaped) hsurvey hframed
  obtain ⟨front, back, rfl, hfront, hback, hlabels⟩ := hlabels before l later hsplit
  have hvalue := hlabels name hname
  rw [lastNumber_none] at hvalue
  -- The name is a label, so no constant has it.
  have hconstant : constants.contains name = false :=
    hknows.fresh name ((hknows.resolved name).mp (by rw [hvalue]; rfl))
  refine ⟨labelNumber o (front.getLast?.map Frame.number) back, ?_, labelNumber_le hascending, ?_, ?_⟩
  · rw [Emission.valueOf?_symbol (Bool.eq_false_iff.mp hconstant), hsymbols, hvalue]
  · intro hopening
    have hpos : 0 < back.length := by
      rw [hback.length_eq]
      exact List.countP_pos_iff.mpr hopening
    obtain ⟨f, more, rfl⟩ := List.exists_cons_of_length_pos hpos
    refine ⟨f.line, ?_, rfl⟩
    rw [← hfront.length_eq, List.map_append, List.getElem?_append_right (by simp)]
    simp
  · intro hnone
    have hzero : back.length = 0 := by
      rw [hback.length_eq, List.countP_eq_zero]
      intro l' hl'
      simp [hnone l' hl']
    obtain rfl := List.length_eq_zero_iff.mp hzero
    rw [List.append_nil] at hne hascending ⊢
    obtain ⟨last, hlast, hnumber, hbelow⟩ :=
      labelNumber_behind (o := o) (fun hnil => hne (by rw [hnil]; rfl)) hascending
    refine ⟨last.line, by rw [List.getLast?_map, hlast]; rfl, hnumber, ?_⟩
    rw [hnumber, List.forall_mem_map]
    exact hbelow

end

end Basic

/-! ### The line that a program starts at -/

namespace Document

theorem wholePart_shiftLeft {n : Nat} (hn : n < 2 ^ 31) :
    wholePart (.finite false (n <<< 1074)) = n := by
  have hunits (scale : Nat) : n <<< scale / 2 ^ scale = n := by
    rw [Nat.shiftLeft_eq, Nat.mul_div_cancel n (Nat.two_pow_pos scale)]
  have hscale : n <<< 1074 = n <<< Binary.format64.scale := rfl
  rw [hscale, wholePart_finite false (by rwa [hunits]), hunits]
  rfl

/-- A program on tape has a line to start at that is the number of a line, or none, and is not too
large. -/
theorem header_of_build {entries : List Tape.Entry} {archive : Bytes}
    (hbuild : (Tape.build entries).result = .ok archive) {e : Tape.Entry} (he : e ∈ entries)
    (htype : e.type = .program) {n : Nat} (hstart : e.programParams.1 = n) (hn : n ≤ 19998) :
    1 ≤ n ∧ n ≤ 9999 ∧ e.words.1.toNat = n := by
  have hvalid : e.Valid := fun i hi => Tape.validate_of_build hbuild he hi
  have hissues := ((Tape.Entry.valid_program_iff htype).mp hvalid).2
  obtain ⟨hline, -, -⟩ := (Tape.Entry.programIssues_eq_nil_iff e).mp hissues
  have hword := (Tape.Entry.words_eq_programParams e).1
  simp only [hstart, Tape.maxAutostartLine, Tape.noAutostart] at hline hword
  omega

/-- **A program starts at the line behind its label `autostart`.** If it gets on a tape, the line to
start at is in the header, and it is the number of the first line at or behind the label. If there is no
such line, it is the number of the last line and a step, and the program has no line with that number. -/
theorem build_labelledStart (env : Environment) (c : Journal.Context) (l : Location)
    (file : BasicFile) (s : State) {s' : State} {source : Bytes} {e : Tape.Entry}
    {entries : List Tape.Entry} {archive : Bytes}
    (hread : readSource env.files file.path = .ok source) (hgiven : file.autostart = 0)
    (hadd : (addBasic env c l file).run.run s = (.ok e, s')) (he : e ∈ entries)
    (hbuild : (Tape.build entries).result = .ok archive)
    {before later : List Basic.LogicalLine} {labelled : Basic.LogicalLine}
    (hsplit : Basic.logicalLines (Vocabulary.ofDialect env.dialect) source =
      before ++ labelled :: later)
    (hlabel : utf8 "autostart" ∈ labelled.labels) :
    ∃ found f p, Tape.read archive = .ok found ∧ f ∈ found ∧ Tape.Entry.ReadAs e f ∧
      Basic.Listing.ByLine f.payload p ∧
      ((∃ line ∈ labelled :: later, line.opening.isSome) →
        ∃ started, p[before.countP fun line => line.opening.isSome]? = some started ∧
          f.words.1.toNat = started.number) ∧
      ((∀ line ∈ labelled :: later, line.opening = none) →
        ∃ last, p.getLast? = some last ∧
          f.words.1.toNat = last.number + (env.compiler file.constants).options.step ∧
          ∀ line ∈ p, line.number ≠ f.words.1.toNat) := by
  obtain ⟨-, source', p, autostart, hsource, hcompile, -⟩ := addBasic_collects hadd
  obtain rfl : source = source' := Except.ok.inj (hread.symm.trans hsource)
  obtain ⟨n, hvalue, hn, hbehind, hlast⟩ := Basic.compile_labelled hcompile hsplit hlabel
  -- The value of the label is a number, so this is the line that the program starts at.
  have hnumber := Reading.readBinary_decimal (n := n) (by omega)
  obtain ⟨s'', hrun, -⟩ := addBasic_of_number (s := s) (c := c) (l := l) hread hcompile hgiven hvalue
    hnumber
  rw [wholePart_shiftLeft (by omega)] at hrun
  obtain rfl : e = programEntry file p n := by
    exact Except.ok.inj (Prod.mk.inj (hadd.symm.trans hrun)).1
  obtain ⟨-, hle, hheader⟩ := header_of_build hbuild he rfl rfl hn
  have hlisted := byLine_of_compile hcompile (Tape.length_program_of_build hbuild he rfl)
  obtain ⟨hfits, rfl⟩ := Tape.serializeAll_eq_ok (Tape.serializeAll_of_build hbuild)
  have hwords := Tape.words_paramsOfWords .program (programEntry file p n).words.1
    (programEntry file p n).words.2
  have hreadAs : Tape.Entry.ReadAs (programEntry file p n) (programEntry file p n).onTape :=
    ⟨rfl, rfl, hwords, rfl⟩
  refine ⟨_, _, p, Tape.read_flatMap entries hfits, List.mem_map_of_mem he, hreadAs, ?_, ?_, ?_⟩
  · rw [hreadAs.payload]
    exact hlisted
  · rw [hreadAs.words, hheader]
    exact hbehind
  · rw [hreadAs.words, hheader]
    intro hnone
    obtain ⟨last, hgetLast, hnumber, hbelow⟩ := hlast hnone
    exact ⟨last, hgetLast, hnumber, fun line hline => (hbelow line hline).ne⟩

/-! ### Labels in front of a line and behind all lines -/

def labelledEnvironment (source : Bytes) : Environment where
  files := { entries := [(utf8 "p.bas", source)] }

theorem readSource_labelledEnvironment (source : Bytes) :
    readSource (labelledEnvironment source).files "p.bas" = .ok source := by
  have hclean : Path.clean "p.bas" = utf8 "p.bas" := by decide +kernel
  have hvalid : Path.isValid (utf8 "p.bas") = true := by decide +kernel
  rw [readSource, hclean, Files.read, hvalid]
  simp [labelledEnvironment]

def addLabelled (source : Bytes) : Except (Failure Cause) Tape.Entry × State :=
  (addBasic (labelledEnvironment source) {} {} { path := "p.bas" }).run.run {}

theorem exists_addLabelled {source : Bytes} {e : Tape.Entry}
    (h : (addLabelled source).1.toOption = some e) : ∃ s', addLabelled source = (.ok e, s') := by
  rcases hrun : addLabelled source with ⟨failure | e', s'⟩
  · rw [hrun] at h
    cases h
  · rw [hrun] at h
    cases h
    exact ⟨s', rfl⟩

/-- A label in front of another label, a comment and a line that is joined from two. -/
def labelledStartSource : Bytes :=
  "10 PRINT\n@autostart:\n@again: # then\n \\\nGO TO @again\n20 STOP"

/-- The program of that source with the line it starts at. -/
def labelledStartEntry : Tape.Entry :=
  programEntry { path := "p.bas" }
    [⟨10, [0xF5, 0x0D]⟩, ⟨12, [0xEC, 0x31, 0x32, 0x0E, 0x00, 0x00, 0x0C, 0x00, 0x00, 0x0D]⟩,
      ⟨20, [0xE2, 0x0D]⟩] 12

theorem build_labelledStart_joinedLine :
    ∃ s' archive found f p, addLabelled labelledStartSource = (.ok labelledStartEntry, s') ∧
      (Tape.build [labelledStartEntry]).result = .ok archive ∧
      Tape.read archive = .ok found ∧ f ∈ found ∧ Basic.Listing.ByLine f.payload p ∧
      f.words.1.toNat = 12 ∧ ∃ started, p[1]? = some started ∧ started.number = 12 := by
  obtain ⟨hentry, hlines⟩ : (addLabelled labelledStartSource).1.toOption = some labelledStartEntry ∧
      (Basic.logicalLines (Vocabulary.ofDialect .k48) labelledStartSource).map
        (fun l => (l.labels, l.opening.isSome)) =
          [([], true), ([utf8 "autostart"], false), ([utf8 "again"], false), ([], true),
            ([], true)] := by
    unfold addLabelled addBasic Basic.Compiler.parse Basic.compile
    rw [Vocabulary.ofDialect_eq, Vocabulary.ofDialect_eq]
    decide +kernel
  obtain ⟨s', hadd⟩ := exists_addLabelled hentry
  obtain ⟨first, rest, hsplit, hfirst, hrest⟩ := List.map_eq_cons_iff.mp hlines
  obtain ⟨labelled, later, rfl, hlabelled, hlater⟩ := List.map_eq_cons_iff.mp hrest
  rw [← List.singleton_append] at hsplit
  have hlabel : utf8 "autostart" ∈ labelled.labels := by
    rw [(Prod.mk.inj hlabelled).1]
    exact List.mem_singleton_self _
  obtain ⟨found, f, p, hfound, hf, hsame, hlisted, hstart, -⟩ :=
    build_labelledStart (labelledEnvironment labelledStartSource) {} {} { path := "p.bas" } {}
      (readSource_labelledEnvironment _) rfl hadd List.mem_cons_self
      (rfl : (Tape.build [labelledStartEntry]).result = .ok _) hsplit hlabel
  have hword : f.words.1.toNat = 12 := by rw [hsame.words]; rfl
  obtain ⟨l, hl, hopening⟩ : ∃ l ∈ later, (l.labels, l.opening.isSome) = ([], true) :=
    List.mem_map.mp (by rw [hlater]; decide)
  obtain ⟨started, hstarted, hnumber⟩ :=
    hstart ⟨l, List.mem_cons_of_mem _ hl, (Prod.mk.inj hopening).2⟩
  rw [List.countP_singleton, if_pos (Prod.mk.inj hfirst).2] at hstarted
  exact ⟨s', _, found, f, p, hadd, rfl, hfound, hf, hlisted, hword, started, hstarted,
    hnumber.symm.trans hword⟩

/-- A label behind the only line. -/
def lastLabelSource : Bytes := "10 PRINT\n@autostart:"

def lastLabelProgram : Basic.Program := [⟨10, [0xF5, 0x0D]⟩]

/-- The program gets on a tape, and starts at a line that it does not have. -/
theorem build_labelledStart_lastLabel :
    ∃ s' archive found f,
      (∃ l ∈ Basic.logicalLines (Vocabulary.ofDialect .k48) lastLabelSource,
        utf8 "autostart" ∈ l.labels) ∧
      addLabelled lastLabelSource = (.ok (programEntry { path := "p.bas" } lastLabelProgram 12), s') ∧
      (Tape.build s'.entries).result = .ok archive ∧ Tape.read archive = .ok found ∧ f ∈ found ∧
      f.payload = Basic.Program.bytes lastLabelProgram ∧ f.words.1.toNat = 12 ∧
      ∀ line ∈ lastLabelProgram, line.number ≠ 12 := by
  obtain ⟨hlabel, hentry⟩ : (∃ l ∈ Basic.logicalLines (Vocabulary.ofDialect .k48) lastLabelSource,
        utf8 "autostart" ∈ l.labels) ∧
      (addLabelled lastLabelSource).1.toOption =
        some (programEntry { path := "p.bas" } lastLabelProgram 12) := by
    unfold addLabelled addBasic Basic.Compiler.parse Basic.compile
    rw [Vocabulary.ofDialect_eq, Vocabulary.ofDialect_eq]
    decide +kernel
  obtain ⟨⟨entries, journal⟩, hadd⟩ := exists_addLabelled hentry
  obtain rfl : entries = [programEntry { path := "p.bas" } lastLabelProgram 12] :=
    (addBasic_collects hadd).1
  obtain ⟨archive, hbuild⟩ : ∃ archive,
      (Tape.build [programEntry { path := "p.bas" } lastLabelProgram 12]).result = .ok archive :=
    ⟨_, rfl⟩
  obtain ⟨hfits, rfl⟩ := Tape.serializeAll_eq_ok (Tape.serializeAll_of_build hbuild)
  exact ⟨_, _, _, _, hlabel, hadd, hbuild, Tape.read_flatMap _ hfits, List.mem_cons_self, rfl, rfl,
    by decide⟩

end Document

end SpectrumTape
