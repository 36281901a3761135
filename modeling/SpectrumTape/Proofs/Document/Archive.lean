import SpectrumTape.Proofs.Document.Work
import SpectrumTape.Proofs.Basic.Labels
import SpectrumTape.Proofs.Basic.Listing
import SpectrumTape.Proofs.Tape.Archive
import SpectrumTape.Proofs.Vocabulary

/-!
# The archive of a document

The archive of a document holds one file for each directive, and its programs can be listed. A
compiled program alone need not have a listing, because the size of a long line does not fit its
word. No such line gets on a tape: a program that is larger than the memory is no file of an archive
(`length_program_of_build`), and no line is larger than its program (`length_body_lt`).
-/

namespace SpectrumTape.Document

variable {env : Environment}

theorem exists_compiled_of_gives {d : Directive} {e : Tape.Entry} (h : Gives env d e)
    (htype : e.type = .program) :
    ∃ o constants path source p,
      (Basic.compile o env.dialect constants path source).result = .ok p ∧
      e.payload = Basic.Program.bytes p := by
  cases h with
  | basic hread hcompile => exact ⟨_, _, _, _, _, hcompile, rfl⟩
  | code hread =>
    have hother : Tape.FileType.memory ≠ .program := by decide
    exact absurd htype hother

theorem exists_gives {ds : List Directive} {entries : List Tape.Entry}
    (h : List.Forall₂ (Gives env) ds entries) : ∀ e ∈ entries, ∃ d ∈ ds, Gives env d e := by
  induction h with
  | nil => simp
  | @cons d e ds entries hd _ ih =>
    refine List.forall_mem_cons.mpr ⟨⟨d, List.mem_cons_self, hd⟩, fun f hf => ?_⟩
    obtain ⟨d', hd', hgives⟩ := ih f hf
    exact ⟨d', List.mem_cons_of_mem d hd', hgives⟩

theorem byLine_of_compile {o : Basic.Options} {dialect : Dialect} {constants : Basic.Symbols}
    {path source : Bytes} {p : Basic.Program}
    (h : (Basic.compile o dialect constants path source).result = .ok p)
    (hsize : (Basic.Program.bytes p).length ≤ Tape.maxProgramSize) :
    Basic.Listing.ByLine (Basic.Program.bytes p) p := by
  obtain ⟨-, frames, -, -, -, -, rfl, -, hascending⟩ := Basic.compile_frames h
  refine Basic.Listing.byLine_bytes ?_ ?_ (hsize.trans_lt (by decide))
  · intro l hl
    obtain ⟨f, hf, rfl⟩ := List.mem_map.mp hl
    exact ⟨hascending.above f hf, hascending.le f hf⟩
  · exact List.pairwise_map.mpr hascending.pairwise

theorem byLine_of_gives {d : Directive} {e : Tape.Entry} (h : Gives env d e)
    (htype : e.type = .program) (hsize : e.payload.length ≤ Tape.maxProgramSize) :
    ∃ p, Basic.Listing.ByLine e.payload p := by
  obtain ⟨o, constants, path, source, p, hcompile, hpayload⟩ := exists_compiled_of_gives h htype
  rw [hpayload] at hsize ⊢
  exact ⟨p, byLine_of_compile hcompile hsize⟩

/-- **A document that gives an archive is read back from it**: one file for each directive, in their
order, the same as those that were collected, and each program is listed line by line. -/
theorem processText_read (env : Environment) (c : Journal.Context) (path source : Bytes)
    {s s' : State} {archive : Bytes}
    (h : (processText env c path source).run.run s = (.ok archive, s')) :
    ∃ found, Tape.read archive = .ok found ∧
      List.Forall₂ (Gives env) (directives source) s'.entries ∧
      List.Forall₂ Tape.Entry.ReadAs s'.entries found ∧
      ∀ e ∈ found, e.type = .program → ∃ p, Basic.Listing.ByLine e.payload p := by
  obtain ⟨hgives, hbuild⟩ := processText_eq_ok h
  obtain ⟨hfits, rfl⟩ := Tape.serializeAll_eq_ok (Tape.serializeAll_of_build hbuild)
  refine ⟨_, Tape.read_flatMap _ hfits, hgives, ?_, ?_⟩
  · rw [List.forall₂_map_right_iff, List.forall₂_same]
    intro e _
    exact ⟨rfl, rfl, Tape.words_paramsOfWords e.type e.words.1 e.words.2, rfl⟩
  · rw [List.forall_mem_map]
    intro e he htype
    obtain ⟨d, -, hd⟩ := exists_gives hgives e he
    exact byLine_of_gives (e := e) hd htype (Tape.length_program_of_build hbuild he htype)

/-- Lines with two directives, one of which gives a name that does not fit the tape. -/
def smallLines : List Bytes :=
  ["basic \"src/a.bas\" \"two words name\"", "# the picture", "  CODE \"b.bin\" 0x8000"]

/-- The lines, each ended in another way. -/
def smallDocument : Bytes :=
  smallLines.zip [[Ascii.lf], [Ascii.cr, Ascii.lf], [Ascii.cr]] |>.flatMap fun (a, b) => a ++ b

/-- The files that the directives name. The program has a label and a line escape. -/
def smallEnvironment : Environment where
  files :=
    { entries :=
        [(utf8 "src/a.bas", utf8 "@top: PRINT \\\n 1\n20 GO TO @top\n"), (utf8 "b.bin", [1, 2, 0])] }

theorem processText_smallDocument :
    ∃ archive s', (processText smallEnvironment {} [] smallDocument).run.run {} =
      (.ok archive, s') := by
  have hsource : smallDocument.lines = smallLines := by decide +kernel
  have hprogram : DocLine.parse (utf8 "basic \"src/a.bas\" \"two words name\"") =
      .directive 1 (.basic "src/a.bas" "two words name") none := by decide +kernel
  have hok : ((processText smallEnvironment {} [] smallDocument).run.run {}).1.toOption.isSome =
      true := by
    simp only [processText, inDocument, hsource, smallLines, followLines, followLine, hprogram,
      follow, addBasic, Basic.Compiler.parse, Basic.compile, Vocabulary.ofDialect_eq]
    decide +kernel
  rcases hrun : (processText smallEnvironment {} [] smallDocument).run.run {} with ⟨e | archive, s'⟩
  · rw [hrun] at hok
    cases hok
  · exact ⟨archive, s', rfl⟩

theorem processText_read_smallDocument :
    ∃ archive s' found, (processText smallEnvironment {} [] smallDocument).run.run {} =
        (.ok archive, s') ∧ Tape.read archive = .ok found ∧
      found.map (fun e => (e.type, e.name)) =
        [(.program, utf8 "two words"), (.memory, utf8 "b")] ∧
      ∀ e ∈ found, e.type = .program → ∃ p, Basic.Listing.ByLine e.payload p := by
  obtain ⟨archive, s', hrun⟩ := processText_smallDocument
  obtain ⟨found, hread, hgives, hsame, hlisted⟩ :=
    processText_read smallEnvironment {} [] smallDocument hrun
  have hdirectives : directives smallDocument =
      [.basic "src/a.bas" "two words name", .code "b.bin" 0x8000 []] := by decide +kernel
  refine ⟨archive, s', found, hrun, hread, ?_, hlisted⟩
  rw [hdirectives, List.forall₂_cons_left_iff] at hgives
  obtain ⟨first, rest, hfirst, hrest, hentries⟩ := hgives
  obtain ⟨second, none, hsecond, hnone, rfl⟩ := List.forall₂_cons_left_iff.mp hrest
  obtain rfl := List.forall₂_nil_left_iff.mp hnone
  rw [hentries, List.forall₂_cons_left_iff] at hsame
  obtain ⟨first', rest', hfirst', hrest', rfl⟩ := hsame
  obtain ⟨second', none', hsecond', hnone', rfl⟩ := List.forall₂_cons_left_iff.mp hrest'
  obtain rfl := List.forall₂_nil_left_iff.mp hnone'
  cases hfirst
  cases hsecond
  simp only [List.map_cons, List.map_nil, hfirst'.type, hfirst'.name, hsecond'.type, hsecond'.name,
    Tape.Entry.ofProgram, Tape.Entry.ofCode]
  decide +kernel

end SpectrumTape.Document
