import SpectrumTape.Proofs.Tape.Archive

/-!
# When an archive is built

The limit on payloads stands in two places, in validation and in the writer of blocks. Both draw the
same line (`Entry.fits_of_valid`), so files without an issue that is an error can always be written
(`build_of_valid`), and an archive fails to be built exactly because of such an issue
(`build_of_invalid`). A builder reports one diagnostic for each issue either way and keeps its files
(`Builder.build_outcome`).
-/

namespace SpectrumTape.Tape

/-- Whether no issue of a file keeps it off the tape. -/
def Entry.Valid (e : Entry) : Prop := ∀ i ∈ e.validate, i.isError = false

theorem Entry.fits_of_valid {e : Entry} (he : e.Valid) : e.Fits := by
  by_contra hlarge
  have hissue : Issue.tooManyBytes ∈ e.validate := by
    simp [validate, show maxBlockContent < e.payload.length from not_le.mp hlarge]
  exact absurd (he _ hissue) (by decide)

theorem serializeAll_of_fits {entries : List Entry} (hfits : ∀ e ∈ entries, e.Fits) :
    serializeAll entries = .ok (entries.flatMap Entry.bytes) := by
  induction entries with
  | nil => rfl
  | cons e entries ih =>
    obtain ⟨he, hentries⟩ := List.forall_mem_cons.mp hfits
    rw [serializeAll, Entry.serialize_eq_ok_iff.mpr ⟨he, rfl⟩, ih hentries, List.flatMap_cons]

theorem issueFaults_eq_nil_iff {entries : List Entry} :
    issueFaults entries = [] ↔ ∀ e ∈ entries, e.Valid := by
  simp only [issueFaults, List.flatMap_eq_nil_iff, List.map_eq_nil_iff, List.filter_eq_nil_iff,
    Entry.Valid, Bool.not_eq_true]

theorem build_of_valid {entries : List Entry} (hvalid : ∀ e ∈ entries, e.Valid) :
    build entries = ⟨issueReports entries, .ok (entries.flatMap Entry.bytes)⟩ := by
  have hwrite := serializeAll_of_fits fun e he => Entry.fits_of_valid (hvalid e he)
  unfold build
  rw [issueFaults_eq_nil_iff.mpr hvalid]
  simp only [Failure.ofFaults?, hwrite]

theorem build_of_invalid {entries : List Entry} (hinvalid : ¬∀ e ∈ entries, e.Valid) :
    ∃ failure, build entries = ⟨issueReports entries, .error failure⟩ ∧
      failure.faults = issueFaults entries := by
  obtain ⟨first, more, hfaults⟩ : ∃ first more, issueFaults entries = first :: more :=
    List.exists_cons_of_ne_nil fun h => hinvalid (issueFaults_eq_nil_iff.mp h)
  refine ⟨⟨first, more⟩, ?_, hfaults.symm⟩
  unfold build
  rw [hfaults]
  rfl

theorem diagnostics_build (entries : List Entry) : (build entries).diagnostics = issueReports entries := by
  by_cases hvalid : ∀ e ∈ entries, e.Valid
  · rw [build_of_valid hvalid]
  · obtain ⟨failure, hbuild, _⟩ := build_of_invalid hvalid
    rw [hbuild]

theorem not_forall_valid_iff {entries : List Entry} :
    (¬∀ e ∈ entries, e.Valid) ↔ ∃ e ∈ entries, ∃ i ∈ e.validate, i.isError = true := by
  simp only [Entry.Valid, not_forall, Bool.not_eq_false, exists_prop]

/-- **What building does.** It fails exactly if some file has an issue that is an error, and then for
these issues alone. Every issue is reported, as an error or as a warning. Otherwise the archive is made of
what each file is written as. The files stay, so building again gives and reports the same. -/
theorem Builder.build_outcome (b : Builder) :
    let invalid := ∃ e ∈ b.entries, ∃ i ∈ e.validate, i.isError = true
    let message (e : Entry) (i : Issue) : Bytes :=
      e.type.name ++ " " ++ e.name.quoted ++ ": " ++ i.message
    let reports := b.entries.flatMap fun e => e.validate.map fun i =>
      Diagnostic.mk (if i.isError then .error else .warning) (.ofPath e.source) (message e i)
    ((∃ failure, b.build.1 = .error failure) ↔ invalid) ∧
    (∀ failure, b.build.1 = .error failure →
      failure.faults = b.entries.flatMap fun e => (e.validate.filter Issue.isError).map fun i =>
        { location := some (.ofPath e.source), cause := .invalidEntry (message e i) }) ∧
    (¬invalid → ∃ parts,
      List.Forall₂ (fun (e : Entry) part => e.serialize = .ok part) b.entries parts ∧
      b.build.1 = .ok parts.flatten) ∧
    b.build.2 = { entries := b.entries, reported := b.reported ++ reports } ∧
    b.build.2.build =
      (b.build.1, { entries := b.entries, reported := b.reported ++ reports ++ reports }) := by
  intro invalid message reports
  have hreports : (Tape.build b.entries).diagnostics = reports := diagnostics_build b.entries
  have hafter : b.build.2 = { entries := b.entries, reported := b.reported ++ reports } := by
    rw [← hreports]
    rfl
  have hagain : b.build.2.build =
      (b.build.1, { entries := b.entries, reported := b.reported ++ reports ++ reports }) := by
    rw [hafter, ← hreports]
    rfl
  have hinvalid : (¬∀ e ∈ b.entries, e.Valid) ↔ invalid := not_forall_valid_iff
  by_cases hvalid : ∀ e ∈ b.entries, e.Valid
  · have hresult : b.build.1 = .ok (b.entries.flatMap Entry.bytes) :=
      congrArg Built.result (build_of_valid hvalid)
    have hno : ¬invalid := fun h => hinvalid.mpr h hvalid
    refine ⟨iff_of_false ?_ hno, fun failure hfailure => ?_, fun _ => ?_, hafter, hagain⟩
    · rintro ⟨failure, hfailure⟩
      rw [hresult] at hfailure
      cases hfailure
    · rw [hresult] at hfailure
      cases hfailure
    · refine ⟨b.entries.map Entry.bytes, ?_, by rw [hresult, List.flatMap_def]⟩
      rw [List.forall₂_map_right_iff, List.forall₂_same]
      exact fun e he => Entry.serialize_eq_ok_iff.mpr ⟨Entry.fits_of_valid (hvalid e he), rfl⟩
  · obtain ⟨failure, hbuild, hfaults⟩ := build_of_invalid hvalid
    have hresult : b.build.1 = .error failure := congrArg Built.result hbuild
    have hyes : invalid := hinvalid.mp hvalid
    refine ⟨iff_of_true ⟨failure, hresult⟩ hyes, fun other hother => ?_, fun hno => absurd hyes hno,
      hafter, hagain⟩
    rw [hresult] at hother
    cases hother
    exact hfaults

/-- A block of memory with two warnings, and one whose header is wrong. -/
def mixedFiles : List Entry :=
  [.ofCode [0x65, 0x6C, 0x65, 0x76, 0x65, 0x6E, 0x63, 0x68, 0x61, 0x72, 0x73] [1] 0,
    { name := [0x62], type := .memory, params := some (.code 32768 0), payload := [1, 2] }]

theorem build_outcome_mixedFiles :
    (∃ e ∈ mixedFiles, ∃ i ∈ e.validate, i.isError = true) ∧
      (∃ failure, (Builder.mk mixedFiles []).build.1 = .error failure ∧
        failure.faults.map Fault.location = [some (.ofPath [])]) ∧
      (Builder.mk mixedFiles []).build.2.reported.map Diagnostic.severity =
        [.warning, .warning, .error] ∧
      ∃ parts, List.Forall₂ (fun (e : Entry) part => e.serialize = .ok part) awkwardFiles parts ∧
        (Builder.mk awkwardFiles []).build.1 = .ok parts.flatten := by
  have hinvalid : ∃ e ∈ mixedFiles, ∃ i ∈ e.validate, i.isError = true := by decide
  have hvalid : ¬∃ e ∈ awkwardFiles, ∃ i ∈ e.validate, i.isError = true := by decide
  obtain ⟨hfails, hfaults, _, hafter, _⟩ := Builder.build_outcome ⟨mixedFiles, []⟩
  obtain ⟨_, _, hparts, _⟩ := Builder.build_outcome ⟨awkwardFiles, []⟩
  obtain ⟨failure, hfailure⟩ := hfails.mpr hinvalid
  refine ⟨hinvalid, ⟨failure, hfailure, ?_⟩, ?_, hparts hvalid⟩
  · rw [hfaults failure hfailure]
    rfl
  · rw [hafter]
    rfl

end SpectrumTape.Tape
