import SpectrumTape.Proofs.Tape.Building

/-!
# Validating files that were read back

A header has room for a word of each parameter, and validation looks at the parameter itself. So the
issues of a file that was read back are those of the file as long as the parameters that validation
looks at are words. The line a program starts at and the constant of a block of memory always are if
the file is valid; the variable area may be negative, and the address may be any number
(`validate_reread`).
-/

namespace SpectrumTape.Tape

theorem toNat_wordOf (n : ℤ) : ((wordOf n).toNat : ℤ) = n % 65536 := by
  rw [wordOf, UInt16.toNat_ofNat']
  omega

theorem emod_toNat (w : UInt16) : (w.toNat : ℤ) % 65536 = w.toNat := by
  have := w.toNat_lt
  omega

namespace Entry

theorem type_onTape (e : Entry) : e.onTape.type = e.type := rfl

theorem payload_onTape (e : Entry) : e.onTape.payload = e.payload := rfl

theorem fits_onTape {e : Entry} (he : e.Fits) : e.onTape.Fits := he

theorem words_eq_programParams (e : Entry) :
    (e.words.1.toNat : ℤ) = e.programParams.1 % 65536 ∧
      (e.words.2.toNat : ℤ) = e.programParams.2 % 65536 := by
  unfold programParams
  split
  · rename_i hparams
    simp only [words, hparams, Params.words, toNat_wordOf, and_self]
  · simp only [emod_toNat, and_self]

theorem words_eq_codeParams (e : Entry) :
    (e.words.1.toNat : ℤ) = e.codeParams.1 % 65536 ∧
      (e.words.2.toNat : ℤ) = e.codeParams.2 % 65536 := by
  unfold codeParams
  split
  · rename_i hparams
    simp only [words, hparams, Params.words, toNat_wordOf, and_self]
  · simp only [emod_toNat, and_self]

theorem programParams_onTape {e : Entry} (htype : e.type = .program) :
    e.onTape.programParams = (e.programParams.1 % 65536, e.programParams.2 % 65536) := by
  obtain ⟨hfirst, hsecond⟩ := e.words_eq_programParams
  rw [← hfirst, ← hsecond]
  simp only [programParams, onTape, paramsOfWords, htype, if_true]

theorem codeParams_onTape {e : Entry} (htype : e.type = .memory) :
    e.onTape.codeParams = (e.codeParams.1 % 65536, e.codeParams.2 % 65536) := by
  obtain ⟨hfirst, hsecond⟩ := e.words_eq_codeParams
  have hother : FileType.memory ≠ .program := by decide
  rw [← hfirst, ← hsecond]
  simp only [codeParams, onTape, paramsOfWords, htype, if_neg hother, if_true]

/-! ### Issues of a kind of file -/

/-- The issues that only a kind of file has. -/
def kindIssues (e : Entry) : List Issue :=
  if e.type = .program then e.programIssues
  else if e.type = .memory then e.codeIssues
  else []

theorem kindIssues_subset_validate (e : Entry) : e.kindIssues ⊆ e.validate := by
  intro i hi
  exact List.mem_append_left _ (List.mem_append_right _ hi)

theorem nameTooLong_notMem_kindIssues (e : Entry) : Issue.nameTooLong ∉ e.kindIssues := by
  unfold kindIssues programIssues codeIssues
  split_ifs <;> simp

theorem filter_validate (e : Entry) :
    e.validate.filter (· ≠ .nameTooLong) =
      (if maxBlockContent < e.payload.length then [.tooManyBytes] else []) ++ e.kindIssues ++
        (if largePayloadSize < e.payload.length then [.largePayload] else []) := by
  have hkind : e.kindIssues.filter (· ≠ .nameTooLong) = e.kindIssues := by
    apply List.filter_eq_self.mpr
    intro i hi
    exact decide_eq_true fun h => e.nameTooLong_notMem_kindIssues (h ▸ hi)
  simp only [kindIssues] at hkind ⊢
  simp only [validate, List.filter_append, hkind]
  split_ifs <;> simp

theorem validate_eq_append (e : Entry) :
    e.validate = (if maxNameLength < e.name.length then [.nameTooLong] else []) ++
      e.validate.filter (· ≠ .nameTooLong) := by
  rw [filter_validate]
  simp only [validate, kindIssues, List.append_assoc]

theorem valid_iff (e : Entry) : e.Valid ↔ e.Fits ∧ ∀ i ∈ e.kindIssues, i.isError = false := by
  constructor
  · intro hvalid
    exact ⟨fits_of_valid hvalid, fun i hi => hvalid i (e.kindIssues_subset_validate hi)⟩
  · rintro ⟨hfits, hkind⟩ i hi
    rw [validate_eq_append, filter_validate, if_neg (not_lt.mpr hfits), List.nil_append] at hi
    rcases List.mem_append.mp hi with hname | hother
    · obtain ⟨_, rfl⟩ := by simpa using hname
      rfl
    rcases List.mem_append.mp hother with hi | hlarge
    · exact hkind i hi
    · obtain ⟨_, rfl⟩ := by simpa using hlarge
      rfl

/-- Apart from the name, only the issues of its kind can change when a file is read back. -/
theorem validate_onTape_eq_iff (e : Entry) :
    e.onTape.validate = e.validate.filter (· ≠ .nameTooLong) ↔
      e.onTape.kindIssues = e.kindIssues := by
  have hname : e.onTape.name.length ≤ maxNameLength :=
    calc e.onTape.name.length
        ≤ (e.name.take maxNameLength).length := (List.rdropWhile_prefix _ _).length_le
      _ ≤ maxNameLength := List.length_take_le _ _
  rw [validate_eq_append, if_neg (not_lt.mpr hname), List.nil_append, filter_validate,
    filter_validate, payload_onTape, List.append_left_inj, List.append_right_inj]

/-! ### Programs -/

theorem isError_of_mem_programIssues {e : Entry} {i : Issue} (hi : i ∈ e.programIssues) :
    i.isError = true := by
  simp only [programIssues, List.mem_append, List.mem_ite_nil_right, List.mem_singleton] at hi
  rcases hi with (⟨_, rfl⟩ | ⟨_, rfl⟩) | ⟨_, rfl⟩ <;> rfl

theorem programIssues_eq_nil_iff (e : Entry) :
    e.programIssues = [] ↔
      (0 < e.programParams.1 ∧ e.programParams.1 ≤ maxAutostartLine ∨
        e.programParams.1 = noAutostart) ∧
      e.programParams.2 ≤ e.payload.length ∧ e.payload.length ≤ maxProgramSize := by
  simp only [programIssues, List.append_eq_nil_iff, ite_eq_right_iff, List.cons_ne_nil, imp_false,
    Bool.and_eq_true, Bool.or_eq_true, decide_eq_true_eq, bne_iff_ne, Int.not_lt, Nat.not_lt, not_and,
    not_not, ne_eq, and_assoc]
  have hline : (e.programParams.1 ≤ 0 ∨ maxAutostartLine < e.programParams.1 →
      e.programParams.1 = noAutostart) ↔
    (0 < e.programParams.1 ∧ e.programParams.1 ≤ maxAutostartLine ∨
        e.programParams.1 = noAutostart) := by
    omega
  rw [hline]

/-- The line a program starts at is a word, so only the variable area can be wrong. -/
theorem programIssues_onTape_eq_nil_iff {e : Entry} (htype : e.type = .program)
    (hnone : e.programIssues = []) :
    e.onTape.programIssues = [] ↔ e.programParams.2 % 65536 ≤ e.payload.length := by
  obtain ⟨hline, _, hsize⟩ := e.programIssues_eq_nil_iff.mp hnone
  have hword : e.programParams.1 % 65536 = e.programParams.1 := by
    simp only [maxAutostartLine, noAutostart] at hline
    omega
  rw [programIssues_eq_nil_iff, programParams_onTape htype, payload_onTape, hword]
  exact ⟨fun h => h.2.1, fun h => ⟨hline, h, hsize⟩⟩

/-! ### Blocks of memory -/

theorem codeIssues_eq (e : Entry) :
    e.codeIssues =
      (if e.codeParams.1 < ramStart ∨ memorySize < e.codeEnd then [.codeInRom] else []) ++
        (if e.codeParams.2 = codeConstant then [] else [.codeHeader]) := by
  simp only [codeIssues, Bool.or_eq_true, decide_eq_true_eq, bne_iff_ne, ne_eq, ite_not]

theorem codeEnd_of_word {e : Entry} (hfits : e.Fits) (haddress : 0 ≤ e.codeParams.1)
    (hword : e.codeParams.1 < 65536) : e.codeEnd = e.codeParams.1 + e.payload.length := by
  have hsize : e.payload.length ≤ 65533 := hfits
  apply Int.bmod_eq_of_le <;> omega

theorem codeIssues_onTape_eq_iff {e : Entry} (htype : e.type = .memory) (hfits : e.Fits)
    (hconstant : e.codeParams.2 = codeConstant) :
    e.onTape.codeIssues = e.codeIssues ↔
      (Issue.codeInRom ∈ e.codeIssues ↔ e.codeParams.1 % 65536 < ramStart ∨
        memorySize < e.codeParams.1 % 65536 + e.payload.length) := by
  have hparams := codeParams_onTape htype
  have hend : e.onTape.codeEnd = e.codeParams.1 % 65536 + e.payload.length := by
    rw [codeEnd_of_word (fits_onTape hfits), hparams, payload_onTape]
    all_goals
      rw [hparams]
      dsimp only
      omega
  have hword : (codeConstant : ℤ) % 65536 = codeConstant := by decide
  simp only [codeIssues_eq, hparams, hend, hconstant, hword, if_true, List.append_nil]
  split_ifs <;> simp [*]

/-! ### Validity -/

theorem valid_program_iff {e : Entry} (htype : e.type = .program) :
    e.Valid ↔ e.Fits ∧ e.programIssues = [] := by
  rw [valid_iff, kindIssues, if_pos htype]
  apply and_congr_right
  intro _
  constructor
  · intro hnone
    apply List.eq_nil_iff_forall_not_mem.mpr
    intro i hi
    exact absurd (isError_of_mem_programIssues hi) (by rw [hnone i hi]; decide)
  · intro hnone i hi
    rw [hnone] at hi
    exact absurd hi List.not_mem_nil

theorem valid_memory_iff {e : Entry} (htype : e.type = .memory) :
    e.Valid ↔ e.Fits ∧ e.codeParams.2 = codeConstant := by
  have hother : e.type ≠ .program := by rw [htype]; decide
  rw [valid_iff, kindIssues, if_neg hother, if_pos htype, codeIssues_eq]
  apply and_congr_right
  intro _
  split_ifs <;> simp [*, Issue.isError]

theorem valid_onTape_iff {e : Entry} (hvalid : e.Valid) :
    e.onTape.Valid ↔ (e.type = .program → e.programParams.2 % 65536 ≤ e.payload.length) := by
  have hfits := fits_onTape (fits_of_valid hvalid)
  by_cases hprogram : e.type = .program
  · have hnone := ((valid_program_iff hprogram).mp hvalid).2
    rw [valid_program_iff (e := e.onTape) hprogram, programIssues_onTape_eq_nil_iff hprogram hnone]
    exact ⟨fun h _ => h.2, fun h => ⟨hfits, h hprogram⟩⟩
  refine iff_of_true ?_ fun htype => absurd htype hprogram
  by_cases hmemory : e.type = .memory
  · have hconstant := ((valid_memory_iff hmemory).mp hvalid).2
    refine (valid_memory_iff (e := e.onTape) hmemory).mpr ⟨hfits, ?_⟩
    rw [codeParams_onTape hmemory]
    dsimp only
    rw [hconstant]
    decide
  · have hnone : e.onTape.kindIssues = [] := by
      rw [kindIssues, type_onTape, if_neg hprogram, if_neg hmemory]
    exact e.onTape.valid_iff.mpr ⟨hfits, by simp [hnone]⟩

theorem codeInRom_mem_validate_iff {e : Entry} (htype : e.type = .memory) :
    Issue.codeInRom ∈ e.validate ↔ Issue.codeInRom ∈ e.codeIssues := by
  have hother : FileType.memory ≠ .program := by decide
  simp [validate, htype, hother]

theorem kindIssues_onTape_eq_iff {e : Entry} (hvalid : e.Valid) :
    e.onTape.kindIssues = e.kindIssues ↔
      (e.type = .program → e.programParams.2 % 65536 ≤ e.payload.length) ∧
      (e.type = .memory → (Issue.codeInRom ∈ e.validate ↔
        e.codeParams.1 % 65536 < ramStart ∨
          memorySize < e.codeParams.1 % 65536 + e.payload.length)) := by
  have htypes : FileType.memory ≠ .program := by decide
  unfold kindIssues
  rw [type_onTape]
  split_ifs with hprogram hmemory
  · have hnone := ((valid_program_iff hprogram).mp hvalid).2
    rw [hnone, programIssues_onTape_eq_nil_iff hprogram hnone]
    constructor
    · intro harea
      exact ⟨fun _ => harea, fun hmemory => absurd (hmemory.symm.trans hprogram) htypes⟩
    · intro h
      exact h.1 hprogram
  · obtain ⟨hfits, hconstant⟩ := (valid_memory_iff hmemory).mp hvalid
    rw [codeIssues_onTape_eq_iff hmemory hfits hconstant, codeInRom_mem_validate_iff hmemory]
    exact ⟨fun h => ⟨fun h' => absurd h' hprogram, fun _ => h⟩, fun h => h.2 hmemory⟩
  · exact iff_of_true rfl ⟨fun h => absurd h hprogram, fun h => absurd h hmemory⟩

theorem kindIssues_onTape_of_words {e : Entry} (hvalid : e.Valid)
    (harea : e.type = .program → 0 ≤ e.programParams.2)
    (haddress : e.type = .memory → 0 ≤ e.codeParams.1 ∧ e.codeParams.1 < memorySize) :
    e.onTape.kindIssues = e.kindIssues := by
  apply (kindIssues_onTape_eq_iff hvalid).mpr
  constructor
  · intro htype
    obtain ⟨_, hnone⟩ := (valid_program_iff htype).mp hvalid
    obtain ⟨_, hbound, hsize⟩ := e.programIssues_eq_nil_iff.mp hnone
    have hnonneg := harea htype
    simp only [maxProgramSize] at hsize
    omega
  · intro htype
    obtain ⟨hnonneg, hbound⟩ := haddress htype
    have hword : e.codeParams.1 % 65536 = e.codeParams.1 := Int.emod_eq_of_lt hnonneg hbound
    rw [codeInRom_mem_validate_iff htype, codeIssues_eq,
      codeEnd_of_word (fits_of_valid hvalid) hnonneg hbound, hword]
    split_ifs <;> simp [*]

end Entry

theorem read_serialize_of_valid {e : Entry} (hvalid : e.Valid) :
    e.serialize = .ok e.bytes ∧ read e.bytes = .ok [e.onTape] := by
  have hfits := Entry.fits_of_valid hvalid
  refine ⟨Entry.serialize_eq_ok_iff.mpr ⟨hfits, rfl⟩, ?_⟩
  simpa using read_flatMap [e] (by simpa using hfits)

/-- **Validation of what was read back.** A file without an error is written and read back. It is
still valid unless it is a program whose variable area is put behind its end by the word, and apart from
the name its issues are the same exactly if also the warning about the place of a block of memory is
right about the word of its address. Both hold if the two parameters are words. -/
theorem validate_reread {e : Entry} (hvalid : ∀ i ∈ e.validate, i.isError = false) :
    let areaFits := e.type = .program → e.programParams.2 % 65536 ≤ e.payload.length
    let sameWarning := e.type = .memory →
      (Issue.codeInRom ∈ e.validate ↔ e.codeParams.1 % 65536 < ramStart ∨
        memorySize < e.codeParams.1 % 65536 + e.payload.length)
    ∃ bytes f, e.serialize = .ok bytes ∧ read bytes = .ok [f] ∧
      ((∀ i ∈ f.validate, i.isError = false) ↔ areaFits) ∧
      (f.validate = e.validate.filter (· ≠ .nameTooLong) ↔ areaFits ∧ sameWarning) ∧
      ((e.type = .program → 0 ≤ e.programParams.2) →
        (e.type = .memory → 0 ≤ e.codeParams.1 ∧ e.codeParams.1 < memorySize) →
        f.validate = e.validate.filter (· ≠ .nameTooLong)) := by
  intro areaFits sameWarning
  obtain ⟨hwrite, hread⟩ := read_serialize_of_valid hvalid
  refine ⟨e.bytes, e.onTape, hwrite, hread, Entry.valid_onTape_iff hvalid, ?_, ?_⟩
  · rw [e.validate_onTape_eq_iff]
    exact Entry.kindIssues_onTape_eq_iff hvalid
  · intro harea haddress
    rw [e.validate_onTape_eq_iff]
    exact Entry.kindIssues_onTape_of_words hvalid harea haddress

/-- A block of memory at the last address of the ROM, whose name is too long. -/
def lastOfRom : Entry :=
  .ofCode [0x65, 0x6C, 0x65, 0x76, 0x65, 0x6E, 0x63, 0x68, 0x61, 0x72, 0x73] [1, 2] 16383

theorem validate_reread_lastOfRom :
    lastOfRom.validate = [.nameTooLong, .codeInRom] ∧
      ∃ bytes f, lastOfRom.serialize = .ok bytes ∧ read bytes = .ok [f] ∧
        f.validate = [.codeInRom] := by
  have hvalid : ∀ i ∈ lastOfRom.validate, i.isError = false := by decide
  obtain ⟨bytes, f, hwrite, hread, _, _, hsame⟩ := validate_reread hvalid
  refine ⟨by decide, bytes, f, hwrite, hread, ?_⟩
  rw [hsame (by decide) (by decide)]
  decide

/-- A program of two bytes whose variable area is before its start. -/
def areaBeforeStart : Entry :=
  { name := [0x70], type := .program, params := some (.program 10 (-1)), payload := [0x41, 0x42] }

theorem validate_reread_areaBeforeStart :
    areaBeforeStart.validate = [] ∧
      ∃ bytes f, areaBeforeStart.serialize = .ok bytes ∧ read bytes = .ok [f] ∧
        f.validate = [.wrongVariableArea] := by
  refine ⟨by decide, areaBeforeStart.bytes, areaBeforeStart.onTape, by rfl, ?_, by decide⟩
  exact (read_serialize_of_valid (show areaBeforeStart.Valid by unfold Entry.Valid; decide)).2

end SpectrumTape.Tape
