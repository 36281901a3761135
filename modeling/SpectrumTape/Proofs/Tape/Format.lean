import SpectrumTape.Proofs.Tape.Archive

/-!
# The format of archives

What an archive is, said by its bytes alone: headers and payloads in turn, each in a block with its
size in front and a byte at its end that makes the exclusive or of marker, content and itself zero
(`IsBlock`, `IsFile`, `IsArchive`). The reader accepts exactly these byte strings, and nothing that
it leaves out of a file is lost, because writing the file computes it again (`read_canonical`).
-/

namespace SpectrumTape.Tape

/-- The bytes of a block with a marker and a content. -/
def IsBlock (marker : UInt8) (content bytes : Bytes) : Prop :=
  ∃ low high sum, bytes = low :: high :: marker :: (content ++ [sum]) ∧
    low.toNat + 256 * high.toNat = content.length + 2 ∧
    (marker :: (content ++ [sum])).foldl (· ^^^ ·) 0 = 0

/-- The bytes of a header and of the payload that it belongs to. -/
def IsFile (bytes : Bytes) : Prop :=
  ∃ header payload first second, bytes = first ++ second ∧
    IsBlock 0x00 header first ∧ IsBlock 0xFF payload second ∧ header.length = 17 ∧
    (header.getD 11 0).toNat + 256 * (header.getD 12 0).toNat = payload.length

/-- The bytes of any number of files. -/
def IsArchive (data : Bytes) : Prop :=
  ∃ files : List Bytes, (∀ f ∈ files, IsFile f) ∧ data = files.flatten

theorem foldl_xor_block (marker sum : UInt8) (content : Bytes) :
    (marker :: (content ++ [sum])).foldl (· ^^^ ·) 0 = Block.checksum ⟨marker, content⟩ ^^^ sum := by
  simp [Block.checksum, List.foldl_append]

theorem isBlock_iff {marker : UInt8} {content bytes : Bytes} :
    IsBlock marker content bytes ↔
      Block.Fits ⟨marker, content⟩ ∧ bytes = Block.bytes ⟨marker, content⟩ := by
  constructor
  · rintro ⟨low, high, sum, rfl, hsize, hsum⟩
    rw [foldl_xor_block, UInt8.xor_eq_zero_iff] at hsum
    have hword : (wordOfBytes low high).toNat = content.length + 2 := by
      rw [toNat_wordOfBytes]
      omega
    have hlength : (marker :: (content ++ [sum])).length = (wordOfBytes low high).toNat := by
      simp [hword]
    have hraw := bytes_blockOfBytes low high (by omega) hlength
      (by rw [blockOfBytes_append]; exact hsum)
    rwa [blockOfBytes_append] at hraw
  · rintro ⟨hfits, rfl⟩
    have hlength : content.length ≤ 65533 := hfits
    refine ⟨_, _, _, rfl, ?_, ?_⟩
    · simp only [UInt8.toNat_ofNat', UInt16.toNat_ofNat']
      omega
    · rw [foldl_xor_block, UInt8.xor_self]

theorem isFile_iff {bytes : Bytes} : IsFile bytes ↔ ∃ e : Entry, e.Fits ∧ bytes = e.bytes := by
  constructor
  · rintro ⟨header, payload, first, second, rfl, hfirst, hsecond, hlength, hsize⟩
    obtain ⟨_, rfl⟩ := isBlock_iff.mp hfirst
    obtain ⟨hfits, rfl⟩ := isBlock_iff.mp hsecond
    have hdeclared : declaredSize header = payload.length := by
      rw [declaredSize, toNat_wordOfBytes]
      omega
    refine ⟨entryOfHeader header payload, hfits, ?_⟩
    simp only [Entry.bytes, Entry.blocks, header_entryOfHeader hlength hdeclared, List.flatMap_cons,
      List.flatMap_nil, List.append_nil]
    rfl
  · rintro ⟨e, he, rfl⟩
    refine ⟨e.header, e.payload, _, _, ?_, isBlock_iff.mpr ⟨e.header_fits, rfl⟩,
      isBlock_iff.mpr ⟨he, rfl⟩, e.length_header, ?_⟩
    · simp only [Entry.bytes, Entry.blocks, List.flatMap_cons, List.flatMap_nil, List.append_nil]
      rfl
    · have hdeclared := Entry.declaredSize_header he
      rw [declaredSize, toNat_wordOfBytes] at hdeclared
      omega

theorem isArchive_iff {data : Bytes} :
    IsArchive data ↔
      ∃ entries : List Entry, (∀ e ∈ entries, e.Fits) ∧ data = entries.flatMap Entry.bytes := by
  constructor
  · rintro ⟨files, hfiles, rfl⟩
    induction files with
    | nil => exact ⟨[], by simp, rfl⟩
    | cons file files ih =>
      obtain ⟨hfile, hrest⟩ := List.forall_mem_cons.mp hfiles
      obtain ⟨e, he, rfl⟩ := isFile_iff.mp hfile
      obtain ⟨entries, hentries, hdata⟩ := ih hrest
      refine ⟨e :: entries, List.forall_mem_cons.mpr ⟨he, hentries⟩, ?_⟩
      rw [List.flatten_cons, List.flatMap_cons, hdata]
  · rintro ⟨entries, hentries, rfl⟩
    refine ⟨entries.map Entry.bytes, ?_, List.flatMap_def.symm⟩
    intro file hfile
    obtain ⟨e, he, rfl⟩ := List.mem_map.mp hfile
    exact isFile_iff.mpr ⟨e, hentries e he, rfl⟩

/-- **Reading loses nothing.** The files of an archive can all be written, and give the archive when
they are. So an archive is accepted exactly if it has the format, and no two archives are read as
the same files. -/
theorem read_canonical (data : Bytes) :
    (∀ entries, read data = .ok entries →
      ∃ parts, List.Forall₂ (fun (e : Entry) part => e.serialize = .ok part) entries parts ∧
        parts.flatten = data) ∧
    ((∃ entries, read data = .ok entries) ↔ IsArchive data) ∧
    (∀ other entries, read data = .ok entries → read other = .ok entries → data = other) := by
  refine ⟨fun entries hread => ?_, ?_, fun other entries hread hother => ?_⟩
  · obtain ⟨hfits, hdata⟩ := eq_flatMap_of_read hread
    refine ⟨entries.map Entry.bytes, ?_, by rw [hdata, List.flatMap_def]⟩
    rw [List.forall₂_map_right_iff, List.forall₂_same]
    exact fun e he => Entry.serialize_eq_ok_iff.mpr ⟨hfits e he, rfl⟩
  · rw [isArchive_iff]
    constructor
    · rintro ⟨entries, hread⟩
      exact ⟨entries, eq_flatMap_of_read hread⟩
    · rintro ⟨entries, hfits, rfl⟩
      exact ⟨_, read_flatMap entries hfits⟩
  · rw [(eq_flatMap_of_read hread).2, (eq_flatMap_of_read hother).2]

/-- A file of no known type without a name, and one with the longest payload. -/
def extremeFiles : List Entry :=
  [{ name := [], type := ⟨0xFE⟩, params := some (.generic 1 2), payload := [] },
    .ofCode [0x41] (List.replicate 65533 0) 16384]

theorem read_canonical_extremeFiles :
    ∃ entries, read (extremeFiles.flatMap Entry.bytes) = .ok entries ∧
      IsArchive (extremeFiles.flatMap Entry.bytes) ∧
      ∃ parts, List.Forall₂ (fun (e : Entry) part => e.serialize = .ok part) entries parts ∧
        parts.flatten = extremeFiles.flatMap Entry.bytes := by
  have hfits : ∀ e ∈ extremeFiles, e.Fits := by
    refine List.forall_mem_cons.mpr ⟨Nat.zero_le _, List.forall_mem_singleton.mpr ?_⟩
    exact (List.length_replicate).le
  have hread := read_flatMap extremeFiles hfits
  obtain ⟨hparts, haccepted, _⟩ := read_canonical (extremeFiles.flatMap Entry.bytes)
  exact ⟨_, hread, haccepted.mp ⟨_, hread⟩, hparts _ hread⟩

end SpectrumTape.Tape
