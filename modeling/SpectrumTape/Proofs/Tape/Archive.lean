import SpectrumTape.Tape.Builder
import SpectrumTape.Proofs.Outcome
import SpectrumTape.Proofs.Tape.Block
import Mathlib.Data.List.DropRight
import Mathlib.Data.List.Forall2
import Mathlib.Data.List.GetD

/-!
# Archives are read back as they are written

A file takes two blocks on a tape (`Entry.blocks`), and `Entry.onTape` is what can be read back of
it: the name is cut and loses the blanks at its end, and the parameters are those that the two
words stand for. The files of an archive are its blocks in pairs, so reading and writing are inverse
to each other up to that (`read_flatMap`, `eq_flatMap_of_read`). In particular what was built is read
back, file by file (`read_build`).
-/

namespace SpectrumTape.Tape

namespace Entry

def blocks (e : Entry) : List Block :=
  [⟨Block.headerMarker, e.header⟩, ⟨Block.dataMarker, e.payload⟩]

/-- What can be read of a file that is on a tape. -/
def onTape (e : Entry) : Entry :=
  { name := (e.name.take maxNameLength).rdropWhile (· == 0x20)
    type := e.type
    params := some (paramsOfWords e.type e.words.1 e.words.2)
    payload := e.payload }

theorem length_headerName (e : Entry) : e.headerName.length = maxNameLength := by
  rw [headerName, Bytes.padRight, List.length_append, List.length_replicate, List.length_take]
  omega

theorem length_header (e : Entry) : e.header.length = headerSize := by
  simp [header, wordBytes, length_headerName, headerSize, maxNameLength]

end Entry

theorem wordOf_toNat (w : UInt16) : wordOf (w.toNat : Int) = w := by
  have hw := w.toNat_lt
  apply UInt16.toNat_inj.mp
  rw [wordOf, UInt16.toNat_ofNat']
  omega

theorem words_paramsOfWords (type : FileType) (first second : UInt16) :
    (paramsOfWords type first second).words = (first, second) := by
  unfold paramsOfWords
  split_ifs <;> simp only [Params.words, wordOf_toNat]

/-! ## Names -/

/-- Filling with blanks does not change what is left when blanks are dropped. -/
theorem rdropWhile_append_replicate (name : Bytes) (count : Nat) :
    (name ++ List.replicate count 0x20).rdropWhile (· == 0x20) = name.rdropWhile (· == 0x20) := by
  induction count with
  | zero => simp
  | succ count ih =>
    rw [List.replicate_succ', ← List.append_assoc, List.rdropWhile_concat_pos _ _ _ (by simp), ih]

theorem exists_eq_rdropWhile_append (name : Bytes) :
    ∃ count, name = name.rdropWhile (· == 0x20) ++ List.replicate count 0x20 := by
  induction name using List.reverseRecOn with
  | nil => exact ⟨0, rfl⟩
  | append_singleton name c ih =>
    by_cases hc : (c == 0x20) = true
    · obtain ⟨count, hname⟩ := ih
      refine ⟨count + 1, ?_⟩
      rw [List.rdropWhile_concat_pos (· == 0x20) name c hc, List.replicate_succ',
        ← List.append_assoc, ← hname, beq_iff_eq.mp hc]
    · refine ⟨0, ?_⟩
      rw [List.rdropWhile_concat_neg (· == 0x20) name c hc, List.replicate_zero, List.append_nil]

theorem padRight_rdropWhile (name : Bytes) :
    Bytes.padRight name.length 0x20 (name.rdropWhile (· == 0x20)) = name := by
  obtain ⟨count, hname⟩ := exists_eq_rdropWhile_append name
  have hlength := congrArg List.length hname
  rw [List.length_append, List.length_replicate] at hlength
  rw [Bytes.padRight, hlength, Nat.add_sub_cancel_left]
  exact hname.symm

/-! ## Headers -/

theorem exists_header_eq {header : Bytes} (hlength : header.length = Entry.headerSize) :
    ∃ type name size first second, name.length = maxNameLength ∧
      header = type :: (name ++ (wordBytes size ++ wordBytes first ++ wordBytes second)) := by
  obtain ⟨type, rest, rfl⟩ : ∃ type rest, header = type :: rest :=
    List.exists_cons_of_length_eq_add_one hlength
  have hrest : rest.length = 16 := by simpa [Entry.headerSize] using hlength
  obtain ⟨a, b, c, d, e, f, htail⟩ : ∃ a b c d e f, rest.drop maxNameLength = [a, b, c, d, e, f] := by
    have hdrop : (rest.drop maxNameLength).length = 6 := by simp [hrest, maxNameLength]
    match hmatch : rest.drop maxNameLength, hdrop with
    | [a, b, c, d, e, f], _ => exact ⟨a, b, c, d, e, f, rfl⟩
  refine ⟨type, rest.take maxNameLength, wordOfBytes a b, wordOfBytes c d, wordOfBytes e f, ?_, ?_⟩
  · simp [hrest, maxNameLength]
  · simp only [wordBytes_wordOfBytes, List.cons_append, List.nil_append, ← htail,
      List.take_append_drop]

theorem getD_header (type : UInt8) {name : Bytes} (hname : name.length = maxNameLength)
    (fields : Bytes) (i : Nat) :
    (type :: (name ++ fields)).getD (11 + i) 0 = fields.getD i 0 := by
  have hindex : 11 + i = name.length + i + 1 := by rw [hname, maxNameLength]; omega
  rw [hindex, List.getD_cons_succ, List.getD_append_right _ _ _ _ (by omega),
    Nat.add_sub_cancel_left]

theorem declaredSize_header (type : UInt8) {name : Bytes} (hname : name.length = maxNameLength)
    (size first second : UInt16) :
    declaredSize (type :: (name ++ (wordBytes size ++ wordBytes first ++ wordBytes second))) =
      size.toNat := by
  rw [declaredSize, getD_header type hname _ 0, getD_header type hname _ 1]
  simp only [wordBytes, List.cons_append, List.nil_append, List.getD_cons_zero, List.getD_cons_succ]
  rw [wordOfBytes_wordBytes]

theorem entryOfHeader_header (type : UInt8) {name : Bytes} (hname : name.length = maxNameLength)
    (size first second : UInt16) (payload : Bytes) :
    entryOfHeader (type :: (name ++ (wordBytes size ++ wordBytes first ++ wordBytes second)))
        payload =
      { name := name.rdropWhile (· == 0x20), type := ⟨type⟩, payload
        params := some (paramsOfWords ⟨type⟩ first second) } := by
  simp only [entryOfHeader]
  rw [getD_header type hname _ 2, getD_header type hname _ 3, getD_header type hname _ 4,
    getD_header type hname _ 5]
  simp only [wordBytes, List.cons_append, List.nil_append, List.getD_cons_zero,
    List.getD_cons_succ, wordOfBytes_wordBytes, List.headD_cons, List.drop_succ_cons,
    List.drop_zero, List.take_left' hname]
  rfl

namespace Entry

theorem header_eq (e : Entry) :
    e.header = e.type.code :: (e.headerName ++
      (wordBytes (UInt16.ofNat e.payload.length) ++ wordBytes e.words.1 ++ wordBytes e.words.2)) := by
  simp [header]

/-- Whether the payload of a file fits a block. -/
def Fits (e : Entry) : Prop := e.payload.length ≤ maxBlockContent

theorem declaredSize_header {e : Entry} (he : e.Fits) : declaredSize e.header = e.payload.length := by
  have hsize : e.payload.length ≤ 65533 := he
  rw [header_eq, Tape.declaredSize_header _ (length_headerName e), UInt16.toNat_ofNat']
  omega

theorem entryOfHeader_header (e : Entry) : entryOfHeader e.header e.payload = e.onTape := by
  rw [header_eq, Tape.entryOfHeader_header _ (length_headerName e), headerName, Bytes.padRight,
    rdropWhile_append_replicate]
  rfl

end Entry

theorem header_entryOfHeader {header payload : Bytes} (hlength : header.length = Entry.headerSize)
    (hsize : declaredSize header = payload.length) :
    (entryOfHeader header payload).header = header := by
  obtain ⟨type, name, size, first, second, hname, rfl⟩ := exists_header_eq hlength
  rw [declaredSize_header type hname] at hsize
  have hcut : (name.rdropWhile (· == 0x20)).length ≤ maxNameLength :=
    hname ▸ (List.rdropWhile_prefix _ name).length_le
  rw [entryOfHeader_header type hname, Entry.header_eq]
  simp only [Entry.headerName, Entry.words, words_paramsOfWords, List.take_of_length_le hcut, ← hsize,
    UInt16.ofNat_toNat]
  rw [← hname, padRight_rdropWhile]

/-! ## Files -/

namespace Entry

def bytes (e : Entry) : Bytes := e.blocks.flatMap Block.bytes

theorem header_fits (e : Entry) : Block.Fits ⟨Block.headerMarker, e.header⟩ := by
  show e.header.length ≤ maxBlockContent
  rw [length_header]
  decide

theorem blocks_fit {e : Entry} (he : e.Fits) : ∀ b ∈ e.blocks, b.Fits := by
  intro b hb
  simp only [blocks, List.mem_cons, List.not_mem_nil, or_false] at hb
  rcases hb with rfl | rfl
  · exact e.header_fits
  · exact he

theorem serialize_eq_ok_iff {e : Entry} {out : Bytes} :
    e.serialize = .ok out ↔ e.Fits ∧ out = e.bytes := by
  have hbytes : e.bytes =
      Block.bytes ⟨Block.headerMarker, e.header⟩ ++ Block.bytes ⟨Block.dataMarker, e.payload⟩ := by
    simp [bytes, blocks]
  simp only [serialize, bind_eq_ok_iff, Block.serialize_eq_ok_iff, hbytes]
  constructor
  · rintro ⟨header, ⟨_, rfl⟩, data, ⟨hdata, rfl⟩, hout⟩
    cases hout
    exact ⟨hdata, rfl⟩
  · rintro ⟨he, rfl⟩
    exact ⟨_, ⟨e.header_fits, rfl⟩, _, ⟨he, rfl⟩, rfl⟩

end Entry

theorem entriesFrom_blocks_append (index : Nat) {e : Entry} (he : e.Fits) (rest : List Block) :
    entriesFrom index (e.blocks ++ rest) =
      (entriesFrom (index + 2) rest).map (e.onTape :: ·) := by
  simp only [Entry.blocks, List.cons_append, List.nil_append]
  rw [entriesFrom]
  simp only [e.length_header, Entry.declaredSize_header he, e.entryOfHeader_header, bne_self_eq_false,
    Bool.or_self, Bool.false_eq_true, if_false]
  cases entriesFrom (index + 2) rest <;> rfl

theorem entriesFrom_flatMap (index : Nat) (entries : List Entry) (hfits : ∀ e ∈ entries, e.Fits) :
    entriesFrom index (entries.flatMap Entry.blocks) = .ok (entries.map Entry.onTape) := by
  induction entries generalizing index with
  | nil => rfl
  | cons e entries ih =>
    obtain ⟨he, hentries⟩ := List.forall_mem_cons.mp hfits
    rw [List.flatMap_cons, entriesFrom_blocks_append index he, ih _ hentries]
    rfl

theorem eq_flatMap_of_entriesFrom (index : Nat) (blocks : List Block) (entries : List Entry)
    (hread : entriesFrom index blocks = .ok entries) : blocks = entries.flatMap Entry.blocks := by
  fun_induction entriesFrom index blocks generalizing entries with
  | case1 index =>
    cases hread
    rfl
  | case2 => simp at hread
  | case3 => simp at hread
  | case4 => simp at hread
  | case5 => simp at hread
  | case6 index header hheader data rest hdata declared hsize more hmore ih =>
    cases hread
    obtain ⟨headerMarker, header⟩ := header
    obtain ⟨dataMarker, payload⟩ := data
    simp only [Bool.or_eq_true, bne_iff_ne, ne_eq, not_or, not_not] at hheader hdata hsize
    obtain ⟨rfl, hlength⟩ := hheader
    subst hdata
    rw [List.flatMap_cons, ← ih more hmore, Entry.blocks, header_entryOfHeader hlength hsize]
    rfl
  | case7 => simp at hread

theorem flatMap_flatMap_blocks (entries : List Entry) :
    (entries.flatMap Entry.blocks).flatMap Block.bytes = entries.flatMap Entry.bytes := by
  rw [List.flatMap_assoc]
  rfl

theorem read_flatMap (entries : List Entry) (hfits : ∀ e ∈ entries, e.Fits) :
    read (entries.flatMap Entry.bytes) = .ok (entries.map Entry.onTape) := by
  have hblocks : readBlocks (entries.flatMap Entry.bytes) = .ok (entries.flatMap Entry.blocks) := by
    refine readBlocks_eq_ok_iff.mpr ⟨?_, (flatMap_flatMap_blocks entries).symm⟩
    intro b hb
    obtain ⟨e, he, hbe⟩ := List.mem_flatMap.mp hb
    exact Entry.blocks_fit (hfits e he) b hbe
  exact bind_eq_ok_iff.mpr ⟨_, hblocks, entriesFrom_flatMap 0 entries hfits⟩

theorem eq_flatMap_of_read {data : Bytes} {entries : List Entry} (hread : read data = .ok entries) :
    (∀ e ∈ entries, e.Fits) ∧ data = entries.flatMap Entry.bytes := by
  obtain ⟨blocks, hblocks, hentries⟩ := bind_eq_ok_iff.mp hread
  obtain ⟨hfits, hdata⟩ := readBlocks_eq_ok_iff.mp hblocks
  obtain rfl := eq_flatMap_of_entriesFrom 0 blocks entries hentries
  refine ⟨fun e he => ?_, by rw [hdata, flatMap_flatMap_blocks]⟩
  exact hfits ⟨Block.dataMarker, e.payload⟩ (List.mem_flatMap.mpr ⟨e, he, by simp [Entry.blocks]⟩)

/-! ## Building and reading -/

theorem serializeAll_eq_ok {entries : List Entry} {archive : Bytes}
    (hwrite : serializeAll entries = .ok archive) :
    (∀ e ∈ entries, e.Fits) ∧ archive = entries.flatMap Entry.bytes := by
  induction entries generalizing archive with
  | nil =>
    cases hwrite
    simp
  | cons e entries ih =>
    rw [serializeAll] at hwrite
    split at hwrite
    · simp at hwrite
    · rename_i bytes hbytes
      obtain ⟨he, rfl⟩ := Entry.serialize_eq_ok_iff.mp hbytes
      split at hwrite
      · rename_i more hmore
        cases hwrite
        obtain ⟨hentries, rfl⟩ := ih hmore
        exact ⟨List.forall_mem_cons.mpr ⟨he, hentries⟩, by rw [List.flatMap_cons]⟩
      · simp at hwrite

theorem serializeAll_of_build {entries : List Entry} {archive : Bytes}
    (hbuild : (build entries).result = .ok archive) : serializeAll entries = .ok archive := by
  unfold build at hbuild
  split at hbuild
  · simp at hbuild
  · split at hbuild
    · rename_i bytes hbytes
      cases hbuild
      exact hbytes
    · simp at hbuild

theorem validate_of_build {entries : List Entry} {archive : Bytes}
    (hbuild : (build entries).result = .ok archive) {e : Entry} (he : e ∈ entries) {i : Issue}
    (hi : i ∈ e.validate) : i.isError = false := by
  have hfaults : issueFaults entries = [] := by
    unfold build at hbuild
    cases hcases : issueFaults entries with
    | nil => rfl
    | cons fault faults =>
      rw [hcases] at hbuild
      cases hbuild
  have hnone := List.flatMap_eq_nil_iff.mp hfaults e he
  rw [List.map_eq_nil_iff, List.filter_eq_nil_iff] at hnone
  exact Bool.eq_false_iff.mpr (hnone i hi)

theorem length_program_of_build {entries : List Entry} {archive : Bytes}
    (hbuild : (build entries).result = .ok archive) {e : Entry} (he : e ∈ entries)
    (htype : e.type = .program) : e.payload.length ≤ maxProgramSize := by
  by_contra hlarge
  have hissue : Issue.programTooBig ∈ e.validate := by
    simp [Entry.validate, Entry.programIssues, htype, not_le.mp hlarge]
  exact absurd (validate_of_build hbuild he hissue) (by decide)

/-- What is the same about a file and what was read for it. The name is cut to ten bytes, and blanks
at its end are not part of it. -/
structure Entry.ReadAs (e f : Entry) : Prop where
  type : f.type = e.type
  payload : f.payload = e.payload
  words : f.words = e.words
  name : f.name = (e.name.take 10).rdropWhile (· == 0x20)

/-- **What was built is read back**, the same files in the same order. -/
theorem read_build {entries : List Entry} {archive : Bytes}
    (hbuild : (build entries).result = .ok archive) :
    ∃ found, read archive = .ok found ∧ List.Forall₂ Entry.ReadAs entries found := by
  obtain ⟨hfits, rfl⟩ := serializeAll_eq_ok (serializeAll_of_build hbuild)
  refine ⟨entries.map Entry.onTape, read_flatMap entries hfits, ?_⟩
  rw [List.forall₂_map_right_iff, List.forall₂_same]
  intro e _
  exact ⟨rfl, rfl, words_paramsOfWords e.type e.words.1 e.words.2, rfl⟩

/-- A program whose name is cut behind a blank, and a file of no known type without parameters and
without a payload. -/
def awkwardFiles : List Entry :=
  [.ofProgram [0x41, 0x42, 0x43, 0x44, 0x45, 0x46, 0x47, 0x48, 0x49, 0x20, 0x4A] [1, 2] 10,
    { name := [0x20], type := ⟨200⟩, params := none, payload := [] }]

theorem read_build_awkwardFiles :
    ∃ archive found, (build awkwardFiles).result = .ok archive ∧ read archive = .ok found ∧
      List.Forall₂ Entry.ReadAs awkwardFiles found := by
  obtain ⟨found, hread, hfound⟩ := read_build (rfl : (build awkwardFiles).result = .ok _)
  exact ⟨_, found, rfl, hread, hfound⟩

end SpectrumTape.Tape
