import SpectrumTape.Proofs.Tape.Building
import SpectrumTape.Proofs.Tape.Damage

/-!
# Archives that are cut short

The first bytes of a block are no block: the reader misses a byte of the size, or bytes that the size
has announced (`readBlocksFrom_cutBlock`). The first bytes of a file are no file either. They end in
one of its two blocks, or between them, where the header has no payload (`read_cut`). All files before
the cut are read as if nothing followed them, so the first bytes of an archive are an archive exactly
if they end where a file ends (`read_take`).
-/

namespace SpectrumTape.Tape

/-! ### A block that is cut -/

/-- What is wrong with the first `kept` bytes of a block at an offset. -/
def Block.cutProblem (offset : Nat) (b : Block) (kept : Nat) : ArchiveProblem :=
  if kept < 2 then .shortLength offset
  else .missingBytes offset (b.content.length + 2) (kept - 2)

theorem readBlocksFrom_cutBlock (offset : Nat) {b : Block} (hb : b.Fits) {kept : Nat}
    (hpos : 0 < kept) (hkept : kept < b.bytes.length) :
    readBlocksFrom offset (b.bytes.take kept) = .error (b.cutProblem offset kept) := by
  have hsize : b.content.length ≤ 65533 := hb
  have hbytes : b.bytes = UInt8.ofNat (UInt16.ofNat (b.content.length + 2)).toNat ::
      UInt8.ofNat ((UInt16.ofNat (b.content.length + 2)).toNat / 256) :: b.raw := rfl
  rw [Block.length_bytes] at hkept
  rw [hbytes]
  match kept, hpos with
  | 1, _ =>
    rw [List.take_succ_cons, List.take_zero, readBlocksFrom]
    rfl
  | kept + 2, _ =>
    have hword : (UInt16.ofNat (b.content.length + 2)).toNat = b.content.length + 2 := by
      rw [UInt16.toNat_ofNat']
      omega
    have hlength : (b.raw.take kept).length = kept := by
      rw [List.length_take, Block.length_raw]
      omega
    have hmissing : ((b.raw.take kept).take (b.content.length + 2)).length < b.content.length + 2 := by
      rw [List.length_take, hlength]
      omega
    rw [List.take_succ_cons, List.take_succ_cons, readBlocksFrom]
    simp only [wordOfBytes_wordBytes]
    simp only [hword]
    rw [if_neg (by omega), if_pos hmissing, hlength, Block.cutProblem, if_neg (by omega),
      Nat.add_sub_cancel]

/-! ### What follows complete blocks and files -/

theorem readBlocksFrom_flatMap_append (offset : Nat) {blocks : List Block}
    (hblocks : ∀ b ∈ blocks, b.Fits) (rest : Bytes) :
    readBlocksFrom offset (blocks.flatMap Block.bytes ++ rest) =
      (readBlocksFrom (offset + (blocks.flatMap Block.bytes).length) rest).map (blocks ++ ·) := by
  induction blocks generalizing offset with
  | nil => cases h : readBlocksFrom offset rest <;> simp [h, Except.map]
  | cons b blocks ih =>
    obtain ⟨hb, hblocks⟩ := List.forall_mem_cons.mp hblocks
    have hoffset : offset + (2 + (b.content.length + 2)) + (blocks.flatMap Block.bytes).length =
        offset + (b.bytes ++ blocks.flatMap Block.bytes).length := by
      rw [List.length_append, Block.length_bytes]
      omega
    rw [List.flatMap_cons, List.append_assoc, readBlocksFrom_bytes_append offset hb, ih _ hblocks,
      hoffset]
    cases readBlocksFrom (offset + (b.bytes ++ blocks.flatMap Block.bytes).length) rest <;> rfl

theorem readBlocks_cut {blocks : List Block} (hblocks : ∀ b ∈ blocks, b.Fits) {b : Block}
    (hb : b.Fits) {kept : Nat} (hpos : 0 < kept) (hkept : kept < b.bytes.length) :
    readBlocks (blocks.flatMap Block.bytes ++ b.bytes.take kept) =
      .error (b.cutProblem (blocks.flatMap Block.bytes).length kept) := by
  rw [readBlocks, readBlocksFrom_flatMap_append 0 hblocks, Nat.zero_add,
    readBlocksFrom_cutBlock _ hb hpos hkept]
  rfl

theorem entriesFrom_flatMap_append (index : Nat) {entries : List Entry}
    (hentries : ∀ e ∈ entries, e.Fits) (rest : List Block) :
    entriesFrom index (entries.flatMap Entry.blocks ++ rest) =
      (entriesFrom (index + 2 * entries.length) rest).map (entries.map Entry.onTape ++ ·) := by
  induction entries generalizing index with
  | nil => cases h : entriesFrom index rest <;> simp [h, Except.map]
  | cons e entries ih =>
    obtain ⟨he, hentries⟩ := List.forall_mem_cons.mp hentries
    have hindex : index + 2 + 2 * entries.length = index + 2 * (e :: entries).length := by
      rw [List.length_cons]
      omega
    rw [List.flatMap_cons, List.append_assoc, entriesFrom_blocks_append index he, ih _ hentries,
      hindex]
    cases entriesFrom (index + 2 * (e :: entries).length) rest <;> rfl

/-! ### A file that is cut -/

namespace Entry

def headerBlock (e : Entry) : Block := ⟨Block.headerMarker, e.header⟩

def dataBlock (e : Entry) : Block := ⟨Block.dataMarker, e.payload⟩

theorem bytes_eq (e : Entry) : e.bytes = e.headerBlock.bytes ++ e.dataBlock.bytes := by
  simp [bytes, blocks, headerBlock, dataBlock]

theorem length_headerBlock (e : Entry) : e.headerBlock.bytes.length = 21 := by
  rw [Block.length_bytes, headerBlock, length_header]
  rfl

/-- What is wrong with the first `kept` bytes of a file at an offset, whose header is block `index` of
the archive. -/
def cutProblem (offset index : Nat) (e : Entry) (kept : Nat) : ArchiveProblem :=
  if kept < 21 then e.headerBlock.cutProblem offset kept
  else if kept = 21 then .noData index
  else e.dataBlock.cutProblem (offset + 21) (kept - 21)

end Entry

/-- The first bytes of a file behind complete ones. -/
theorem read_cut {before : List Entry} (hbefore : ∀ e ∈ before, e.Fits) {e : Entry} (he : e.Fits)
    {kept : Nat} (hpos : 0 < kept) (hkept : kept < e.bytes.length) :
    read (before.flatMap Entry.bytes ++ e.bytes.take kept) =
      .error (e.cutProblem (before.flatMap Entry.bytes).length (2 * before.length) kept) := by
  have hfit : ∀ b ∈ before.flatMap Entry.blocks, b.Fits := by
    intro b hb
    obtain ⟨f, hf, hbf⟩ := List.mem_flatMap.mp hb
    exact Entry.blocks_fit (hbefore f hf) b hbf
  have hfitHeader : ∀ b ∈ before.flatMap Entry.blocks ++ [e.headerBlock], b.Fits :=
    List.forall_mem_append.mpr ⟨hfit, List.forall_mem_singleton.mpr e.header_fits⟩
  have hheader := e.length_headerBlock
  rw [e.bytes_eq, List.length_append, hheader] at hkept
  rw [e.bytes_eq, ← flatMap_flatMap_blocks]
  unfold Entry.cutProblem
  split_ifs with hfirst hbetween
  · rw [List.take_append_of_le_length (by omega)]
    have hcut := readBlocks_cut hfit (b := e.headerBlock) e.header_fits hpos (by omega)
    exact bind_eq_error_iff.mpr (Or.inl hcut)
  · -- Both the files before the cut and the header are read, but no payload follows.
    have hblocks : readBlocks ((before.flatMap Entry.blocks).flatMap Block.bytes ++
        (e.headerBlock.bytes ++ e.dataBlock.bytes).take kept) =
          .ok (before.flatMap Entry.blocks ++ [e.headerBlock]) := by
      rw [List.take_left' (by omega)]
      refine readBlocks_eq_ok_iff.mpr ⟨hfitHeader, ?_⟩
      rw [List.flatMap_append, List.flatMap_singleton]
    have hentries : entriesFrom 0 (before.flatMap Entry.blocks ++ [e.headerBlock]) =
        .error (.noData (2 * before.length)) := by
      rw [entriesFrom_flatMap_append 0 hbefore, Nat.zero_add, entriesFrom]
      simp [Entry.headerBlock, e.length_header, Except.map]
    exact bind_eq_error_iff.mpr (Or.inr ⟨_, hblocks, hentries⟩)
  · have hbehind : kept - 21 < e.dataBlock.bytes.length := by omega
    have hcut := readBlocks_cut hfitHeader (b := e.dataBlock) he (by omega) hbehind
    rw [List.flatMap_append, List.flatMap_singleton, List.length_append, hheader,
      List.append_assoc] at hcut
    rw [List.take_append, List.take_of_length_le (by omega), hheader]
    exact bind_eq_error_iff.mpr (Or.inl hcut)

/-! ### An archive that is cut -/

theorem exists_take_flatMap {α : Type} (f : α → Bytes) {l : List α} {place : Nat}
    (hplace : place < (l.flatMap f).length) :
    ∃ before a after kept, l = before ++ a :: after ∧ kept < (f a).length ∧
      place = (before.flatMap f).length + kept ∧
      (l.flatMap f).take place = before.flatMap f ++ (f a).take kept := by
  induction l generalizing place with
  | nil => simp at hplace
  | cons a l ih =>
    rw [List.flatMap_cons, List.length_append] at hplace
    by_cases hhere : place < (f a).length
    · refine ⟨[], a, l, place, rfl, hhere, by simp, ?_⟩
      rw [List.flatMap_cons, List.take_append_of_le_length hhere.le]
      rfl
    · have hlater : place - (f a).length < (l.flatMap f).length := by omega
      obtain ⟨before, b, after, kept, rfl, hkept, hrest, htake⟩ := ih hlater
      refine ⟨a :: before, b, after, kept, rfl, hkept, ?_, ?_⟩
      · rw [List.flatMap_cons, List.length_append]
        omega
      · rw [List.flatMap_cons, List.take_append, List.take_of_length_le (by omega), htake,
          List.flatMap_cons, List.append_assoc]

theorem onTape_of_read {data : Bytes} {entries : List Entry} (h : read data = .ok entries) :
    ∀ e ∈ entries, e.onTape = e := by
  obtain ⟨hfits, rfl⟩ := eq_flatMap_of_read h
  have hsame := Except.ok.inj ((read_flatMap entries hfits).symm.trans h)
  exact List.map_inj_left.mp (hsame.trans (List.map_id entries).symm)

/-- Whether the first `count` files, written one behind the other, end at a place. -/
def EndsAt (entries : List Entry) (count place : Nat) : Prop :=
  ∃ part, serializeAll (entries.take count) = .ok part ∧ part.length = place

theorem read_take_of_endsAt {data : Bytes} {entries : List Entry} (h : read data = .ok entries)
    {count place : Nat} (hends : EndsAt entries count place) :
    read (data.take place) = .ok (entries.take count) := by
  obtain ⟨part, hpart, rfl⟩ := hends
  obtain ⟨hfits, rfl⟩ := serializeAll_eq_ok hpart
  obtain ⟨-, rfl⟩ := eq_flatMap_of_read h
  have hsplit : entries.flatMap Entry.bytes =
      (entries.take count).flatMap Entry.bytes ++ (entries.drop count).flatMap Entry.bytes := by
    rw [← List.flatMap_append, List.take_append_drop]
  have hsame : (entries.take count).map Entry.onTape = entries.take count := by
    rw [List.map_congr_left fun e he => onTape_of_read h e (List.mem_of_mem_take he), List.map_id']
  rw [hsplit, List.take_left, read_flatMap _ hfits, hsame]

/-- **The first bytes of an archive are an archive exactly if they end with a file**, and then they are
the archive of the files up to there. All other places lie inside a file, and the reader says what it
misses there. -/
theorem read_take {data : Bytes} {entries : List Entry} (h : read data = .ok entries) {place : Nat}
    (hplace : place < data.length) :
    (∀ found, read (data.take place) = .ok found ↔
      ∃ count, EndsAt entries count place ∧ found = entries.take count) ∧
    ((∀ count, ¬EndsAt entries count place) →
      ∃ before e after kept problem, entries = before ++ e :: after ∧
        place = (before.flatMap Entry.bytes).length + kept ∧ 0 < kept ∧ kept < e.bytes.length ∧
        problem = e.cutProblem (before.flatMap Entry.bytes).length (2 * before.length) kept ∧
        utf8 "invalid tap archive: " <+: problem.message ∧
        read (data.take place) = .error problem) := by
  obtain ⟨hfits, hdata⟩ := eq_flatMap_of_read h
  rw [hdata] at hplace
  obtain ⟨before, e, after, kept, hentries, hkept, hsum, htake⟩ :=
    exists_take_flatMap Entry.bytes hplace
  rw [← hdata] at htake
  have hbefore : ∀ f ∈ before, f.Fits := fun f hf => hfits f (hentries ▸ List.mem_append_left _ hf)
  have he : e.Fits := hfits e (hentries ▸ List.mem_append_right _ List.mem_cons_self)
  rcases Nat.eq_zero_or_pos kept with rfl | hpos
  · -- Nothing of the next file is left, so the cut is where the files before it end.
    have hends : EndsAt entries before.length place := by
      refine ⟨_, ?_, hsum.symm⟩
      rw [hentries, List.take_left]
      exact serializeAll_of_fits hbefore
    refine ⟨fun found => ⟨fun hfound => ?_, ?_⟩, fun hnone => absurd hends (hnone _)⟩
    · rw [read_take_of_endsAt h hends] at hfound
      exact ⟨_, hends, (Except.ok.inj hfound).symm⟩
    · rintro ⟨count, hcount, rfl⟩
      exact read_take_of_endsAt h hcount
  · have hread := read_cut hbefore he hpos hkept
    rw [← htake] at hread
    refine ⟨fun found => ⟨fun hfound => ?_, ?_⟩, fun _ => ?_⟩
    · rw [hread] at hfound
      cases hfound
    · rintro ⟨count, hcount, rfl⟩
      exact read_take_of_endsAt h hcount
    · exact ⟨before, e, after, kept, _, hentries, hsum, hpos, hkept, rfl, List.prefix_append _ _, hread⟩

theorem read_take_awkwardFiles :
    let files := awkwardFiles.map Entry.onTape
    let data := awkwardFiles.flatMap Entry.bytes
    read data = .ok files ∧ data.length = 52 ∧
      EndsAt files 1 27 ∧ read (data.take 27) = .ok (files.take 1) ∧
      (∀ count, ¬EndsAt files count 48) ∧
      ∃ problem, utf8 "invalid tap archive: " <+: problem.message ∧
        read (data.take 48) = .error problem := by
  intro files data
  have hfits : ∀ e ∈ awkwardFiles, e.Fits := by
    simp only [Entry.Fits]
    decide
  have hread : read data = .ok files := read_flatMap awkwardFiles hfits
  have hlength : data.length = 52 := by decide
  have hends : EndsAt files 1 27 := ⟨_, rfl, by decide⟩
  have hinside : ∀ count, ¬EndsAt files count 48 := by
    rintro count ⟨part, hpart, hplace⟩
    obtain ⟨-, rfl⟩ := serializeAll_eq_ok hpart
    match count with
    | 0 => exact absurd hplace (by decide)
    | 1 => exact absurd hplace (by decide)
    | count + 2 =>
      have hall : files.take (count + 2) = files := List.take_of_length_le (Nat.le_add_left 2 count)
      rw [hall] at hplace
      exact absurd hplace (by decide)
  obtain ⟨-, -, -, -, problem, -, -, -, -, -, hmessage, hcut⟩ :=
    (read_take hread (by omega : 48 < data.length)).2 hinside
  exact ⟨hread, hlength, hends, ((read_take hread (by omega)).1 _).mpr ⟨1, hends, rfl⟩, hinside,
    problem, hmessage, hcut⟩

end SpectrumTape.Tape
