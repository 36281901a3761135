import SpectrumTape.Proofs.Tape.Format

/-!
# Damaged archives

Behind its size a block has bytes of which the exclusive or is zero. Changing one byte changes the
exclusive or (`foldl_xor_set`), so the checksum of a block with one byte changed is wrong
(`readBlocksFrom_damagedBlock`). As long as no size is changed, the reader comes to the damaged block
with all blocks before it read, and stops there (`readBlocks_damaged`).
-/

namespace SpectrumTape.Tape

/-! ### Checksums -/

theorem foldl_xor_set {s : Bytes} {i : Nat} (hi : i < s.length) (c start : UInt8) :
    (s.set i c).foldl (· ^^^ ·) start = s.foldl (· ^^^ ·) start ^^^ (s[i] ^^^ c) := by
  induction s generalizing i start with
  | nil => simp at hi
  | cons d s ih =>
    cases i with
    | zero =>
      have hchange : start ^^^ c = (d ^^^ c) ^^^ (start ^^^ d) := by
        rw [UInt8.xor_comm start d, ← UInt8.xor_assoc, UInt8.xor_assoc d c d, UInt8.xor_comm c d,
          ← UInt8.xor_assoc, UInt8.xor_self, UInt8.zero_xor, UInt8.xor_comm]
      rw [List.set_cons_zero, List.foldl_cons, List.foldl_cons, hchange, List.foldl_assoc,
        UInt8.xor_comm]
      rfl
    | succ i => exact ih (by simpa using hi) _

theorem foldl_xor_set_ne_zero {s : Bytes} {i : Nat} (hi : i < s.length) {c : UInt8} (hc : c ≠ s[i])
    (hs : s.foldl (· ^^^ ·) 0 = 0) : (s.set i c).foldl (· ^^^ ·) 0 ≠ 0 := by
  rw [foldl_xor_set hi, hs, UInt8.zero_xor, ne_eq, UInt8.xor_eq_zero_iff]
  exact hc.symm

/-- The checksum of a block is right exactly if the exclusive or of all its bytes is zero. -/
theorem checksum_blockOfBytes_iff {raw : Bytes} (hraw : 2 ≤ raw.length) :
    (blockOfBytes raw).1.checksum = (blockOfBytes raw).2 ↔ raw.foldl (· ^^^ ·) 0 = 0 := by
  cases raw with
  | nil => simp at hraw
  | cons marker rest =>
    have hrest : rest ≠ [] := by
      rintro rfl
      simp at hraw
    rw [← List.dropLast_concat_getLast hrest, blockOfBytes_append, foldl_xor_block,
      UInt8.xor_eq_zero_iff]

namespace Block

/-- What lies behind the size of a block: its marker, its content and its checksum. -/
def raw (b : Block) : Bytes := b.marker :: (b.content ++ [b.checksum])

theorem length_raw (b : Block) : b.raw.length = b.content.length + 2 := by
  simp [raw]

theorem length_bytes (b : Block) : b.bytes.length = b.content.length + 4 := by
  simp [bytes, wordBytes]

theorem foldl_xor_raw (b : Block) : b.raw.foldl (· ^^^ ·) 0 = 0 := by
  rw [raw, foldl_xor_block, UInt8.xor_self]

theorem set_bytes (b : Block) (j : Nat) (c : UInt8) :
    b.bytes.set (j + 2) c = wordBytes (UInt16.ofNat (b.content.length + 2)) ++ b.raw.set j c := rfl

end Block

/-! ### The damaged block -/

theorem readBlocksFrom_damagedBlock (offset : Nat) {b : Block} (hb : b.Fits) {j : Nat}
    (hj : j < b.raw.length) {c : UInt8} (hc : c ≠ b.raw[j]) (rest : Bytes) :
    ∃ expected found, expected ≠ found ∧
      readBlocksFrom offset (b.bytes.set (j + 2) c ++ rest) =
        .error (.wrongChecksum offset expected found) := by
  have hsize : b.content.length ≤ 65533 := hb
  have hword : (UInt16.ofNat (b.content.length + 2)).toNat = b.content.length + 2 := by
    rw [UInt16.toNat_ofNat']
    omega
  have hlength : (b.raw.set j c).length = b.content.length + 2 := by
    rw [List.length_set, Block.length_raw]
  have hwrong : (blockOfBytes (b.raw.set j c)).1.checksum ≠ (blockOfBytes (b.raw.set j c)).2 := by
    rw [ne_eq, checksum_blockOfBytes_iff (by omega)]
    exact foldl_xor_set_ne_zero hj hc b.foldl_xor_raw
  refine ⟨_, _, hwrong, ?_⟩
  rw [Block.set_bytes, wordBytes, List.append_assoc, List.cons_append, List.cons_append,
    List.nil_append, readBlocksFrom]
  simp only [wordOfBytes_wordBytes]
  simp only [hword]
  rw [List.take_left' hlength, if_neg (by omega), if_neg (by omega), if_pos (by simpa using hwrong)]

/-! ### The damaged archive -/

/-- The places of the sizes of blocks that lie one behind the other from an offset on. -/
def sizePlaces (offset : Nat) : List Block → List Nat
  | [] => []
  | b :: blocks => offset :: (offset + 1) :: sizePlaces (offset + (b.content.length + 4)) blocks

theorem readBlocksFrom_damaged (offset : Nat) {blocks : List Block} (hblocks : ∀ b ∈ blocks, b.Fits)
    {i : Nat} (hi : i < (blocks.flatMap Block.bytes).length)
    (hplace : offset + i ∉ sizePlaces offset blocks) {c : UInt8}
    (hc : c ≠ (blocks.flatMap Block.bytes)[i]) :
    ∃ before b after expected found, blocks = before ++ b :: after ∧ expected ≠ found ∧
      (before.flatMap Block.bytes).length + 2 ≤ i ∧
      i < (before.flatMap Block.bytes).length + b.bytes.length ∧
      readBlocksFrom offset ((blocks.flatMap Block.bytes).set i c) =
        .error (.wrongChecksum (offset + (before.flatMap Block.bytes).length) expected found) := by
  induction blocks generalizing offset i with
  | nil => simp at hi
  | cons b blocks ih =>
    obtain ⟨hb, hblocks⟩ := List.forall_mem_cons.mp hblocks
    simp only [sizePlaces, List.mem_cons, not_or] at hplace
    obtain ⟨hfirst, hsecond, hplace⟩ := hplace
    simp only [List.flatMap_cons] at hi hc ⊢
    have hlength := b.length_bytes
    by_cases hhere : i < b.bytes.length
    · -- The byte belongs to the first block, and it is none of the two bytes of its size.
      obtain ⟨j, rfl⟩ : ∃ j, i = j + 2 := ⟨i - 2, by omega⟩
      have hj : j < b.raw.length := by
        rw [Block.length_raw]
        omega
      rw [List.getElem_append_left hhere] at hc
      obtain ⟨expected, found, hne, hread⟩ := readBlocksFrom_damagedBlock offset hb hj hc
        (blocks.flatMap Block.bytes)
      refine ⟨[], b, blocks, expected, found, rfl, hne, by simp, by simpa using hhere, ?_⟩
      rw [List.set_append_left _ _ hhere]
      exact hread
    · obtain ⟨k, rfl⟩ : ∃ k, i = b.bytes.length + k := ⟨i - b.bytes.length, by omega⟩
      have hk : k < (blocks.flatMap Block.bytes).length := by
        rw [List.length_append] at hi
        omega
      have hplace' : offset + (b.content.length + 4) + k ∉
          sizePlaces (offset + (b.content.length + 4)) blocks := by
        rwa [hlength, ← Nat.add_assoc offset (b.content.length + 4) k] at hplace
      have hc' : c ≠ (blocks.flatMap Block.bytes)[k] := by
        simpa using hc
      obtain ⟨before, b', after, expected, found, rfl, hne, hlow, hhigh, hread⟩ :=
        ih (offset + (b.content.length + 4)) hblocks hk hplace' hc'
      refine ⟨b :: before, b', after, expected, found, rfl, hne, ?_, ?_, ?_⟩
      · simp only [List.flatMap_cons, List.length_append]
        omega
      · simp only [List.flatMap_cons, List.length_append]
        omega
      · have hoffset : offset + (2 + (b.content.length + 2)) = offset + (b.content.length + 4) := by
          omega
        rw [List.set_append_right _ _ (by omega), Nat.add_sub_cancel_left,
          readBlocksFrom_bytes_append offset hb, hoffset, hread, List.flatMap_cons,
          List.length_append, hlength, Nat.add_assoc]
        rfl

/-- **No changed byte goes unnoticed**, unless it belongs to the size of a block. The reader reports a
wrong checksum at the block of that byte. -/
theorem readBlocks_damaged {data : Bytes} {blocks : List Block} (h : readBlocks data = .ok blocks)
    {i : Nat} (hi : i < data.length) (hplace : i ∉ sizePlaces 0 blocks) {c : UInt8}
    (hc : c ≠ data[i]) :
    ∃ before b after problem, blocks = before ++ b :: after ∧
      (before.flatMap Block.bytes).length + 2 ≤ i ∧
      i < (before.flatMap Block.bytes).length + b.bytes.length ∧
      (∃ expected found, expected ≠ found ∧
        problem = .wrongChecksum (before.flatMap Block.bytes).length expected found) ∧
      utf8 "invalid tap archive: " <+: problem.message ∧
      readBlocks (data.set i c) = .error problem ∧ read (data.set i c) = .error problem := by
  obtain ⟨hfits, rfl⟩ := readBlocks_eq_ok_iff.mp h
  obtain ⟨before, b, after, expected, found, hblocks, hne, hlow, hhigh, hread⟩ :=
    readBlocksFrom_damaged 0 hfits hi (by rwa [Nat.zero_add]) hc
  rw [Nat.zero_add] at hread
  refine ⟨before, b, after, _, hblocks, hlow, hhigh, ⟨expected, found, hne, rfl⟩,
    List.prefix_append _ _, hread, ?_⟩
  exact bind_eq_error_iff.mpr (Or.inl hread)

/-- A memory block of two bytes. -/
def pairFile : Entry := .ofCode [0x41] [7, 8] 32768

theorem readBlocks_damaged_pairFile :
    readBlocks pairFile.bytes = .ok pairFile.blocks ∧ pairFile.bytes[24]? = some 7 ∧
      24 ∉ sizePlaces 0 pairFile.blocks ∧
      ∃ problem, utf8 "invalid tap archive: " <+: problem.message ∧
        readBlocks (pairFile.bytes.set 24 9) = .error problem ∧
        read (pairFile.bytes.set 24 9) = .error problem := by
  have hread : readBlocks pairFile.bytes = .ok pairFile.blocks :=
    readBlocks_eq_ok_iff.mpr ⟨Entry.blocks_fit (by decide : pairFile.payload.length ≤ 65533), rfl⟩
  have hplace : 24 ∉ sizePlaces 0 pairFile.blocks := by decide
  have hlength : 24 < pairFile.bytes.length := by decide
  have hbyte : pairFile.bytes[24] = 7 := rfl
  obtain ⟨-, -, -, problem, -, -, -, -, hmessage, hblocks, hfiles⟩ :=
    readBlocks_damaged hread hlength hplace (by rw [hbyte]; decide : (9 : UInt8) ≠ pairFile.bytes[24])
  exact ⟨hread, rfl, hplace, problem, hmessage, hblocks, hfiles⟩

end SpectrumTape.Tape
