import SpectrumTape.Tape.Reader
import Mathlib.Tactic.Common

/-!
# Blocks are read back as they are written

`Block.bytes` are the bytes of a block that is not too large. The reader and the writer of blocks
are inverse to each other (`readBlocks_eq_ok_iff`): an archive is accepted as a list of blocks
exactly if it is the bytes of these blocks, one behind the other, and each of them fits.

The writer side goes block by block, since the reader takes exactly the bytes of the first block
whatever follows it (`readBlocksFrom_bytes_append`). For the reader side, each step of the reader
gives back the bytes it took (`bytes_blockOfBytes`).
-/

namespace SpectrumTape.Tape

/-! ## Words -/

theorem wordOfBytes_wordBytes (w : UInt16) :
    wordOfBytes (UInt8.ofNat w.toNat) (UInt8.ofNat (w.toNat / 256)) = w := by
  have hw := w.toNat_lt
  apply UInt16.toNat_inj.mp
  simp only [wordOfBytes, UInt8.toNat_ofNat', UInt16.toNat_ofNat']
  omega

theorem wordBytes_wordOfBytes (low high : UInt8) :
    wordBytes (wordOfBytes low high) = [low, high] := by
  have hlow := low.toNat_lt
  have hhigh := high.toNat_lt
  have hword : (low.toNat + high.toNat * 256) % 2 ^ 16 = low.toNat + high.toNat * 256 := by omega
  simp only [wordBytes, wordOfBytes, UInt16.toNat_ofNat', hword, List.cons.injEq, and_true]
  constructor <;> apply UInt8.toNat_inj.mp <;> rw [UInt8.toNat_ofNat'] <;> omega

theorem toNat_wordOfBytes (low high : UInt8) :
    (wordOfBytes low high).toNat = low.toNat + high.toNat * 256 := by
  have hlow := low.toNat_lt
  have hhigh := high.toNat_lt
  rw [wordOfBytes, UInt16.toNat_ofNat']
  omega

/-! ## One block -/

namespace Block

/-- Whether the size of a block can be written in a word. -/
def Fits (b : Block) : Prop := b.content.length ≤ maxBlockContent

def bytes (b : Block) : Bytes :=
  wordBytes (UInt16.ofNat (b.content.length + 2)) ++ b.marker :: (b.content ++ [b.checksum])

theorem serialize_eq_ok_iff {b : Block} {out : Bytes} :
    b.serialize = .ok out ↔ b.Fits ∧ out = b.bytes := by
  unfold serialize Fits bytes
  split
  · simp; omega
  · simp only [Except.ok.injEq, eq_comm (a := out), iff_and_self]
    omega

end Block

theorem blockOfBytes_append (marker sum : UInt8) (content : Bytes) :
    blockOfBytes (marker :: (content ++ [sum])) = (⟨marker, content⟩, sum) := by
  simp only [blockOfBytes, List.headD_cons, List.drop_succ_cons, List.drop_zero,
    List.dropLast_concat]
  rw [← List.cons_append, List.getLastD_concat]

theorem readBlocksFrom_bytes_append (offset : Nat) {b : Block} (hb : b.Fits) (rest : Bytes) :
    readBlocksFrom offset (b.bytes ++ rest) =
      (readBlocksFrom (offset + (2 + (b.content.length + 2))) rest).map (b :: ·) := by
  have hsize : b.content.length ≤ 65533 := hb
  have hword : (UInt16.ofNat (b.content.length + 2)).toNat = b.content.length + 2 := by
    rw [UInt16.toNat_ofNat']; omega
  have hlength : (b.marker :: (b.content ++ [b.checksum])).length = b.content.length + 2 := by simp
  rw [Block.bytes, wordBytes, List.append_assoc, List.cons_append, List.cons_append,
    List.nil_append, readBlocksFrom]
  simp only [wordOfBytes_wordBytes]
  simp only [hword]
  rw [List.take_left' hlength, List.drop_left' hlength, blockOfBytes_append]
  rw [if_neg (by omega), if_neg (by omega), if_neg (by simp)]
  cases readBlocksFrom (offset + (2 + (b.content.length + 2))) rest <;> rfl

theorem bytes_blockOfBytes (low high : UInt8) {raw : Bytes}
    (hsize : 2 ≤ (wordOfBytes low high).toNat) (hraw : raw.length = (wordOfBytes low high).toNat)
    (hsum : (blockOfBytes raw).1.checksum = (blockOfBytes raw).2) :
    (blockOfBytes raw).1.Fits ∧ low :: high :: raw = (blockOfBytes raw).1.bytes := by
  obtain ⟨marker, content, sum, rfl⟩ : ∃ marker content sum, raw = marker :: (content ++ [sum]) := by
    cases raw with
    | nil => simp at hraw; omega
    | cons marker rest =>
      have hrest : rest ≠ [] := by
        rintro rfl
        simp at hraw
        omega
      exact ⟨marker, rest.dropLast, rest.getLast hrest, by rw [List.dropLast_concat_getLast]⟩
  rw [blockOfBytes_append] at hsum ⊢
  have hlength : content.length + 2 = (wordOfBytes low high).toNat := by simpa using hraw
  have hword := (wordOfBytes low high).toNat_lt
  have hfits : content.length ≤ 65533 := by omega
  refine ⟨hfits, ?_⟩
  simp only at hsum
  rw [Block.bytes, hlength, UInt16.ofNat_toNat, wordBytes_wordOfBytes, hsum]
  rfl

/-! ## All blocks -/

theorem eq_flatMap_of_readBlocksFrom (offset : Nat) (data : Bytes) (blocks : List Block)
    (hread : readBlocksFrom offset data = .ok blocks) :
    (∀ b ∈ blocks, b.Fits) ∧ data = blocks.flatMap Block.bytes := by
  fun_induction readBlocksFrom offset data generalizing blocks with
  | case1 offset =>
    cases hread
    simp
  | case2 => simp at hread
  | case3 => simp at hread
  | case4 => simp at hread
  | case5 => simp at hread
  | case6 offset low high rest size raw hsize hraw block found hblock hsum more hmore ih =>
    cases hread
    obtain ⟨hfits, hrest⟩ := ih more hmore
    have hlength : raw.length = size := by
      have : raw.length ≤ size := List.length_take_le _ _
      omega
    obtain ⟨hblockFits, hbytes⟩ :=
      bytes_blockOfBytes low high (by omega) hlength (by simpa [hblock] using hsum)
    rw [hblock] at hblockFits hbytes
    refine ⟨List.forall_mem_cons.mpr ⟨hblockFits, hfits⟩, ?_⟩
    rw [List.flatMap_cons, ← hrest, ← hbytes, List.cons_append, List.cons_append,
      List.take_append_drop]
  | case7 => simp at hread

theorem readBlocksFrom_flatMap (offset : Nat) (blocks : List Block) (hfits : ∀ b ∈ blocks, b.Fits) :
    readBlocksFrom offset (blocks.flatMap Block.bytes) = .ok blocks := by
  induction blocks generalizing offset with
  | nil => simp [readBlocksFrom]
  | cons b blocks ih =>
    obtain ⟨hb, hblocks⟩ := List.forall_mem_cons.mp hfits
    rw [List.flatMap_cons, readBlocksFrom_bytes_append offset hb, ih _ hblocks]
    rfl

/-- An archive is read as a list of blocks exactly if it is made of their bytes. -/
theorem readBlocks_eq_ok_iff {data : Bytes} {blocks : List Block} :
    readBlocks data = .ok blocks ↔ (∀ b ∈ blocks, b.Fits) ∧ data = blocks.flatMap Block.bytes := by
  constructor
  · exact eq_flatMap_of_readBlocksFrom 0 data blocks
  · rintro ⟨hfits, rfl⟩
    exact readBlocksFrom_flatMap 0 blocks hfits

end SpectrumTape.Tape
