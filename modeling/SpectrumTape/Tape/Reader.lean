import SpectrumTape.Tape.Block

/-!
# Reading a tape

An archive is accepted if it is made of complete blocks with right checksums, and if these are
headers and payloads in turn whose sizes agree.
-/

namespace SpectrumTape.Tape

/-- Why an archive is not accepted. -/
inductive ArchiveProblem where
  | shortLength (offset : Nat)
  | shortBlock (offset size : Nat)
  | missingBytes (offset size available : Nat)
  | wrongChecksum (offset : Nat) (expected found : UInt8)
  | noHeader (index : Nat)
  | noData (index : Nat)
  | wrongSize (index declared found : Nat)
  deriving DecidableEq, Repr, Inhabited

def ArchiveProblem.message (p : ArchiveProblem) : Bytes :=
  "invalid tap archive: " ++
    match p with
    | .shortLength offset => "truncated block length at offset " ++ Bytes.decimal offset
    | .shortBlock offset size =>
      "block at offset " ++ Bytes.decimal offset ++ " is too short (" ++ Bytes.decimal size ++
        " bytes)"
    | .missingBytes offset size available =>
      "block at offset " ++ Bytes.decimal offset ++ " declares " ++ Bytes.decimal size ++
        " bytes, " ++ Bytes.decimal available ++ " available"
    | .wrongChecksum offset expected found =>
      "checksum mismatch in block at offset " ++ Bytes.decimal offset ++ " (expected " ++
        Bytes.hexLower 2 expected.toNat ++ ", got " ++ Bytes.hexLower 2 found.toNat ++ ")"
    | .noHeader index => "block " ++ Bytes.decimal index ++ " is not a header"
    | .noData index => "header block " ++ Bytes.decimal index ++ " has no data block"
    | .wrongSize index declared found =>
      "header block " ++ Bytes.decimal index ++ " declares " ++ Bytes.decimal declared ++
        " bytes, data block has " ++ Bytes.decimal found

/-- The block in the bytes behind its size, of which there are at least two, and the checksum it
comes with. -/
def blockOfBytes (raw : Bytes) : Block × UInt8 :=
  (⟨raw.headD 0, (raw.drop 1).dropLast⟩, raw.getLastD 0)

def readBlocksFrom (offset : Nat) : Bytes → Except ArchiveProblem (List Block)
  | [] => .ok []
  | [_] => .error (.shortLength offset)
  | low :: high :: rest =>
    let size := (wordOfBytes low high).toNat
    let raw := rest.take size
    if size < 2 then .error (.shortBlock offset size)
    else if raw.length < size then .error (.missingBytes offset size rest.length)
    else
      let (block, found) := blockOfBytes raw
      if block.checksum != found then .error (.wrongChecksum offset block.checksum found)
      else
        match readBlocksFrom (offset + (2 + size)) (rest.drop size) with
        | .ok blocks => .ok (block :: blocks)
        | .error e => .error e
termination_by data => data.length
decreasing_by simp only [List.length_drop, List.length_cons]; omega

def readBlocks (data : Bytes) : Except ArchiveProblem (List Block) := readBlocksFrom 0 data

/-- The parameters that two words are for a type of file. -/
def paramsOfWords (type : FileType) (first second : UInt16) : Params :=
  if type = .program then .program first.toNat second.toNat
  else if type = .memory then .code first.toNat second.toNat
  else .generic first second

/-- The file of a header and a payload. Blanks at the end of the name are not part of it. -/
def entryOfHeader (header payload : Bytes) : Entry :=
  let type : FileType := ⟨header.headD 0⟩
  let word (i : Nat) := wordOfBytes (header.getD i 0) (header.getD (i + 1) 0)
  { name := (((header.drop 1).take maxNameLength).reverse.dropWhile (· == 0x20)).reverse
    type
    params := some (paramsOfWords type (word 13) (word 15))
    payload }

/-- The size of the payload that a header declares. -/
def declaredSize (header : Bytes) : Nat :=
  (wordOfBytes (header.getD 11 0) (header.getD 12 0)).toNat

/-- The files of a list of blocks, the first of which is block `index` of the archive. -/
def entriesFrom (index : Nat) : List Block → Except ArchiveProblem (List Entry)
  | [] => .ok []
  | header :: rest =>
    if header.marker != Block.headerMarker || header.content.length != Entry.headerSize then
      .error (.noHeader index)
    else
      match rest with
      | [] => .error (.noData index)
      | data :: rest =>
        if data.marker != Block.dataMarker then .error (.noData index)
        else
          let declared := declaredSize header.content
          if declared != data.content.length then
            .error (.wrongSize index declared data.content.length)
          else
            match entriesFrom (index + 2) rest with
            | .ok entries => .ok (entryOfHeader header.content data.content :: entries)
            | .error e => .error e

def read (data : Bytes) : Except ArchiveProblem (List Entry) := do
  entriesFrom 0 (← readBlocks data)

end SpectrumTape.Tape
