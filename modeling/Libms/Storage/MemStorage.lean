import Mathlib
import Libms.Framework.CInt

/-! # The memory storage

    `ms_mem_storage.c`: a file cached in pieces of 16 KiB, kept in a table
    of 2 MiB blocks. A block and each of its piece buffers is allocated by
    the first write that needs it and freed by `clear_buffer_for`.

    Offsets of blocks and pieces are formed in C from `int` operands. The
    functions that do so take the evaluation of an `int` expression as a
    parameter `w : IntArith`: `exactInt` for exact integers, `CInt.toInt32`
    for the 32-bit type. -/

namespace Libms

open CInt

/-! ## Units -/

/-- `MS_PIECE_UNIT_SIZE`, 16 KiB. Lemmas spell the three units out, so that
    index arithmetic is linear. -/
abbrev msPieceUnitSize : Nat := 16384

/-- `MS_BLOCK_UNIT_SIZE`, 2 MiB. -/
abbrev msBlockUnitSize : Nat := 2097152

/-- `MS_PIECE_NUM_OF_PER_BLOCK`, the quotient of the two. -/
abbrev msPieceNumOfPerBlock : Nat := 128

/-- How an expression of type `int` is evaluated. -/
abbrev IntArith : Type := Int → Int

/-- `int` expressions taken as exact integers. -/
abbrev exactInt : IntArith := fun z => z

/-- `block_num`: the number of blocks that cover `filesize` bytes. -/
def blockNum (filesize : Int) : Nat :=
  ((filesize + (msBlockUnitSize - 1 : Nat)) / msBlockUnitSize).toNat

/-- `block_index` -/
def blockIndex (pos : Nat) : Nat := pos / msBlockUnitSize

/-- `piece_index` -/
def pieceIndex (pos : Nat) : Nat := pos % msBlockUnitSize / msPieceUnitSize

/-- `index_for_block * MS_BLOCK_UNIT_SIZE`, an `int`. -/
def blockStart (w : IntArith) (indexForBlock : Nat) : Int :=
  w (indexForBlock * msBlockUnitSize)

/-- `index_for_block * MS_BLOCK_UNIT_SIZE + index_for_piece * MS_PIECE_UNIT_SIZE`, an `int`. -/
def pieceStart (w : IntArith) (indexForBlock indexForPiece : Nat) : Int :=
  w (blockStart w indexForBlock + indexForPiece * msPieceUnitSize)

section units

variable (filesize : Int) (pos : Nat)

theorem blockNum_eq : blockNum filesize = ((filesize + 2097151) / 2097152).toNat := rfl
theorem blockIndex_eq : blockIndex pos = pos / 2097152 := rfl
theorem pieceIndex_eq : pieceIndex pos = pos % 2097152 / 16384 := rfl

end units

/-! ## Blocks -/

/-- A piece buffer: `none` at an offset nothing was copied to since it was
    allocated. -/
abbrev PieceBuf : Type := Nat → Option UInt8

/-- A buffer fresh from `ms_malloc_piece_buf`. -/
def msMallocPieceBuf : PieceBuf := fun _ => none

/-- `struct ms_block`: the buffer of each piece, `none` for a null `buf`. -/
structure Block where
  pieces : Fin msPieceNumOfPerBlock → Option PieceBuf

/-- `malloc_block`: a zeroed block. -/
def mallocBlock : Block := ⟨fun _ => none⟩

namespace Block

/-- `block->pieces[i].buf` -/
def buf (b : Block) (i : Nat) : Option PieceBuf :=
  if h : i < msPieceNumOfPerBlock then b.pieces ⟨i, h⟩ else none

/-- `block->pieces[i].buf = v` -/
def setBuf (b : Block) (i : Nat) (v : Option PieceBuf) : Block :=
  ⟨fun j => if j.val = i then v else b.pieces j⟩

@[simp] theorem buf_mallocBlock (i : Nat) : mallocBlock.buf i = none := by
  simp [buf, mallocBlock]

@[simp] theorem buf_setBuf_self (b : Block) {i : Nat} (v : Option PieceBuf)
    (h : i < 128) : (b.setBuf i v).buf i = v := by
  simp [buf, setBuf, h]

@[simp] theorem buf_setBuf_ne (b : Block) {i j : Nat} (v : Option PieceBuf) (h : j ≠ i) :
    (b.setBuf i v).buf j = b.buf j := by
  simp [buf, setBuf, h]

end Block

/-! ## The storage -/

/-- `struct ms_mem_storage` without the bitmap. The table has one entry
    for each block of the estimated size, and a known size is also the
    estimated one. -/
structure MemStorage where
  filesize : Int
  estimateSize : Int
  completedSize : Int
  blocks : List (Option Block)
  sized : blocks.length = blockNum estimateSize
  known : 0 < filesize → estimateSize = filesize

/-- `ms_mem_storage_open`: everything zero, the table null. -/
def msMemStorageOpen : MemStorage where
  filesize := 0
  estimateSize := 0
  completedSize := 0
  blocks := []
  sized := rfl
  known := by simp

namespace MemStorage

/-- `mem_st->blocks[i] = b` -/
def setBlock (st : MemStorage) (i : Nat) (b : Option Block) : MemStorage :=
  { st with
    blocks := st.blocks.set i b
    sized := by rw [List.length_set]; exact st.sized }

/-- `mem_st->completed_size = n` -/
def setCompleted (st : MemStorage) (n : Int) : MemStorage :=
  { st with completedSize := n }

/-- The buffer of the `i`-th piece of the file, counted over all blocks. -/
def pieceAt (st : MemStorage) (i : Nat) : Option PieceBuf :=
  match st.blocks[i / msPieceNumOfPerBlock]? with
  | some (some b) => b.buf (i % msPieceNumOfPerBlock)
  | _ => none

/-- Piece `i` is cached: its buffer is allocated. -/
def cached (st : MemStorage) (i : Nat) : Bool := (st.pieceAt i).isSome

section simp

variable (st : MemStorage) (i : Nat) (b : Option Block) (n : Int)

@[simp] theorem setBlock_filesize : (st.setBlock i b).filesize = st.filesize := rfl
@[simp] theorem setBlock_estimateSize : (st.setBlock i b).estimateSize = st.estimateSize := rfl
@[simp] theorem setBlock_completedSize : (st.setBlock i b).completedSize = st.completedSize := rfl
@[simp] theorem setBlock_blocks : (st.setBlock i b).blocks = st.blocks.set i b := rfl
@[simp] theorem setCompleted_filesize : (st.setCompleted n).filesize = st.filesize := rfl
@[simp] theorem setCompleted_estimateSize :
    (st.setCompleted n).estimateSize = st.estimateSize := rfl
@[simp] theorem setCompleted_completedSize : (st.setCompleted n).completedSize = n := rfl
@[simp] theorem setCompleted_blocks : (st.setCompleted n).blocks = st.blocks := rfl
@[simp] theorem setCompleted_pieceAt (i : Nat) :
    (st.setCompleted n).pieceAt i = st.pieceAt i := rfl

end simp

theorem pieceAt_of_block {st : MemStorage} {i ib : Nat} {b : Block}
    (hb : st.blocks[ib]? = some (some b)) (hi : i / 128 = ib) :
    st.pieceAt i = b.buf (i % 128) := by
  simp only [pieceAt, hi, hb]

theorem pieceAt_of_null {st : MemStorage} {i ib : Nat}
    (hb : st.blocks[ib]? = some none) (hi : i / 128 = ib) :
    st.pieceAt i = none := by
  simp only [pieceAt, hi, hb]

theorem pieceAt_setBlock_ne (st : MemStorage) {i ib : Nat} (b : Option Block)
    (hi : i / 128 ≠ ib) : (st.setBlock ib b).pieceAt i = st.pieceAt i := by
  simp only [pieceAt, setBlock_blocks, List.getElem?_set_ne (Ne.symm hi)]

theorem pieceAt_setBlock_some (st : MemStorage) {i ib : Nat} (b : Block)
    (hib : ib < st.blocks.length) (hi : i / 128 = ib) :
    (st.setBlock ib (some b)).pieceAt i = b.buf (i % 128) :=
  pieceAt_of_block (by simp [hib]) hi

theorem pieceAt_setBlock_none (st : MemStorage) {i ib : Nat}
    (hi : i / 128 = ib) : (st.setBlock ib none).pieceAt i = none := by
  simp only [pieceAt, setBlock_blocks, hi, List.getElem?_set_self']
  cases st.blocks[ib]? <;> rfl

/-! ## Sizes -/

/-- `realloc_blocks`: the table grown to `new_size`, the added entries
    cleared. A table that would shrink makes the length given to `memset`
    wrap, which no run survives. `block_num` is an `int`: for a size of 2^52
    bytes or more, which has 2^31 blocks or more, this is not what the source
    does (`FitsCache`). -/
def reallocBlocks (st : MemStorage) (newSize : Int) : Option (List (Option Block)) :=
  let oldSize := if 0 < st.filesize then st.filesize else st.estimateSize
  if blockNum newSize < blockNum oldSize then none
  else some (st.blocks ++ List.replicate (blockNum newSize - blockNum oldSize) none)

/-- The estimate is the size once it is known. -/
theorem oldSize_eq (st : MemStorage) :
    (if 0 < st.filesize then st.filesize else st.estimateSize) = st.estimateSize := by
  split
  · rename_i hpos
    exact (st.known hpos).symm
  · rfl

theorem reallocBlocks_length {st : MemStorage} {newSize : Int} {blocks : List (Option Block)}
    (h : st.reallocBlocks newSize = some blocks) : blocks.length = blockNum newSize := by
  simp only [reallocBlocks, oldSize_eq] at h
  split at h
  · cases h
  · cases h
    have := st.sized
    simp only [List.length_append, List.length_replicate]
    omega

/-- `set_filesize`; `none` when an assert fails. -/
def setFilesize (st : MemStorage) (filesize : Int) : Option MemStorage :=
  if 0 < filesize ∧ st.filesize ≤ filesize then
    match h : st.reallocBlocks filesize with
    | none => none
    | some blocks => some
        { st with
          filesize := filesize
          estimateSize := filesize
          blocks := blocks
          sized := reallocBlocks_length h
          known := fun _ => rfl }
  else none

/-- `set_content_size` -/
def setContentSize (st : MemStorage) (pos size : Int) : Option MemStorage :=
  if h₀ : 0 < st.filesize then some st
  else if st.estimateSize < pos + size then
    match h : st.reallocBlocks (pos + size) with
    | none => none
    | some blocks => some
        { st with
          estimateSize := pos + size
          blocks := blocks
          sized := reallocBlocks_length h
          known := fun hpos => absurd hpos h₀ }
  else some st

theorem reallocBlocks_append {st : MemStorage} {newSize : Int} {blocks : List (Option Block)}
    (h : st.reallocBlocks newSize = some blocks) :
    ∃ n, blocks = st.blocks ++ List.replicate n none := by
  simp only [reallocBlocks] at h
  generalize (if 0 < st.filesize then st.filesize else st.estimateSize) = oldSize at h
  split at h
  · cases h
  · exact ⟨_, (Option.some.inj h).symm⟩

/-- Both calls leave the table with null entries behind it. -/
theorem setFilesize_blocks {st st' : MemStorage} {filesize : Int}
    (h : st.setFilesize filesize = some st') :
    ∃ n, st'.blocks = st.blocks ++ List.replicate n none := by
  unfold setFilesize at h
  split at h
  · split at h
    · cases h
    · rename_i blocks hblocks
      cases h
      exact reallocBlocks_append hblocks
  · cases h

theorem setContentSize_blocks {st st' : MemStorage} {pos size : Int}
    (h : st.setContentSize pos size = some st') :
    ∃ n, st'.blocks = st.blocks ++ List.replicate n none := by
  unfold setContentSize at h
  split at h
  · cases h
    exact ⟨0, (List.append_nil _).symm⟩
  · split at h
    · split at h
      · cases h
      · rename_i blocks hblocks
        cases h
        exact reallocBlocks_append hblocks
    · cases h
      exact ⟨0, (List.append_nil _).symm⟩

/-- Growing the table keeps what it holds. -/
theorem reallocBlocks_piece {st st' : MemStorage} {newSize : Int}
    (h : st.reallocBlocks newSize = some st'.blocks) (i : Nat) : st'.pieceAt i = st.pieceAt i := by
  simp only [reallocBlocks] at h
  generalize (if 0 < st.filesize then st.filesize else st.estimateSize) = oldSize at h
  split at h
  · cases h
  · have hblocks := Option.some.inj h
    simp only [pieceAt, msPieceNumOfPerBlock, ← hblocks]
    rcases Nat.lt_or_ge (i / 128) st.blocks.length with hi | hi
    · rw [List.getElem?_append_left hi]
    · -- behind the old table there are only null entries
      rw [List.getElem?_append_right hi, List.getElem?_eq_none hi, List.getElem?_replicate]
      by_cases hnew : i / 128 - st.blocks.length < blockNum newSize - blockNum oldSize
      · rw [if_pos hnew]
      · rw [if_neg hnew]

/-- What a successful `set_filesize` leaves. -/
theorem setFilesize_spec {st st' : MemStorage} {filesize : Int}
    (h : st.setFilesize filesize = some st') :
    st'.filesize = filesize ∧ st'.estimateSize = filesize ∧
      st'.completedSize = st.completedSize ∧ ∀ i, st'.pieceAt i = st.pieceAt i := by
  unfold setFilesize at h
  split at h
  · split at h
    · cases h
    · rename_i blocks hblocks
      cases h
      exact ⟨rfl, rfl, rfl, fun i => reallocBlocks_piece hblocks i⟩
  · cases h

/-- What a successful `set_content_size` leaves. -/
theorem setContentSize_spec {st st' : MemStorage} {pos size : Int}
    (h : st.setContentSize pos size = some st') :
    st'.filesize = st.filesize ∧
      st'.estimateSize =
        (if 0 < st.filesize then st.estimateSize else max st.estimateSize (pos + size)) ∧
      st'.completedSize = st.completedSize ∧ ∀ i, st'.pieceAt i = st.pieceAt i := by
  unfold setContentSize at h
  split at h
  · rename_i hknown
    cases h
    rw [if_pos hknown]
    exact ⟨rfl, rfl, rfl, fun _ => rfl⟩
  · rename_i hunknown
    rw [if_neg hunknown]
    split at h
    · rename_i hmore
      split at h
      · cases h
      · rename_i blocks hblocks
        cases h
        exact ⟨rfl, (max_eq_right hmore.le).symm, rfl, fun i => reallocBlocks_piece hblocks i⟩
    · rename_i hless
      cases h
      exact ⟨rfl, (max_eq_left (by omega)).symm, rfl, fun _ => rfl⟩

/-- The table is reallocated unless it would shrink. -/
theorem reallocBlocks_eq_none_iff {st : MemStorage} {newSize : Int} :
    st.reallocBlocks newSize = none ↔ blockNum newSize < blockNum st.estimateSize := by
  simp only [reallocBlocks, oldSize_eq]
  split
  · rename_i hshrink
    simp [hshrink]
  · rename_i hgrow
    simp [hgrow]

theorem blockNum_mono {n m : Int} (h : n ≤ m) : blockNum n ≤ blockNum m := by
  rw [blockNum_eq, blockNum_eq]
  omega

/-- `set_filesize` fails on an assert, or where the table would shrink. -/
theorem setFilesize_isSome_iff {st : MemStorage} {filesize : Int} :
    (∃ st', st.setFilesize filesize = some st') ↔
      (0 < filesize ∧ st.filesize ≤ filesize) ∧
        blockNum st.estimateSize ≤ blockNum filesize := by
  unfold setFilesize
  split
  · rename_i hassert
    split
    · rename_i hnone
      have := reallocBlocks_eq_none_iff.mp hnone
      constructor
      · rintro ⟨_, h⟩
        cases h
      · rintro ⟨_, h⟩
        omega
    · rename_i blocks hblocks
      refine ⟨fun _ => ⟨hassert, ?_⟩, fun _ => ⟨_, rfl⟩⟩
      by_contra hshrink
      have hnone := reallocBlocks_eq_none_iff.mpr (Nat.not_le.mp hshrink)
      rw [hblocks] at hnone
      cases hnone
  · rename_i hassert
    constructor
    · rintro ⟨_, h⟩
      cases h
    · rintro ⟨h, _⟩
      exact absurd h hassert

/-- `set_filesize` on a storage without a size succeeds for any positive size. -/
theorem setFilesize_open {filesize : Int} (h : 0 < filesize) :
    ∃ st, msMemStorageOpen.setFilesize filesize = some st :=
  setFilesize_isSome_iff.mpr ⟨⟨h, Int.le_of_lt h⟩, Nat.zero_le _⟩

/-- `set_content_size` always succeeds: it never shrinks the table. -/
theorem setContentSize_isSome (st : MemStorage) (pos size : Int) :
    ∃ st', st.setContentSize pos size = some st' := by
  unfold setContentSize
  split
  · exact ⟨st, rfl⟩
  · split
    · rename_i hmore
      split
      · rename_i hnone
        have hshrink := reallocBlocks_eq_none_iff.mp hnone
        have hgrow : blockNum st.estimateSize ≤ blockNum (pos + size) :=
          blockNum_mono (by omega)
        omega
      · exact ⟨_, rfl⟩
    · exact ⟨st, rfl⟩

end MemStorage

/-! ## Limits of the cache -/

/-- `max_cache_len` -/
abbrev maxCacheLen : Int := 20 * 1024 * 1024

/-- `max_cache_left` -/
abbrev maxCacheLeft : Int := 10 * 1024 * 1024

/-- `hold_head_size` -/
abbrev holdHeadSize : Int := 2 * 1024 * 1024

/-- `hold_size` -/
def holdSize (posCount : Nat) : Int := holdHeadSize + (maxCacheLeft + maxCacheLen) * posCount

/-- `hold_range_from`: the window `(from, end)` held for a reader at `pos`. -/
def holdRangeFrom (pos : Int) : Int × Int :=
  (if pos < maxCacheLeft then 0 else pos - maxCacheLeft, pos + maxCacheLen)

/-- `should_hold_block` -/
def shouldHoldBlock (w : IntArith) (indexForBlock : Nat) (holdPos : List Int) : Bool :=
  holdPos.any fun pos =>
    let (holdFrom, holdEnd) := holdRangeFrom pos
    let blockStart := blockStart w indexForBlock
    let blockEnd := blockStart + msBlockUnitSize
    holdFrom ≤ blockStart && blockEnd ≤ holdEnd

/-- `should_hold_piece` -/
def shouldHoldPiece (w : IntArith) (indexForBlock indexForPiece : Nat) (holdPos : List Int) :
    Bool :=
  holdPos.any fun pos =>
    let (holdFrom, holdEnd) := holdRangeFrom pos
    let pieceStart := pieceStart w indexForBlock indexForPiece
    let pieceEnd := pieceStart + msPieceUnitSize
    holdFrom ≤ pieceStart && pieceEnd ≤ holdEnd

/-- `piece_len`. The result is a `size_t` that both callers subtract modulo
    its width, so a negative difference keeps its sign here. -/
def pieceLen (w : IntArith) (filesize : Int) (indexForBlock indexForPiece : Nat) : Int :=
  let start := pieceStart w indexForBlock indexForPiece
  if start + msPieceUnitSize > filesize then filesize - start else msPieceUnitSize

namespace MemStorage

/-! ## `clear_buffer_for` -/

/-- The variables of the loop over the pieces of one block. -/
structure ClearLoop where
  block : Block
  bufCount : Nat
  releaseCount : Nat
  completedSize : Int
  releaseLen : Int

section clear

variable (w : IntArith) (holdPos : List Int)

/-- One piece: freed unless it is empty or held. -/
def clearPiece (filesize : Int) (ib ip : Nat) (l : ClearLoop) : ClearLoop :=
  match l.block.buf ip with
  | none => l
  | some _ =>
    if shouldHoldPiece w ib ip holdPos then { l with bufCount := l.bufCount + 1 }
    else
      { block := l.block.setBuf ip none
        bufCount := l.bufCount + 1
        releaseCount := l.releaseCount + 1
        completedSize := l.completedSize - pieceLen w filesize ib ip
        releaseLen := toInt32 (l.releaseLen - pieceLen w filesize ib ip) }

/-- The loop over the last `n` pieces of block `ib`, from piece `ip` on. -/
def clearPieces (filesize : Int) (ib : Nat) : (n ip : Nat) → ClearLoop → ClearLoop
  | 0, _, l => l
  | n + 1, ip, l => clearPieces filesize ib n (ip + 1) (clearPiece w holdPos filesize ib ip l)

/-- One block that is not held: its pieces are cleared, and the block is
    freed with the last of them. The second value is what `release_len` is
    left at. -/
def clearBlock (ib : Nat) (block : Block) (releaseLen : Int) (st : MemStorage) :
    MemStorage × Int :=
  let l := clearPieces w holdPos st.filesize ib msPieceNumOfPerBlock 0
    ⟨block, 0, 0, st.completedSize, releaseLen⟩
  let left := if 0 < l.releaseCount ∧ l.releaseCount = l.bufCount then none else some l.block
  ((st.setBlock ib left).setCompleted l.completedSize, l.releaseLen)

/-- The loop over the last `n` blocks of the table, from block `ib` on. -/
def clearBlocks : (n ib : Nat) → (releaseLen : Int) → MemStorage → MemStorage
  | 0, _, _, st => st
  | n + 1, ib, releaseLen, st =>
    match st.blocks[ib]? with
    | some (some block) =>
      if shouldHoldBlock w ib holdPos then clearBlocks n (ib + 1) releaseLen st
      else
        let (st, releaseLen) := clearBlock w holdPos ib block releaseLen st
        -- it is looked at behind a block, so a block is always cleared to its end
        if releaseLen ≤ 0 then st else clearBlocks n (ib + 1) releaseLen st
    | _ => clearBlocks n (ib + 1) releaseLen st

/-- `clear_buffer_for` -/
def clearBufferFor (st : MemStorage) (_pos : Int) (len : Nat) : MemStorage :=
  if st.completedSize + toInt64 len ≤ holdSize holdPos.length then st
  else
    let ib := blockIndex holdHeadSize.toNat
    clearBlocks w holdPos (blockNum st.estimateSize - ib) ib (toInt32 len) st

end clear

/-! ## `cached_from` -/

/-- The variables `*pos`, `*len` and `find_first` of the scan. -/
structure ScanLoop where
  pos : Int
  len : Int
  findFirst : Bool

section scan

variable (w : IntArith)

/-- `*len` cut at the estimated size; `none` when the assert before it fails. -/
def clipScan (estimateSize : Int) (l : ScanLoop) : Option (Int × Int) :=
  if l.pos ≤ estimateSize then
    some (l.pos, if l.pos + l.len > estimateSize then estimateSize - l.pos else l.len)
  else none

/-- One piece that has a buffer. -/
def scanPiece (start : Int) (ib ip : Nat) (l : ScanLoop) : ScanLoop :=
  if l.findFirst then { l with len := l.len + msPieceUnitSize }
  else
    let pos := pieceStart w ib ip
    -- the scan starts inside this piece
    if pos < start then ⟨start, msPieceUnitSize - (start - pos), true⟩
    else ⟨pos, msPieceUnitSize, true⟩

/-- The loop over the last `n` pieces of a block. The right value is the
    run up to the first empty piece behind it, where the scan returns. -/
def scanPieces (start : Int) (block : Block) (ib : Nat) :
    (n ip : Nat) → ScanLoop → ScanLoop ⊕ ScanLoop
  | 0, _, l => .inl l
  | n + 1, ip, l =>
    match block.buf ip with
    | none => if l.findFirst then .inr l else scanPieces start block ib n (ip + 1) l
    | some _ => scanPieces start block ib n (ip + 1) (scanPiece w start ib ip l)

/-- The loop over the last `n` blocks of the table. -/
def scanBlocks (st : MemStorage) (start : Int) : (n ib : Nat) → ScanLoop → Option (Int × Int)
  | 0, _, l => clipScan st.estimateSize l
  | n + 1, ib, l =>
    match st.blocks[ib]? with
    | some (some block) =>
      let ip := if ib > blockIndex start.toNat then 0 else pieceIndex start.toNat
      match scanPieces w start block ib (msPieceNumOfPerBlock - ip) ip l with
      | .inl l => scanBlocks st start n (ib + 1) l
      | .inr l => clipScan st.estimateSize l
    | _ =>
      if l.findFirst then
        -- the exit at a null block asserts the end of the run, and does not cut it
        if l.pos + l.len ≤ st.estimateSize then some (l.pos, l.len) else none
      else scanBlocks st start n (ib + 1) l

/-- `cached_from`: the values left in `*pos` and `*len`, or `none` when an
    assert fails. `start` is the parameter `from`, not negative. -/
def cachedFrom (st : MemStorage) (start : Int) : Option (Int × Int) :=
  if st.estimateSize = 0 then some (start, -1)
  else
    let ib := blockIndex start.toNat
    scanBlocks w st start (blockNum st.estimateSize - ib) ib ⟨0, 0, false⟩

end scan

/-! ## `storage_write` -/

/-- `memcpy` of the part of `buf` from `write` on that fits one piece. -/
def copyPiece (buf : List UInt8) (write : Nat) (old : Option PieceBuf) : PieceBuf := fun k =>
  if k < min msPieceUnitSize (buf.length - write) then buf[write + k]?
  else (old.getD msMallocPieceBuf) k

/-- The inner loop over the last `n` pieces of a block: the block, the
    count of bytes written and the completed size. -/
def writePieces (buf : List UInt8) :
    (n ip write : Nat) → Block → (completedSize : Int) → Block × Nat × Int
  | 0, _, write, block, completedSize => (block, write, completedSize)
  | n + 1, ip, write, block, completedSize =>
    if write < buf.length then
      let writeLen := min msPieceUnitSize (buf.length - write)
      let completedSize :=
        if (block.buf ip).isNone then completedSize + writeLen else completedSize
      let block := block.setBuf ip (some (copyPiece buf write (block.buf ip)))
      writePieces buf n (ip + 1) (write + writeLen) block completedSize
    else (block, write, completedSize)

/-- One round of the outer loop: block `ib`, allocated where the table has none. -/
def writeBlock (buf : List UInt8) (pos ib write : Nat) (st : MemStorage) : MemStorage × Nat :=
  let block := (st.blocks[ib]?.join).getD mallocBlock
  let ip := pieceIndex (pos + write)
  let (block, write, completedSize) :=
    writePieces buf (msPieceNumOfPerBlock - ip) ip write block st.completedSize
  ((st.setBlock ib (some block)).setCompleted completedSize, write)

/-- The outer loop over the last `n` blocks of the table; it also ends
    where the table does. -/
def writeBlocks (buf : List UInt8) (pos : Nat) :
    (n ib write : Nat) → MemStorage → MemStorage × Nat
  | 0, _, write, st => (st, write)
  | n + 1, ib, write, st =>
    if write < buf.length then
      let (st, write) := writeBlock buf pos ib write st
      writeBlocks buf pos n (ib + 1) write st
    else (st, write)

/-- The alignment asserts of `storage_write`. -/
def WriteAligned (st : MemStorage) (pos : Int) (len : Nat) : Prop :=
  pos % msPieceUnitSize = 0 ∧
    (pos + len = st.estimateSize ∨ len % msPieceUnitSize = 0)

instance (st : MemStorage) (pos : Int) (len : Nat) : Decidable (st.WriteAligned pos len) :=
  inferInstanceAs (Decidable (_ ∧ _))

theorem writeAligned_iff {st : MemStorage} {pos : Int} {len : Nat} :
    st.WriteAligned pos len ↔
      pos % 16384 = 0 ∧ (pos + len = st.estimateSize ∨ len % 16384 = 0) := Iff.rfl

/-- `storage_write`: the storage and the count returned, or `none` when an
    assert fails or the first block lies outside the table. -/
def storageWrite (st : MemStorage) (buf : List UInt8) (pos : Int) : Option (MemStorage × Nat) :=
  if st.WriteAligned pos buf.length then
    if buf.length = 0 then some (st, 0)
    else if 0 ≤ pos ∧ blockIndex pos.toNat < st.blocks.length then
      let ib := blockIndex pos.toNat
      some (writeBlocks buf pos.toNat (blockNum st.estimateSize - ib) ib 0 st)
    else none
  else none

/-! ## `storage_read` -/

section read

variable (pos len : Nat)

/-- The inner loop over the last `n` pieces of a block: what is copied, and
    whether the function returned at an empty piece. -/
def readPieces (block : Block) :
    (n ip : Nat) → (read : List (Option UInt8)) → List (Option UInt8) × Bool
  | 0, _, read => (read, false)
  | n + 1, ip, read =>
    if read.length < len then
      match block.buf ip with
      | none => (read, true)
      | some buf =>
        let offset := (pos + read.length) % msPieceUnitSize
        let readLen := min (msPieceUnitSize - offset) (len - read.length)
        readPieces block n (ip + 1)
          (read ++ (List.range readLen).map fun k => buf (offset + k))
    else (read, false)

/-- The outer loop over the last `n` blocks of the table. -/
def readBlocks (st : MemStorage) :
    (n ib : Nat) → (read : List (Option UInt8)) → List (Option UInt8)
  | 0, _, read => read
  | n + 1, ib, read =>
    if read.length < len then
      match st.blocks[ib]? with
      | some (some block) =>
        let ip := pieceIndex (pos + read.length)
        let (read, returned) := readPieces pos len block (msPieceNumOfPerBlock - ip) ip read
        if returned then read else readBlocks st n (ib + 1) read
      | _ => read
    else read

end read

/-- `storage_read`: the bytes copied to `buf`, their count being the result;
    `none` when an assert fails. -/
def storageRead (st : MemStorage) (pos : Int) (len : Nat) : Option (List (Option UInt8)) :=
  if 0 ≤ pos ∧ (st.estimateSize = 0 ∨ pos + len ≤ st.estimateSize) then
    -- no size is known, and there is no table
    if st.estimateSize = 0 ∧ st.filesize = 0 then some []
    else
      let ib := blockIndex pos.toNat
      some (readBlocks pos.toNat len st (blockNum st.estimateSize - ib) ib [])
  else none

end MemStorage

end Libms
