import Mathlib
import Libms.Framework.PartialMap
import Libms.Storage.MemStorage

/-! # What the storage reads and writes

    The loops of `storage_write` and `storage_read`, each described once by
    what it does to the pieces of the file. Blocks and pieces inside a
    block are gone from every statement below: a piece is counted over the
    whole file, and `byteAt` reads a single byte through the table.

    * `storageWrite_spec`: an aligned write inside the file copies every
      piece it covers and leaves the others alone.
    * `storageRead_slots`: a read copies the buffers in front of the first
      piece that is not cached; `storageRead_length`: how many bytes.
    * `storageRead_spec`: where every buffer is filled, these are the bytes
      that were written. -/

namespace Libms

open PartialMap

namespace MemStorage

/-- The byte cached at an offset of the file. -/
def byteAt (st : MemStorage) : Nat → Option UInt8 :=
  paged 16384 st.pieceAt

/-- What the table has at an offset: no buffer, or a buffer and what was
    copied to it. -/
def slotAt (st : MemStorage) (off : Nat) : Option (Option UInt8) :=
  (st.pieceAt (off / 16384)).map fun buf => buf (off % 16384)

/-- Every cached piece has its bytes inside a file of size `F`. -/
def Filled (F : Int) (st : MemStorage) : Prop :=
  ∀ off : Nat, (off : Int) < F → st.cached (off / 16384) → (st.byteAt off).isSome

/-! ## Pieces and bytes -/

theorem byteAt_of_piece {st : MemStorage} {i off : Nat} {buf : PieceBuf}
    (hbuf : st.pieceAt i = some buf) (hoff : off / 16384 = i) :
    st.byteAt off = buf (off % 16384) :=
  paged_eq hbuf hoff

theorem byteAt_of_empty {st : MemStorage} {i off : Nat}
    (hnone : st.pieceAt i = none) (hoff : off / 16384 = i) :
    st.byteAt off = none :=
  paged_hole hnone hoff

theorem cached_of_byteAt {st : MemStorage} {off : Nat} (h : (st.byteAt off).isSome) :
    st.cached (off / 16384) := by
  unfold cached
  cases hp : st.pieceAt (off / 16384) with
  | none =>
    rw [byteAt_of_empty hp rfl] at h
    cases h
  | some buf => rfl

theorem slotAt_of_piece {st : MemStorage} {i off : Nat} {buf : PieceBuf}
    (hbuf : st.pieceAt i = some buf) (hoff : off / 16384 = i) :
    st.slotAt off = some (buf (off % 16384)) := by
  simp [slotAt, hoff, hbuf]

theorem slotAt_of_empty {st : MemStorage} {i off : Nat}
    (hnone : st.pieceAt i = none) (hoff : off / 16384 = i) : st.slotAt off = none := by
  simp [slotAt, hoff, hnone]

theorem slotAt_isSome {st : MemStorage} (off : Nat) :
    (st.slotAt off).isSome = st.cached (off / 16384) := by
  simp [slotAt, cached]

theorem not_cached_iff {st : MemStorage} {i : Nat} :
    st.cached i = false ↔ st.pieceAt i = none := by
  simp [cached]

/-- In a filled storage, a byte of the file is there iff its piece is cached. -/
theorem Filled.byteAt_isSome {F : Int} {st : MemStorage} (h : st.Filled F) {off : Nat}
    (hoff : (off : Int) < F) :
    (st.byteAt off).isSome = st.cached (off / 16384) := by
  cases hc : st.cached (off / 16384) with
  | true => exact h off hoff hc
  | false =>
    rw [byteAt_of_empty (not_cached_iff.mp hc) rfl]
    rfl

theorem Filled.slotAt_eq {F : Int} {st : MemStorage} (h : st.Filled F) {off : Nat}
    (hoff : (off : Int) < F) : st.slotAt off = (st.byteAt off).map some := by
  cases hp : st.pieceAt (off / 16384) with
  | none =>
    rw [slotAt_of_empty hp rfl, byteAt_of_empty hp rfl]
    rfl
  | some buf =>
    have hsome : (st.byteAt off).isSome := h off hoff (by simp [cached, hp])
    rw [byteAt_of_piece hp rfl] at hsome ⊢
    rw [slotAt_of_piece hp rfl]
    obtain ⟨b, hb⟩ := Option.isSome_iff_exists.mp hsome
    rw [hb]
    rfl

/-- The table covers the file. -/
theorem estimateSize_le_blocks (st : MemStorage) :
    st.estimateSize ≤ (st.blocks.length * 2097152 : Nat) := by
  have hsized := st.sized
  rw [blockNum_eq] at hsized
  omega

/-- A block of the table that holds a byte of the file is in range. -/
theorem blockIndex_lt_length {st : MemStorage} {pos : Nat} (h : (pos : Int) < st.estimateSize) :
    blockIndex pos < st.blocks.length := by
  have hcover := st.estimateSize_le_blocks
  rw [blockIndex_eq]
  omega

/-! ## `storage_write` -/

section write

variable {buf : List UInt8}

/-- The inner loop copies the pieces in front of it up to the end of the
    buffer, each from its own place in the buffer. -/
theorem writePieces_spec (n ip write : Nat) (block : Block) (completedSize : Int)
    (hip : ip + n ≤ 128) (hwrite : write ≤ buf.length) :
    let r := writePieces buf n ip write block completedSize
    r.2.1 = min buf.length (write + n * 16384) ∧
      ∀ j, r.1.buf j =
        if ip ≤ j ∧ j < ip + n ∧ write + (j - ip) * 16384 < buf.length then
          some (copyPiece buf (write + (j - ip) * 16384) (block.buf j))
        else block.buf j := by
  induction n generalizing ip write block completedSize with
  | zero =>
    refine ⟨by simp [writePieces, hwrite], fun j => ?_⟩
    rw [if_neg (by omega)]
    rfl
  | succ n ih =>
    by_cases hmore : write < buf.length
    · simp only [writePieces, if_pos hmore]
      generalize hlen : min 16384 (buf.length - write) = writeLen
      obtain ⟨hcount, hbuf⟩ := ih (ip + 1) (write + writeLen)
        (block.setBuf ip (some (copyPiece buf write (block.buf ip))))
        (if (block.buf ip).isNone then completedSize + writeLen else completedSize)
        (by omega) (by omega)
      refine ⟨by rw [hcount]; omega, fun j => ?_⟩
      rw [hbuf j]
      by_cases hj : j = ip
      · subst hj
        rw [if_neg (by omega), if_pos (by omega), Block.buf_setBuf_self _ _ (by omega)]
        simp
      · rw [Block.buf_setBuf_ne _ _ hj]
        by_cases hin : ip + 1 ≤ j ∧ j < ip + 1 + n ∧
            write + (j - ip) * 16384 < buf.length
        · -- the loop came this far, so the pieces before were full ones
          have hfull : write + writeLen + (j - (ip + 1)) * 16384
              = write + (j - ip) * 16384 := by omega
          rw [hfull, if_pos (by omega), if_pos (by omega)]
        · rw [if_neg (by omega), if_neg (by omega)]
    · -- the buffer is used up, and the loop passes over the rest
      have hdone : write = buf.length := by omega
      refine ⟨by simp [writePieces, hdone], fun j => ?_⟩
      rw [if_neg (by omega)]
      simp [writePieces, hdone]

/-- The bytes `[write, done)` of the buffer went from `st` to `st'`: the pieces
    that start in their range hold the copied bytes, the others are as before. -/
structure Copied (buf : List UInt8) (pos write done : Nat) (st st' : MemStorage) : Prop where
  filesize : st'.filesize = st.filesize
  estimateSize : st'.estimateSize = st.estimateSize
  pieceAt : ∀ i, st'.pieceAt i =
    if pos + write ≤ i * 16384 ∧ i * 16384 < pos + done then
      some (copyPiece buf (i * 16384 - pos) (st.pieceAt i))
    else st.pieceAt i

theorem Copied.refl (pos write : Nat) (st : MemStorage) : Copied buf pos write write st st := by
  refine ⟨rfl, rfl, fun i => ?_⟩
  rw [if_neg (by omega)]

/-- Two rounds copy one after the other. -/
theorem Copied.trans {pos write mid done : Nat} {st st' st'' : MemStorage}
    (h₁ : Copied buf pos write mid st st') (h₂ : Copied buf pos mid done st' st'')
    (hle₁ : write ≤ mid) (hle₂ : mid ≤ done) : Copied buf pos write done st st'' := by
  refine ⟨h₂.filesize.trans h₁.filesize, h₂.estimateSize.trans h₁.estimateSize, fun i => ?_⟩
  rw [h₂.pieceAt, h₁.pieceAt]
  -- a piece is copied in the first round, in a later one, or not at all
  by_cases hhere : pos + write ≤ i * 16384 ∧ i * 16384 < pos + mid
  · rw [if_neg (by omega), if_pos hhere, if_pos (by omega)]
  · rw [if_neg hhere]
    by_cases hlater : pos + mid ≤ i * 16384 ∧ i * 16384 < pos + done
    · rw [if_pos hlater, if_pos (by omega)]
    · rw [if_neg hlater, if_neg (by omega)]

/-- The block the outer loop works on, an empty one where the table has none. -/
theorem pieceAt_getD (st : MemStorage) {i ib : Nat} (hi : i / 128 = ib) :
    st.pieceAt i = ((st.blocks[ib]?.join).getD mallocBlock).buf (i % 128) := by
  subst hi
  unfold MemStorage.pieceAt
  rcases st.blocks[i / 128]? with _ | _ | b
  · simp
  · simp
  · rfl

/-- One round of the outer loop, at a piece border. -/
theorem writeBlock_spec (st : MemStorage) {pos write ib : Nat}
    (haligned : (pos + write) % 16384 = 0) (hwrite : write < buf.length)
    (hib : (pos + write) / 2097152 = ib) (htable : ib < st.blocks.length) :
    let r := writeBlock buf pos ib write st
    r.2 = min buf.length ((ib + 1) * 2097152 - pos) ∧
      r.1.blocks.length = st.blocks.length ∧ Copied buf pos write r.2 st r.1 := by
  simp only [writeBlock, msPieceNumOfPerBlock]
  have hip := pieceIndex_eq (pos + write)
  generalize pieceIndex (pos + write) = ip at hip ⊢
  have hstart : pos + write = ib * 2097152 + ip * 16384 := by omega
  have hspec := @writePieces_spec buf (128 - ip) ip write
    ((st.blocks[ib]?.join).getD mallocBlock) st.completedSize (by omega) (by omega)
  revert hspec
  generalize writePieces buf (128 - ip) ip write ((st.blocks[ib]?.join).getD mallocBlock)
    st.completedSize = r
  obtain ⟨block, done, completedSize⟩ := r
  rintro ⟨hcount, hbuf⟩
  dsimp only at hcount hbuf ⊢
  refine ⟨by omega, by simp, rfl, rfl, fun i => ?_⟩
  rw [setCompleted_pieceAt]
  -- only pieces of this block change
  by_cases hi : i / 128 = ib
  · rw [pieceAt_setBlock_some st _ htable hi, pieceAt_getD st hi, hbuf]
    have hplace : i * 16384 = ib * 2097152 + i % 128 * 16384 := by omega
    by_cases hin : ip ≤ i % 128 ∧ write + (i % 128 - ip) * 16384 < buf.length
    · rw [if_pos (by omega), if_pos (by omega),
        show write + (i % 128 - ip) * 16384 = i * 16384 - pos by omega]
    · rw [if_neg (by omega), if_neg (by omega)]
  · rw [pieceAt_setBlock_ne st _ hi, if_neg]
    omega

/-- The outer loop, from a piece border on: it copies up to the end of the
    buffer or of the last block it comes to. -/
theorem writeBlocks_spec (n ib pos write : Nat) (st : MemStorage)
    (haligned : pos % 16384 = 0)
    (hwrite : write ≤ buf.length)
    (hplace : write < buf.length → (pos + write) % 16384 = 0 ∧ (pos + write) / 2097152 = ib)
    (htable : ib + n ≤ st.blocks.length) :
    (writeBlocks buf pos n ib write st).2 =
        max write (min buf.length ((ib + n) * 2097152 - pos)) ∧
      Copied buf pos write (writeBlocks buf pos n ib write st).2 st
        (writeBlocks buf pos n ib write st).1 := by
  induction n generalizing ib write st with
  | zero =>
    refine ⟨?_, Copied.refl pos write st⟩
    rw [writeBlocks]
    by_cases hmore : write < buf.length
    · have := hplace hmore
      omega
    · omega
  | succ n ih =>
    by_cases hmore : write < buf.length
    · obtain ⟨halign, hib⟩ := hplace hmore
      simp only [writeBlocks, if_pos hmore]
      have hspec := writeBlock_spec st halign hmore hib (by omega)
      revert hspec
      obtain ⟨st', done⟩ := writeBlock buf pos ib write st
      rintro ⟨hcount, hblocks, hcopied⟩
      dsimp only at hcount hblocks hcopied ⊢
      obtain ⟨hlen, hrest⟩ := ih (ib + 1) done st' (by omega) (by intro; omega) (by omega)
      exact ⟨by omega, hcopied.trans hrest (by omega) (by omega)⟩
    · simp only [writeBlocks, if_neg hmore]
      exact ⟨by omega, Copied.refl pos write st⟩

/-- A whole buffer was written at `pos`. -/
abbrev Written (buf : List UInt8) (pos : Nat) (st st' : MemStorage) : Prop :=
  Copied buf pos 0 buf.length st st'

/-- **`storage_write`.** An aligned write inside the estimated size writes
    all it was given. -/
theorem storageWrite_spec {st : MemStorage} {pos : Nat}
    (haligned : st.WriteAligned pos buf.length)
    (hfits : (pos : Int) + buf.length ≤ st.estimateSize) :
    ∃ st', st.storageWrite buf pos = some (st', buf.length) ∧ Written buf pos st st' := by
  unfold storageWrite
  rw [if_pos haligned]
  by_cases hempty : buf.length = 0
  · rw [if_pos hempty]
    refine ⟨st, by rw [hempty], ?_⟩
    unfold Written
    rw [hempty]
    exact Copied.refl pos 0 st
  · rw [if_neg hempty]
    have hib : blockIndex pos < st.blocks.length := blockIndex_lt_length (by omega)
    rw [if_pos ⟨by omega, by simpa using hib⟩]
    -- the two asserts say that the write starts at a piece border
    have hpos : pos % 16384 = 0 := by
      have h := (writeAligned_iff.mp haligned).1
      omega
    have hsized := st.sized
    have hcover := st.estimateSize_le_blocks
    have hindex := blockIndex_eq pos
    obtain ⟨hcount, hwritten⟩ := @writeBlocks_spec buf
      (blockNum st.estimateSize - blockIndex pos) (blockIndex pos) pos 0 st
      hpos (by omega) (fun _ => ⟨by omega, by omega⟩) (by omega)
    -- the table covers the buffer
    have hall : (writeBlocks buf pos (blockNum st.estimateSize - blockIndex pos)
        (blockIndex pos) 0 st).2 = buf.length := by
      rw [hcount, ← hsized, Nat.add_sub_of_le hib.le]
      omega
    rw [hall] at hwritten
    refine ⟨_, ?_, hwritten⟩
    rw [← hall]
    rfl

/-- A write that takes all of the buffer, wherever the table ends. -/
theorem storageWrite_whole {st st' : MemStorage} {pos : Nat}
    (h : st.storageWrite buf pos = some (st', buf.length)) : Written buf pos st st' := by
  unfold storageWrite at h
  split at h
  · rename_i haligned
    have hborder := (writeAligned_iff.mp haligned).1
    split at h
    · rename_i hempty
      obtain rfl : st = st' := congrArg Prod.fst (Option.some.inj h)
      unfold Written
      rw [hempty]
      exact Copied.refl pos 0 st
    · split at h
      · rename_i hin
        rw [Int.toNat_natCast] at hin h
        have hsized := st.sized
        have hindex := blockIndex_eq pos
        have hib : blockIndex pos < st.blocks.length := hin.2
        obtain ⟨-, hcopied⟩ := @writeBlocks_spec buf
          (blockNum st.estimateSize - blockIndex pos) (blockIndex pos) pos 0 st
          (by omega) (by omega) (fun _ => ⟨by omega, by omega⟩) (by omega)
        rw [Option.some.inj h] at hcopied
        exact hcopied
      · cases h
  · cases h

/-- A round that ends at a piece border is a whole write of what it copied. -/
theorem Copied.written {pos done : Nat} {st st' : MemStorage} (h : Copied buf pos 0 done st st')
    (haligned : pos % 16384 = 0) (hle : done ≤ buf.length)
    (hwhole : done = buf.length ∨ done % 16384 = 0) : Written (buf.take done) pos st st' := by
  have hlength : (buf.take done).length = done := by
    rw [List.length_take]
    omega
  refine ⟨h.filesize, h.estimateSize, fun i => ?_⟩
  rw [h.pieceAt, hlength]
  by_cases hin : pos + 0 ≤ i * 16384 ∧ i * 16384 < pos + done
  · rw [if_pos hin, if_pos hin]
    congr 1
    funext k
    simp only [copyPiece, msPieceUnitSize, hlength]
    by_cases hk : k < min 16384 (done - (i * 16384 - pos))
    · rw [if_pos (by omega), if_pos hk, List.getElem?_take_of_lt (by omega)]
    · rw [if_neg (by omega), if_neg hk]
  · rw [if_neg hin, if_neg hin]

/-- A write that meets the asserts, wherever it ends: what does not fit the
    table is left out. -/
theorem storageWrite_written {st st' : MemStorage} {pos : Int} {write : Nat}
    (h : st.storageWrite buf pos = some (st', write)) :
    ∃ p done : Nat, p % 16384 = 0 ∧ Written (buf.take done) p st st' ∧
      ((p : Int) + (buf.take done).length = st.estimateSize ∨
        (buf.take done).length % 16384 = 0) := by
  unfold storageWrite at h
  split at h
  · rename_i haligned
    obtain ⟨hborder, hend⟩ := writeAligned_iff.mp haligned
    split at h
    · cases h
      refine ⟨0, 0, by decide, ?_, Or.inr (by simp)⟩
      rw [List.take_zero]
      exact Copied.refl 0 0 st
    · split at h
      · rename_i hin
        obtain ⟨p, rfl⟩ := Int.eq_ofNat_of_zero_le hin.1
        have hsized := st.sized
        have hindex := blockIndex_eq p
        have hib : blockIndex p < st.blocks.length := by simpa using hin.2
        obtain ⟨hcount, hcopied⟩ := @writeBlocks_spec buf
          (blockNum st.estimateSize - blockIndex p) (blockIndex p) p 0 st
          (by omega) (by omega) (fun _ => ⟨by omega, by omega⟩) (by omega)
        rw [← hsized, Nat.add_sub_of_le hib.le] at hcount
        have hst' : st' = (writeBlocks buf p (blockNum st.estimateSize - blockIndex p)
            (blockIndex p) 0 st).1 := (congrArg Prod.fst (Option.some.inj h)).symm
        rw [← hst'] at hcopied
        revert hcount hcopied
        rw [hsized]
        generalize (writeBlocks buf p (blockNum st.estimateSize - blockIndex p)
          (blockIndex p) 0 st).2 = done
        intro hcount hcopied
        -- the table ends at a block border
        refine ⟨p, done, by omega, hcopied.written (by omega) (by omega) (by omega), ?_⟩
        rw [List.length_take]
        omega
      · cases h
  · cases h

end write

/-! ## Sizes -/

theorem writeBlocks_sizes (buf : List UInt8) (pos n ib write : Nat) (st : MemStorage) :
    (writeBlocks buf pos n ib write st).1.filesize = st.filesize ∧
      (writeBlocks buf pos n ib write st).1.estimateSize = st.estimateSize := by
  induction n generalizing ib write st with
  | zero => exact ⟨rfl, rfl⟩
  | succ n ih =>
    rw [writeBlocks]
    split
    · have hblock : (writeBlock buf pos ib write st).1.filesize = st.filesize ∧
          (writeBlock buf pos ib write st).1.estimateSize = st.estimateSize := by
        simp [writeBlock]
      obtain ⟨hfile, hest⟩ :=
        ih (ib + 1) (writeBlock buf pos ib write st).2 (writeBlock buf pos ib write st).1
      exact ⟨hfile.trans hblock.1, hest.trans hblock.2⟩
    · exact ⟨rfl, rfl⟩

/-- A write changes no size. -/
theorem storageWrite_sizes {buf : List UInt8} {pos : Int} {st st' : MemStorage} {write : Nat}
    (h : st.storageWrite buf pos = some (st', write)) :
    st'.filesize = st.filesize ∧ st'.estimateSize = st.estimateSize := by
  unfold storageWrite at h
  split at h
  · split at h
    · cases h
      exact ⟨rfl, rfl⟩
    · split at h
      · have hwritten : st' = _ := (congrArg Prod.fst (Option.some.inj h)).symm
        rw [hwritten]
        exact writeBlocks_sizes ..
      · cases h
  · cases h

/-! ## Bytes after a write -/

section written

variable {buf : List UInt8} {pos : Nat} {st st' : MemStorage}

/-- A write caches the pieces that start inside its range. -/
theorem Written.cached (h : Written buf pos st st') (i : Nat) :
    st'.cached i =
      (st.cached i || decide (pos ≤ i * 16384 ∧ i * 16384 < pos + buf.length)) := by
  unfold MemStorage.cached
  rw [h.pieceAt]
  by_cases hin : pos + 0 ≤ i * 16384 ∧ i * 16384 < pos + buf.length
  · rw [if_pos hin, decide_eq_true (by omega)]
    simp
  · rw [if_neg hin, decide_eq_false (by omega)]
    simp

/-- Inside the written range the storage has the bytes of the buffer. -/
theorem Written.byteAt_inside (h : Written buf pos st st')
    (haligned : pos % 16384 = 0) {off : Nat}
    (h₁ : pos ≤ off) (h₂ : off < pos + buf.length) :
    st'.byteAt off = buf[off - pos]? := by
  have hpiece := h.pieceAt (off / 16384)
  rw [if_pos (by omega)] at hpiece
  rw [byteAt_of_piece hpiece rfl]
  simp only [copyPiece, msPieceUnitSize]
  rw [if_pos (by omega)]
  congr 1
  omega

/-- Outside it, a byte that was cached is unchanged. -/
theorem Written.byteAt_outside (h : Written buf pos st st')
    (haligned : pos % 16384 = 0) {off : Nat}
    (hout : off < pos ∨ pos + buf.length ≤ off) (hc : st.cached (off / 16384)) :
    st'.byteAt off = st.byteAt off := by
  have hpiece := h.pieceAt (off / 16384)
  obtain ⟨old, hold⟩ := Option.isSome_iff_exists.mp hc
  rw [byteAt_of_piece hold rfl]
  by_cases hin : pos + 0 ≤ off / 16384 * 16384 ∧
      off / 16384 * 16384 < pos + buf.length
  · -- the short tail piece of a write: the rest of its buffer is kept
    rw [if_pos hin] at hpiece
    rw [byteAt_of_piece hpiece rfl]
    simp only [copyPiece, msPieceUnitSize]
    rw [if_neg (by omega), hold]
    rfl
  · rw [if_neg hin, hold] at hpiece
    rw [byteAt_of_piece hpiece rfl]

/-- A write that ends at a piece border or at the end of the file keeps the
    storage filled. -/
theorem Written.filled {F : Int} (h : Written buf pos st st')
    (haligned : pos % 16384 = 0)
    (hend : (pos : Int) + buf.length = F ∨ buf.length % 16384 = 0)
    (hfilled : st.Filled F) : st'.Filled F := by
  intro off hoff hc
  by_cases hin : pos ≤ off ∧ off < pos + buf.length
  · rw [h.byteAt_inside haligned hin.1 hin.2, List.getElem?_eq_getElem (by omega)]
    rfl
  · have hold : st.cached (off / 16384) := by
      rw [h.cached, Bool.or_eq_true, decide_eq_true_eq] at hc
      rcases hc with hold | hnew
      · exact hold
      · -- the offset would lie in the written range
        exfalso; omega
    rw [h.byteAt_outside haligned (by omega) hold]
    exact hfilled off hoff hold

end written

/-! ## `storage_read` -/

section read

variable {st : MemStorage} {pos len : Nat}

/-- One piece: its buffer extends what was copied. -/
theorem copiedRun_piece {i offset readLen : Nat} {buf : PieceBuf} {start : Nat}
    (hbuf : st.pieceAt i = some buf) (hi : start / 16384 = i)
    (hoffset : offset = start % 16384) (hlen : offset + readLen ≤ 16384) :
    CopiedRun st.slotAt start
      (((List.range readLen).map fun k => buf (offset + k)).map some) := by
  intro k hk
  rw [List.length_map, List.length_map, List.length_range] at hk
  have hslot : st.slotAt (start + k) = some (buf (offset + k)) := by
    rw [slotAt_of_piece hbuf (by omega)]
    congr 2
    omega
  rw [hslot, List.getElem?_map, List.getElem?_map, List.getElem?_range hk]
  exact ⟨rfl, rfl⟩

/-- The inner loop copies on to the first empty piece, the end of the block
    or the end of the request. -/
theorem readPieces_spec {block : Block} {ib : Nat} (n ip : Nat) (read : List (Option UInt8))
    (hblock : st.blocks[ib]? = some (some block)) (hip : ip + n = 128)
    (hread : CopiedRun st.slotAt pos (read.map some)) (hle : read.length ≤ len)
    (hplace : read.length < len →
      (pos + read.length) / 16384 = ib * 128 + ip) :
    let r := readPieces pos len block n ip read
    CopiedRun st.slotAt pos (r.1.map some) ∧ r.1.length ≤ len ∧
      (r.2 = true → st.slotAt (pos + r.1.length) = none) ∧
      (r.2 = false → r.1.length < len →
        (pos + r.1.length) / 2097152 = ib + 1) := by
  induction n generalizing ip read with
  | zero =>
    refine ⟨hread, hle, by simp [readPieces], fun _ hlt => ?_⟩
    have := hplace hlt
    simp only [readPieces]
    omega
  | succ n ih =>
    by_cases hmore : read.length < len
    · have hindex := hplace hmore
      have hpiece : st.pieceAt ((pos + read.length) / 16384) = block.buf ip := by
        rw [pieceAt_of_block hblock (by omega)]
        congr 1
        omega
      cases hbuf : block.buf ip with
      -- the first empty piece ends the read
      | none =>
        simp only [readPieces, if_pos hmore, hbuf]
        rw [hbuf] at hpiece
        exact ⟨hread, hle, fun _ => slotAt_of_empty hpiece rfl, by simp⟩
      | some buf =>
        simp only [readPieces, if_pos hmore, hbuf]
        rw [hbuf] at hpiece
        generalize hoff : (pos + read.length) % 16384 = offset
        generalize hlen : min (16384 - offset) (len - read.length) = readLen
        -- what is copied of the piece goes on where the last one ended
        have hcopied : CopiedRun st.slotAt (pos + (read.map some).length)
            (((List.range readLen).map fun k => buf (offset + k)).map some) := by
          rw [List.length_map]
          exact copiedRun_piece hpiece rfl hoff.symm (by omega)
        apply ih
        · omega
        · rw [List.map_append]
          exact hread.append hcopied
        · simp only [List.length_append, List.length_map, List.length_range]; omega
        · simp only [List.length_append, List.length_map, List.length_range]
          intro hlt
          omega
    · simp only [readPieces, if_neg hmore]
      exact ⟨hread, hle, by simp, fun _ hlt => absurd hlt hmore⟩

/-- The outer loop copies on to the first hole or the end of the request. -/
theorem readBlocks_spec (n ib : Nat) (read : List (Option UInt8))
    (htable : ib + n = st.blocks.length) (hfits : pos + len ≤ st.blocks.length * 2097152)
    (hread : CopiedRun st.slotAt pos (read.map some)) (hle : read.length ≤ len)
    (hplace : read.length < len → (pos + read.length) / 2097152 = ib) :
    let r := readBlocks pos len st n ib read
    CopiedRun st.slotAt pos (r.map some) ∧ r.length ≤ len ∧
      (r.length < len → st.slotAt (pos + r.length) = none) := by
  induction n generalizing ib read with
  | zero =>
    refine ⟨hread, hle, fun hlt => ?_⟩
    have := hplace hlt
    simp only [readBlocks] at hlt
    omega
  | succ n ih =>
    by_cases hmore : read.length < len
    · have hindex := hplace hmore
      have hget : st.blocks[ib]? = some st.blocks[ib] := List.getElem?_eq_getElem (by omega)
      cases hb : st.blocks[ib] with
      -- a block that is null has no piece
      | none =>
        rw [hb] at hget
        simp only [readBlocks, if_pos hmore, hget]
        have hhole : st.pieceAt ((pos + read.length) / 16384) = none :=
          pieceAt_of_null hget (by omega)
        exact ⟨hread, hle, fun _ => slotAt_of_empty hhole rfl⟩
      | some block =>
        rw [hb] at hget
        simp only [readBlocks, if_pos hmore, hget]
        have hip := pieceIndex_eq (pos + read.length)
        obtain ⟨hrun, hlen, hret, hnext⟩ := readPieces_spec
          (128 - pieceIndex (pos + read.length)) (pieceIndex (pos + read.length)) read
          hget (by omega) hread hle (fun _ => by omega)
        revert hrun hlen hret hnext
        obtain ⟨read', returned⟩ := readPieces pos len block
          (128 - pieceIndex (pos + read.length)) (pieceIndex (pos + read.length)) read
        intro hrun hlen hret hnext
        -- either the inner loop met a hole, or the next block goes on
        cases returned with
        | true => exact ⟨hrun, hlen, fun _ => hret rfl⟩
        | false => exact ih (ib + 1) read' (by omega) hrun hlen (hnext rfl)
    · simp only [readBlocks, if_neg hmore]
      exact ⟨hread, hle, fun hlt => absurd hlt hmore⟩

/-- **`storage_read`.** A read inside the estimated size copies the buffers
    in front of the first hole, whatever is in them. -/
theorem storageRead_slots (hest : 0 < st.estimateSize)
    (hfits : (pos : Int) + len ≤ st.estimateSize) :
    st.storageRead pos len = some (readRun st.slotAt pos len) := by
  unfold storageRead
  rw [if_pos ⟨by omega, Or.inr hfits⟩, if_neg (by omega)]
  have hsized := st.sized
  have hcover := st.estimateSize_le_blocks
  simp only [Int.toNat_natCast, Option.some.injEq]
  have hindex := blockIndex_eq pos
  obtain ⟨hrun, hle, hstop⟩ := @readBlocks_spec st pos len
    (blockNum st.estimateSize - blockIndex pos) (blockIndex pos) []
    (by omega) (by omega) copiedRun_nil (by simp) (by simp [hindex])
  rw [← List.map_inj_right (f := some) (fun _ _ h => Option.some.inj h)]
  apply hrun.eq_readRun
  · rwa [List.length_map]
  · rwa [List.length_map]

/-- The count a read returns: the leading bytes in cached pieces. -/
theorem storageRead_length (hest : 0 < st.estimateSize)
    (hfits : (pos : Int) + len ≤ st.estimateSize) :
    ∃ bytes, st.storageRead pos len = some bytes ∧
      bytes.length = leading (fun off => st.cached (off / 16384)) pos len := by
  refine ⟨_, storageRead_slots hest hfits, ?_⟩
  rw [readRun_length]
  exact leading_congr fun off _ _ => slotAt_isSome off

/-- In a filled storage a read returns the bytes in front of the first hole. -/
theorem storageRead_spec (hfilled : st.Filled st.estimateSize) (hest : 0 < st.estimateSize)
    (hfits : (pos : Int) + len ≤ st.estimateSize) :
    st.storageRead pos len = some ((readRun st.byteAt pos len).map some) := by
  rw [storageRead_slots hest hfits]
  congr 1
  exact readRun_map fun off _ hoff => hfilled.slotAt_eq (by omega)

end read

end MemStorage

end Libms
