import Mathlib
import Libms.Framework.CInt
import Libms.Storage.MemStorage
import Libms.Storage.Eviction
import Libms.Storage.Windows

/-! # Offsets as `int`

    Four helpers of the storage form the offset of a block or a piece from
    `int` operands. The table of a file of up to 2 GiB has 1024 blocks, and
    the offsets of these fit; the offset of the next block does not.

    * `pieceStart_toInt32`: below block 1024 nothing wraps.
    * `ExactOffsets`: what the storage of a file of some size needs of these
      helpers, and what `cached_from` and `clear_buffer_for` give with them.
    * `exactOffsets_iff`: it holds up to 2 GiB and no further. -/

namespace Libms

open CInt MemStorage

/-! ## Offsets that fit -/

section fits

variable {ib ip : Nat}

theorem blockStart_toInt32 (hib : ib < 1024) :
    blockStart toInt32 ib = ib * 2097152 := by
  show toInt32 (ib * 2097152) = ib * 2097152
  exact toInt32_of_range (by omega) (by omega)

theorem pieceStart_toInt32 (hib : ib < 1024) (hip : ip < 128) :
    pieceStart toInt32 ib ip = ib * 2097152 + ip * 16384 := by
  show toInt32 (blockStart toInt32 ib + ip * 16384) = ib * 2097152 + ip * 16384
  rw [blockStart_toInt32 hib]
  exact toInt32_of_range (by omega) (by omega)

/-- The offsets of a table below 2 GiB are the exact ones. -/
theorem blockStart_exact (hib : ib < 1024) : blockStart toInt32 ib = blockStart exactInt ib :=
  blockStart_toInt32 hib

theorem pieceStart_exact (hib : ib < 1024) (hip : ip < 128) :
    pieceStart toInt32 ib ip = pieceStart exactInt ib ip :=
  pieceStart_toInt32 hib hip

theorem shouldHoldBlock_exact (hib : ib < 1024) (holdPos : List Int) :
    shouldHoldBlock toInt32 ib holdPos = shouldHoldBlock exactInt ib holdPos := by
  unfold shouldHoldBlock
  rw [blockStart_exact hib]

theorem shouldHoldPiece_exact (hib : ib < 1024) (hip : ip < 128) (holdPos : List Int) :
    shouldHoldPiece toInt32 ib ip holdPos = shouldHoldPiece exactInt ib ip holdPos := by
  unfold shouldHoldPiece
  rw [pieceStart_exact hib hip]

theorem pieceLen_exact (hib : ib < 1024) (hip : ip < 128) (filesize : Int) :
    pieceLen toInt32 filesize ib ip = pieceLen exactInt filesize ib ip := by
  unfold pieceLen
  rw [pieceStart_exact hib hip]

theorem scanPiece_exact (hib : ib < 1024) (hip : ip < 128) (start : Int) (l : ScanLoop) :
    scanPiece toInt32 start ib ip l = scanPiece exactInt start ib ip l := by
  unfold scanPiece
  rw [pieceStart_exact hib hip]

theorem scanPieces_exact (hib : ib < 1024) (start : Int) (block : Block) (n ip : Nat)
    (hip : ip + n ≤ 128) (l : ScanLoop) :
    scanPieces toInt32 start block ib n ip l = scanPieces exactInt start block ib n ip l := by
  induction n generalizing ip l with
  | zero => rfl
  | succ n ih =>
    unfold scanPieces
    rw [scanPiece_exact hib (by omega), ih (ip + 1) (by omega), ih (ip + 1) (by omega)]

theorem scanBlocks_exact (st : MemStorage) (start : Int) (n ib : Nat) (hib : ib + n ≤ 1024)
    (l : ScanLoop) : st.scanBlocks toInt32 start n ib l = st.scanBlocks exactInt start n ib l := by
  induction n generalizing ib l with
  | zero => rfl
  | succ n ih =>
    unfold scanBlocks
    -- the loop over the pieces of a block ends at piece 128
    have hfirst : (if ib > blockIndex start.toNat then 0 else pieceIndex start.toNat) ≤ 128 := by
      rw [pieceIndex_eq]
      split <;> omega
    generalize (if ib > blockIndex start.toNat then 0 else pieceIndex start.toNat) = ip at hfirst ⊢
    split
    · have hpieces := fun block => scanPieces_exact (by omega : ib < 1024) start block (128 - ip) ip
        (by omega) l
      simp only [msPieceNumOfPerBlock, hpieces, ih (ib + 1) (by omega)]
    · rw [ih (ib + 1) (by omega)]

end fits

/-! ## Positions of the scan -/

section scan

variable {w : IntArith} {start : Int}

/-- A scan that has found a piece stands at or behind its start, and one that
    has not found any has no length. -/
structure Behind (start : Int) (l : ScanLoop) : Prop where
  found : l.findFirst = true → start ≤ l.pos
  nothing : l.findFirst = false → l.len = 0 ∧ l.pos = 0

theorem scanPiece_behind (ib ip : Nat) {l : ScanLoop} (h : Behind start l) :
    Behind start (scanPiece w start ib ip l) := by
  unfold scanPiece
  split
  · rename_i hfound
    exact ⟨fun _ => h.found hfound, fun hnot => absurd (hfound.symm.trans hnot) (by decide)⟩
  · dsimp only
    split
    · exact ⟨fun _ => Int.le_refl start, fun hnot => by cases hnot⟩
    · rename_i hpos
      exact ⟨fun _ => Int.not_lt.mp hpos, fun hnot => by cases hnot⟩

theorem scanPieces_behind (block : Block) (ib n ip : Nat) {l : ScanLoop} (h : Behind start l) :
    (scanPieces w start block ib n ip l).elim (Behind start) (Behind start) := by
  induction n generalizing ip l with
  | zero => exact h
  | succ n ih =>
    unfold scanPieces
    split
    · -- an empty piece ends the run, or is passed over before it
      split
      · exact h
      · exact ih (ip + 1) h
    · exact ih (ip + 1) (scanPiece_behind ib ip h)

theorem clipScan_behind {estimateSize pos len : Int} {l : ScanLoop} (h : Behind start l)
    (hclip : clipScan estimateSize l = some (pos, len)) (hlen : 0 < len) : start ≤ pos := by
  unfold clipScan at hclip
  split at hclip
  · rename_i hest
    cases hclip
    cases hfound : l.findFirst with
    | true => exact h.found hfound
    -- nothing found, so the length is not positive
    | false =>
      obtain ⟨hzero, hpos⟩ := h.nothing hfound
      split at hlen <;> omega
  · cases hclip

theorem scanBlocks_behind (st : MemStorage) (n ib : Nat) {l : ScanLoop} {pos len : Int}
    (h : Behind start l) (hscan : st.scanBlocks w start n ib l = some (pos, len))
    (hlen : 0 < len) : start ≤ pos := by
  induction n generalizing ib l with
  | zero => exact clipScan_behind h hscan hlen
  | succ n ih =>
    unfold scanBlocks at hscan
    split at hscan
    · rename_i block _
      dsimp only at hscan
      have hpieces := @scanPieces_behind w start block ib
        (msPieceNumOfPerBlock - if ib > blockIndex start.toNat then 0 else pieceIndex start.toNat)
        (if ib > blockIndex start.toNat then 0 else pieceIndex start.toNat) l h
      split at hscan
      · rename_i l' hl'
        rw [hl'] at hpieces
        exact ih (ib + 1) hpieces hscan
      · rename_i l' hl'
        rw [hl'] at hpieces
        exact clipScan_behind hpieces hscan hlen
    · -- a null block ends the run, or is passed over before it
      split at hscan
      · rename_i hfound
        split at hscan
        · cases hscan
          exact h.found hfound
        · cases hscan
      · exact ih (ib + 1) h hscan

/-- What `cached_from` finds does not lie before its start, however offsets
    are formed. -/
theorem cachedFrom_behind (st : MemStorage) {pos len : Int}
    (hscan : st.cachedFrom w start = some (pos, len)) (hlen : 0 < len) : start ≤ pos := by
  unfold cachedFrom at hscan
  split at hscan
  · cases hscan
    omega
  · exact scanBlocks_behind st _ _ ⟨fun hnot => absurd hnot (by decide), fun _ => ⟨rfl, rfl⟩⟩
      hscan hlen

end scan

/-! ## The storage of a file -/

/-- The helpers of a storage of `filesize` bytes compute exact offsets;
    `cached_from` finds nothing before its start, and `clear_buffer_for`
    keeps the pieces in a hold window. -/
structure ExactOffsets (filesize : Int) : Prop where
  block : ∀ ib < blockNum filesize, blockStart toInt32 ib = ib * msBlockUnitSize
  piece : ∀ ib < blockNum filesize, ∀ ip < msPieceNumOfPerBlock,
    pieceStart toInt32 ib ip = ib * msBlockUnitSize + ip * msPieceUnitSize
  holdBlock : ∀ ib < blockNum filesize, ∀ holdPos,
    shouldHoldBlock toInt32 ib holdPos = shouldHoldBlock exactInt ib holdPos
  holdPiece : ∀ ib < blockNum filesize, ∀ ip < msPieceNumOfPerBlock, ∀ holdPos,
    shouldHoldPiece toInt32 ib ip holdPos = shouldHoldPiece exactInt ib ip holdPos
  length : ∀ ib < blockNum filesize, ∀ ip < msPieceNumOfPerBlock,
    pieceLen toInt32 filesize ib ip = pieceLen exactInt filesize ib ip
  scan : ∀ st : MemStorage, st.filesize = filesize → ∀ start : Int,
    st.cachedFrom toInt32 start = st.cachedFrom exactInt start
  behind : ∀ st : MemStorage, st.filesize = filesize → ∀ start pos len : Int,
    st.cachedFrom toInt32 start = some (pos, len) → 0 < len → start ≤ pos
  held : ∀ st : MemStorage, st.filesize = filesize → ∀ holdPos (pos : Int) len i,
    (∃ hold ∈ holdPos, SlotInWindow hold i) →
      (st.clearBufferFor toInt32 holdPos pos len).pieceAt i = st.pieceAt i

/-- A piece in a hold window is held. -/
theorem heldPiece_of_window {holdPos : List Int} {i : Nat} (hi : i / 128 < 1024)
    (hwindow : ∃ hold ∈ holdPos, SlotInWindow hold i) : heldPiece toInt32 holdPos i = true := by
  have hexact : heldPiece exactInt holdPos i = true := heldPiece_iff.mpr hwindow
  unfold heldPiece at hexact ⊢
  rw [shouldHoldPiece_exact hi (Nat.mod_lt i (by decide))]
  exact hexact

/-- **No wrap up to 2 GiB.** -/
theorem exactOffsets_of_le {filesize : Int} (hpos : 0 < filesize) (hle : filesize ≤ 2 ^ 31) :
    ExactOffsets filesize := by
  have hnum : blockNum filesize ≤ 1024 := by
    rw [blockNum_eq]
    omega
  refine
    { block := fun ib hib => blockStart_toInt32 (by omega)
      piece := fun ib hib ip hip => pieceStart_toInt32 (by omega) hip
      holdBlock := fun ib hib => shouldHoldBlock_exact (by omega)
      holdPiece := fun ib hib ip hip => shouldHoldPiece_exact (by omega) hip
      length := fun ib hib ip hip => pieceLen_exact (by omega) hip filesize
      scan := ?_
      behind := fun st _ start pos len => cachedFrom_behind st
      held := ?_ }
  · intro st hst start
    have hest : st.estimateSize = filesize := (st.known (by omega)).trans hst
    unfold cachedFrom
    rw [hest]
    rcases Nat.lt_or_ge (blockIndex start.toNat) (blockNum filesize) with hin | hout
    · rw [scanBlocks_exact st start _ _ (by omega)]
    · -- the scan starts behind the table
      simp only [Nat.sub_eq_zero_of_le hout, scanBlocks]
  · intro st hst holdPos pos len i hwindow
    have hest : st.estimateSize = filesize := (st.known (by omega)).trans hst
    -- a piece of the window is held, and what is held is not evicted
    refine (clearBufferFor_spec st pos len).kept i fun hgone => ?_
    obtain ⟨-, -, hlen, -, -, hfree⟩ := hgone
    rw [st.sized, hest] at hlen
    rw [heldPiece_of_window (by omega) hwindow] at hfree
    cases hfree

/-- **Offsets in `int`.** The storage of a file works on exact offsets if
    and only if the file has at most 2 GiB. -/
theorem exactOffsets_iff {filesize : Int} (hpos : 0 < filesize) :
    ExactOffsets filesize ↔ filesize ≤ 2 ^ 31 := by
  constructor
  · intro h
    by_contra hlarge
    -- the table has a block 1024, whose offset is the first that does not fit
    have hnum : 1024 < blockNum filesize := by
      rw [blockNum_eq]
      omega
    have hblock := h.block 1024 hnum
    have hwrap : blockStart toInt32 1024 = -2147483648 := by decide
    rw [hwrap] at hblock
    exact absurd hblock (by decide)
  · exact exactOffsets_of_le hpos

/-- A file of 2 GiB is the last one. -/
theorem exactOffsets_iff_two_gib : 0 < (2147483648 : Int) ∧
    (ExactOffsets 2147483648 ↔ (2147483648 : Int) ≤ 2 ^ 31) :=
  ⟨by decide, exactOffsets_iff (by decide)⟩

/-- With one byte more, the first offset of block 1024 is negative. A reader
    that stands there has its piece evicted. -/
theorem exactOffsets_wrap : ¬ ExactOffsets 2147483649 := by
  intro h
  have hheld := h.holdPiece 1024 (by decide) 0 (by decide) [2147483648]
  have hwrapped : shouldHoldPiece toInt32 1024 0 [2147483648] = false := by decide
  have hexact : shouldHoldPiece exactInt 1024 0 [2147483648] = true := by decide
  rw [hwrapped, hexact] at hheld
  cases hheld

end Libms
