import Mathlib
import Libms.Storage.Eviction
import Libms.Storage.ReadWrite

/-! # A storage with bytes of one file

    What a cache must never lose: whatever was written, evicted and resized
    before, a byte that is cached is the byte of the file at its offset.

    * `Intact`: the size is unknown or that of the file, and so is every
      cached byte.
    * `Intact.storageWrite`: data of the file keeps it, wherever it ends.
    * `Intact.storageRead`: a read is then a prefix of what was asked for. -/

namespace Libms

open PartialMap

namespace MemStorage

/-- The storage of a file whose size may not be known yet. The cached pieces
    are filled as far as the file goes, with bytes of the file. -/
structure Intact (file : List UInt8) (st : MemStorage) : Prop where
  size : st.filesize = 0 ∨ st.filesize = file.length
  estimate : st.estimateSize = st.filesize
  filled : st.Filled st.filesize
  bytes : ∀ off byte, st.byteAt off = some byte → file[off]? = some byte

section intact

variable {file buf : List UInt8} {st st' : MemStorage}

/-- Without a size there is no table, and nothing is cached. -/
theorem not_cached_of_unsized (h : st.estimateSize = 0) (i : Nat) : st.cached i = false := by
  have hsized := st.sized
  rw [h] at hsized
  have hblocks : st.blocks = [] := List.eq_nil_of_length_eq_zero hsized
  rw [not_cached_iff]
  simp [pieceAt, hblocks]

theorem byteAt_of_not_cached {off : Nat} (h : st.cached (off / 16384) = false) :
    st.byteAt off = none := by
  cases hbyte : st.byteAt off with
  | none => rfl
  | some byte =>
    rw [cached_of_byteAt (by rw [hbyte]; rfl)] at h
    cases h

theorem msMemStorageOpen_intact (file : List UInt8) : msMemStorageOpen.Intact file where
  size := Or.inl rfl
  estimate := rfl
  filled off _ hc := by
    rw [not_cached_of_unsized rfl] at hc
    cases hc
  bytes off byte hbyte := by
    have hc : msMemStorageOpen.cached (off / 16384) := cached_of_byteAt (by rw [hbyte]; rfl)
    rw [not_cached_of_unsized rfl] at hc
    cases hc

/-- What was cached keeps its pieces, and nothing else is new. -/
theorem Intact.of_pieces (h : st.Intact file) (hfile : st'.filesize = st.filesize)
    (hest : st'.estimateSize = st.estimateSize)
    (hkept : ∀ i, st'.cached i → st'.pieceAt i = st.pieceAt i) : st'.Intact file := by
  have hbefore : ∀ i, st'.cached i → st.cached i := by
    intro i hc
    rw [cached, hkept i hc] at hc
    exact hc
  have hbyte : ∀ off, st'.cached (off / 16384) → st'.byteAt off = st.byteAt off := by
    intro off hc
    simp only [byteAt, paged, hkept _ hc]
  refine ⟨by rw [hfile]; exact h.size, by rw [hest, hfile]; exact h.estimate, ?_, ?_⟩
  · intro off hoff hc
    rw [hbyte off hc]
    exact h.filled off (by rwa [hfile] at hoff) (hbefore _ hc)
  · intro off byte hoff
    have hc : st'.cached (off / 16384) := cached_of_byteAt (by rw [hoff]; rfl)
    rw [hbyte off hc] at hoff
    exact h.bytes off byte hoff

/-- Eviction takes whole pieces, and leaves the others. -/
theorem Intact.clearBufferFor (h : st.Intact file) (w : IntArith) (holdPos : List Int)
    (pos : Int) (len : Nat) : (st.clearBufferFor w holdPos pos len).Intact file := by
  have hcleared := @clearBufferFor_spec w holdPos st pos len
  apply h.of_pieces hcleared.filesize hcleared.estimateSize
  intro i hc
  by_cases hgone : st.Evicts w holdPos len i
  · rw [cached, hcleared.freed i hgone] at hc
    cases hc
  · exact hcleared.kept i hgone

/-- No byte comes or goes with a size. -/
theorem byteAt_of_pieces (h : ∀ i, st'.pieceAt i = st.pieceAt i) : st'.byteAt = st.byteAt := by
  funext off
  simp only [byteAt, paged, h]

theorem setContentSize_byteAt {pos size : Int} (hst : st.setContentSize pos size = some st') :
    st'.byteAt = st.byteAt := by
  unfold setContentSize at hst
  split at hst
  · cases hst
    rfl
  · split at hst
    · split at hst
      · cases hst
      · rename_i blocks hblocks
        cases hst
        exact byteAt_of_pieces fun i => reallocBlocks_piece hblocks i
    · cases hst
      rfl

/-- The size of the file is set, for the first time or again. -/
theorem Intact.setFilesize (h : st.Intact file) (hst : st.setFilesize file.length = some st') :
    st'.Intact file := by
  obtain ⟨hfile, hest, -, hpiece⟩ := setFilesize_spec hst
  have hcached : ∀ i, st'.cached i = st.cached i := fun i => by rw [cached, hpiece, cached]
  have hbyte : ∀ off, st'.byteAt off = st.byteAt off := congrFun (byteAt_of_pieces hpiece)
  refine ⟨Or.inr hfile, by rw [hest, hfile], ?_, fun off byte hoff => ?_⟩
  · intro off hoff hc
    rw [hfile] at hoff
    rw [hcached] at hc
    rw [hbyte]
    rcases h.size with hunknown | hknown
    · rw [not_cached_of_unsized (h.estimate.trans hunknown)] at hc
      cases hc
    · exact h.filled off (by rw [hknown]; exact hoff) hc
  · rw [hbyte] at hoff
    exact h.bytes off byte hoff

/-! ## Data -/

/-- Inside what was written there are bytes of the file, and outside nothing
    has changed that can be read. -/
theorem Intact.written {pos : Nat} (h : st.Intact file) (hwritten : Written buf pos st st')
    (hborder : pos % 16384 = 0)
    (hend : (pos : Int) + buf.length = st.estimateSize ∨ buf.length % 16384 = 0)
    (hbuf : buf <+: file.drop pos) : st'.Intact file := by
  refine ⟨by rw [hwritten.filesize]; exact h.size,
    by rw [hwritten.estimateSize, hwritten.filesize]; exact h.estimate, ?_, ?_⟩
  · rw [hwritten.filesize]
    rw [h.estimate] at hend
    exact hwritten.filled hborder hend h.filled
  · intro off byte hoff
    by_cases hin : pos ≤ off ∧ off < pos + buf.length
    · rw [hwritten.byteAt_inside hborder hin.1 hin.2] at hoff
      have hdrop := (List.prefix_iff_getElem?.mp hbuf) (off - pos) (by omega)
      rw [List.getElem?_drop, Nat.add_sub_cancel' hin.1, ← List.getElem?_eq_getElem] at hdrop
      rw [hdrop]
      exact hoff
    · cases hc : st.cached (off / 16384) with
      | true =>
        rw [hwritten.byteAt_outside hborder (by omega) hc] at hoff
        exact h.bytes off byte hoff
      | false =>
        -- a fresh buffer has only what was copied to it
        exfalso
        have hold := not_cached_iff.mp hc
        have hpiece := hwritten.pieceAt (off / 16384)
        rw [hold] at hpiece
        split at hpiece
        · rw [byteAt_of_piece hpiece rfl] at hoff
          simp only [copyPiece, msPieceUnitSize] at hoff
          rw [if_neg (by omega)] at hoff
          cases hoff
        · rw [byteAt_of_empty hpiece rfl] at hoff
          cases hoff

/-- **Data of the file** can be written, whatever its offset: where an assert
    would fail, nothing is written. -/
theorem Intact.storageWrite {pos n : Nat} (h : st.Intact file) (hbuf : buf <+: file.drop pos)
    (hst : st.storageWrite buf pos = some (st', n)) : st'.Intact file := by
  have haligned : st.WriteAligned pos buf.length := by
    by_contra hassert
    unfold MemStorage.storageWrite at hst
    rw [if_neg hassert] at hst
    cases hst
  obtain ⟨hborder, hend⟩ := writeAligned_iff.mp haligned
  by_cases hempty : buf.length = 0
  · unfold MemStorage.storageWrite at hst
    rw [if_pos haligned, if_pos hempty] at hst
    cases hst
    exact h
  · have hfits := hbuf.length_le
    rw [List.length_drop] at hfits
    rcases h.size with hunknown | hknown
    · -- a table without blocks takes no data
      have htable : st.blocks.length = 0 := by
        rw [st.sized, h.estimate, hunknown]
        rfl
      unfold MemStorage.storageWrite at hst
      rw [if_pos haligned, if_neg hempty, htable,
        if_neg (fun hin => Nat.not_lt_zero _ hin.2)] at hst
      cases hst
    · obtain ⟨stored, hstored, hwritten⟩ := storageWrite_spec haligned (by
        rw [h.estimate, hknown]
        omega)
      rw [hst] at hstored
      cases hstored
      exact h.written hwritten (by omega) hend hbuf

/-! ## Reads -/

/-- **A read** that meets its asserts returns bytes of the file, from the
    offset on, and none that was not written. -/
theorem Intact.storageRead {pos : Int} {len : Nat} {cells : List (Option UInt8)}
    (h : st.Intact file) (hread : st.storageRead pos len = some cells) :
    ∃ bytes, cells = bytes.map some ∧ bytes <+: (file.drop pos.toNat).take len := by
  have hassert : 0 ≤ pos ∧ (st.estimateSize = 0 ∨ pos + len ≤ st.estimateSize) := by
    by_contra hassert
    unfold MemStorage.storageRead at hread
    rw [if_neg hassert] at hread
    cases hread
  obtain ⟨p, rfl⟩ := Int.eq_ofNat_of_zero_le hassert.1
  rw [Int.toNat_natCast]
  rcases h.size with hunknown | hknown
  · have hzero := h.estimate.trans hunknown
    unfold MemStorage.storageRead at hread
    rw [if_pos hassert, if_pos ⟨hzero, hunknown⟩] at hread
    cases hread
    exact ⟨[], rfl, List.nil_prefix⟩
  · by_cases hsize : st.filesize = 0
    · unfold MemStorage.storageRead at hread
      rw [if_pos hassert, if_pos ⟨h.estimate.trans hsize, hsize⟩] at hread
      cases hread
      exact ⟨[], rfl, List.nil_prefix⟩
    · have hest := h.estimate
      have hspec := @storageRead_spec st p len (by rw [hest]; exact h.filled) (by omega) (by omega)
      rw [hread] at hspec
      refine ⟨_, Option.some.inj hspec, ?_⟩
      rw [List.prefix_iff_getElem?]
      intro i hi
      have hcell := readRun_getElem? hi
      rw [List.getElem?_eq_getElem hi] at hcell
      have hlen := @readRun_length_le _ st.byteAt p len
      rw [List.getElem?_take_of_lt (by omega), List.getElem?_drop]
      exact h.bytes _ _ hcell.symm

end intact

end MemStorage

end Libms
