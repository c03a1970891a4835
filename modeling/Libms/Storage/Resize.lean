import Mathlib
import Libms.Storage.Calls
import Libms.Storage.Windows

/-! # What a new size does to the cache

    `set_filesize` and `set_content_size` reallocate the block table and
    change the size that reads are checked against. The pieces stay as they
    are, so what a read can reach depends on where the size lies in them.

    * `Reads`: a byte that some read returns; `reads_iff`.
    * `KeepsCache`: the table has grown by null entries, and reads return the
      same bytes as before, all of them written.
    * `resizesWell_of`, `ResizesWell.fits`: when a call does that.
    * `filled_run`: the calls before it keep the piece buffers filled.
    * `resizing_keeps_cache`: the two together. -/

namespace Libms

open PartialMap Runs

namespace MemStorage

/-- Some read returns `v` for the byte at `off`, where `none` is a byte that
    was never written. -/
def Reads (st : MemStorage) (off : Nat) (v : Option UInt8) : Prop :=
  ∃ (pos len : Nat) (bytes : List (Option UInt8)), pos ≤ off ∧
    st.storageRead pos len = some bytes ∧ bytes[off - pos]? = some v

/-- `st'` is `st` with a larger table and the same bytes to read. -/
structure KeepsCache (st st' : MemStorage) : Prop where
  entries : st'.blocks.length = blockNum st'.estimateSize
  initialised : ∃ n, st'.blocks = st.blocks ++ List.replicate n none
  kept : ∀ (i : Nat) (block : Block), st.blocks[i]? = some (some block) →
    st'.blocks[i]? = some (some block)
  written : ∀ off, ¬ st'.Reads off none
  same : ∀ off v, st'.Reads off v ↔ st.Reads off v

/-- A call that sets a size, with the asserts it makes. -/
def SetsSize (st : MemStorage) : StorageCall → Prop
  | .setFilesize filesize => 0 < filesize ∧ st.filesize ≤ filesize
  | .setContentSize _ _ => True
  | .write _ _ | .clearBufferFor _ _ _ => False

/-- The estimated size that such a call asks for. -/
def newSize (st : MemStorage) : StorageCall → Int
  | .setFilesize filesize => filesize
  | .setContentSize pos size =>
    if 0 < st.filesize then st.estimateSize else max st.estimateSize (pos + size)
  | .write _ _ | .clearBufferFor _ _ _ => st.estimateSize

/-- The call succeeds, with a count of blocks that is an `int`, and keeps the
    cache. -/
def ResizesWell (st : MemStorage) (c : StorageCall) : Prop :=
  blockNum (st.newSize c) < 2 ^ 31 ∧ ∃ st', st.call c = some st' ∧ KeepsCache st st'

/-- The new count of blocks is an `int`, the table does not shrink, and the
    old and the new size have no cached byte between them. -/
def FitsCache (st : MemStorage) (c : StorageCall) : Prop :=
  blockNum (st.newSize c) < 2 ^ 31 ∧ blockNum st.estimateSize ≤ blockNum (st.newSize c) ∧
    ∀ off : Nat, min st.estimateSize (st.newSize c) ≤ off →
      off < max st.estimateSize (st.newSize c) → st.cached (off / 16384) = false

section reads

variable {st st' : MemStorage} {off : Nat} {v : Option UInt8} {c : StorageCall}

theorem storageRead_unsized {pos len : Nat} {bytes : List (Option UInt8)}
    (hest : st.estimateSize = 0) (h : st.storageRead pos len = some bytes) : bytes = [] := by
  unfold storageRead at h
  split at h
  · split at h
    · exact (Option.some.inj h).symm
    · simp only [hest, show blockNum 0 = 0 from rfl, Nat.zero_sub, readBlocks] at h
      exact (Option.some.inj h).symm
  · cases h

/-- A byte can be read iff it lies before the estimated size, in a piece
    that is cached. -/
theorem reads_iff : st.Reads off v ↔ (off : Int) < st.estimateSize ∧ st.slotAt off = some v := by
  constructor
  · rintro ⟨pos, len, bytes, hpos, hread, hbyte⟩
    obtain ⟨hin, -⟩ := List.getElem?_eq_some_iff.mp hbyte
    by_cases hest : st.estimateSize = 0
    · -- without a size there is nothing to read
      rw [storageRead_unsized hest hread] at hbyte
      cases hbyte
    · have hassert : (0 : Int) ≤ pos ∧
          (st.estimateSize = 0 ∨ (pos : Int) + len ≤ st.estimateSize) := by
        by_contra hnot
        rw [storageRead, if_neg hnot] at hread
        cases hread
      have hfits : (pos : Int) + len ≤ st.estimateSize := by omega
      have hslots := @storageRead_slots st pos len (by omega) hfits
      rw [hread, Option.some.injEq] at hslots
      rw [hslots] at hin hbyte
      have hle : (readRun st.slotAt pos len).length ≤ len := readRun_length_le
      refine ⟨by omega, ?_⟩
      rwa [readRun_getElem? hin, show pos + (off - pos) = off by omega] at hbyte
  · rintro ⟨hoff, hslot⟩
    refine ⟨off, 1, [v], Nat.le_refl _, ?_, by simp⟩
    rw [storageRead_slots (by omega) (by push_cast; omega)]
    simp [readRun, hslot]

/-- No read returns an unwritten byte iff every cached piece is filled. -/
theorem filled_iff_reads : st.Filled st.estimateSize ↔ ∀ off, ¬ st.Reads off none := by
  constructor
  · intro hfilled off hread
    obtain ⟨hoff, hslot⟩ := reads_iff.mp hread
    rw [hfilled.slotAt_eq hoff] at hslot
    cases hbyte : st.byteAt off with
    | none => simp [hbyte] at hslot
    | some b => simp [hbyte] at hslot
  · intro hread off hoff hcached
    obtain ⟨buf, hbuf⟩ := Option.isSome_iff_exists.mp hcached
    rw [byteAt_of_piece hbuf rfl]
    by_contra hnone
    apply hread off
    rw [reads_iff, slotAt_of_piece hbuf rfl, Option.not_isSome_iff_eq_none.mp hnone]
    exact ⟨hoff, rfl⟩

/-! ## One call -/

/-- A call that sets a size fails iff the table would shrink. -/
theorem call_sets_iff (hc : st.SetsSize c) :
    (∃ st', st.call c = some st') ↔ blockNum st.estimateSize ≤ blockNum (st.newSize c) := by
  cases c with
  | setFilesize filesize =>
    rw [call, setFilesize_isSome_iff]
    exact and_iff_right hc
  | setContentSize pos size =>
    constructor
    · intro _
      apply blockNum_mono
      simp only [newSize]
      split
      · exact Int.le_refl _
      · exact le_max_left _ _
    · intro _
      exact setContentSize_isSome st pos size
  | write buf pos => exact hc.elim
  | clearBufferFor pos len holdPos => exact hc.elim

/-- What such a call leaves: the pieces, and the table with null entries
    behind it. -/
theorem call_sets_spec (hc : st.SetsSize c) (h : st.call c = some st') :
    st'.estimateSize = st.newSize c ∧ (∀ i, st'.pieceAt i = st.pieceAt i) ∧
      ∃ n, st'.blocks = st.blocks ++ List.replicate n none := by
  cases c with
  | setFilesize filesize =>
    obtain ⟨-, hest, -, hpiece⟩ := setFilesize_spec h
    exact ⟨hest, hpiece, setFilesize_blocks h⟩
  | setContentSize pos size =>
    obtain ⟨-, hest, -, hpiece⟩ := setContentSize_spec h
    exact ⟨hest, hpiece, setContentSize_blocks h⟩
  | write buf pos => exact hc.elim
  | clearBufferFor pos len holdPos => exact hc.elim

/-- The same pieces under a new size have the same bytes to read iff none
    is cached between the sizes. -/
theorem reads_same_iff (hpiece : ∀ i, st'.pieceAt i = st.pieceAt i) :
    (∀ off v, st'.Reads off v ↔ st.Reads off v) ↔
      ∀ off : Nat, min st.estimateSize st'.estimateSize ≤ off →
        off < max st.estimateSize st'.estimateSize → st.cached (off / 16384) = false := by
  have hslot : ∀ off, st'.slotAt off = st.slotAt off := fun off => by rw [slotAt, hpiece, slotAt]
  constructor
  · intro hsame off hlow hhigh
    by_contra hcached
    have hcached := Bool.eq_true_of_not_eq_false hcached
    rw [← slotAt_isSome] at hcached
    obtain ⟨v, hv⟩ := Option.isSome_iff_exists.mp hcached
    -- the byte can be read under one of the sizes only
    have hiff := hsame off v
    rw [reads_iff, reads_iff, hslot, hv] at hiff
    simp only [and_true] at hiff
    omega
  · intro hnone off v
    rw [reads_iff, reads_iff, hslot]
    refine and_congr_left fun hv => ?_
    -- a byte that is there lies before both sizes or behind both
    by_contra hbetween
    have hempty := hnone off (by omega) (by omega)
    rw [← slotAt_isSome, hv] at hempty
    cases hempty

theorem ResizesWell.fits (h : st.ResizesWell c) (hc : st.SetsSize c) :
    st.FitsCache c ∧ st.Filled st.estimateSize := by
  obtain ⟨hint, st', hcall, hkeeps⟩ := h
  obtain ⟨hest, hpiece, -⟩ := call_sets_spec hc hcall
  have hsame := (reads_same_iff hpiece).mp hkeeps.same
  rw [hest] at hsame
  refine ⟨⟨hint, (call_sets_iff hc).mp ⟨st', hcall⟩, hsame⟩, ?_⟩
  rw [filled_iff_reads]
  intro off hread
  exact hkeeps.written off ((hkeeps.same off none).mpr hread)

theorem resizesWell_of (hc : st.SetsSize c) (hfits : st.FitsCache c)
    (hfilled : st.Filled st.estimateSize) : st.ResizesWell c := by
  obtain ⟨hint, htable, hgap⟩ := hfits
  obtain ⟨st', hcall⟩ := (call_sets_iff hc).mpr htable
  obtain ⟨hest, hpiece, n, hn⟩ := call_sets_spec hc hcall
  have hsame := (reads_same_iff hpiece).mpr (by rw [hest]; exact hgap)
  refine ⟨hint, st', hcall, st'.sized, ⟨n, hn⟩, ?_, ?_, hsame⟩
  · intro i block hblock
    rw [hn, List.getElem?_append_left (List.getElem?_eq_some_iff.mp hblock).1]
    exact hblock
  · intro off hread
    exact filled_iff_reads.mp hfilled off ((hsame off none).mp hread)

end reads

/-! ## Runs -/

/-- A call that sets a size finds no cached piece between the sizes, and a
    table that does not shrink or grow past an `int`. -/
def KeepsFitting (st : MemStorage) (c : StorageCall) : Prop := st.SetsSize c → st.FitsCache c

/-- **Step lemma.** Every call keeps the cached pieces filled. -/
theorem filled_step (st : MemStorage) (c : StorageCall) (h : st.Filled st.estimateSize)
    (hc : st.KeepsFitting c) : (st.step c).Filled (st.step c).estimateSize := by
  cases hcall : st.call c with
  | none =>
    rw [step, hcall]
    exact h
  | some st' =>
    rw [step_of_call hcall]
    have hsets : st.SetsSize c → st'.Filled st'.estimateSize := by
      intro hsets
      obtain ⟨-, st'', hcall', hkeeps⟩ := resizesWell_of hsets (hc hsets) h
      rw [hcall, Option.some.injEq] at hcall'
      rw [hcall', filled_iff_reads]
      exact hkeeps.written
    cases c with
    | setFilesize filesize =>
      apply hsets
      exact (setFilesize_isSome_iff.mp ⟨st', hcall⟩).1
    | setContentSize pos size => exact hsets trivial
    | write buf pos =>
      obtain ⟨⟨_, write⟩, hwrite, rfl⟩ := Option.map_eq_some_iff.mp hcall
      obtain ⟨p, done, hborder, hwritten, hend⟩ := storageWrite_written hwrite
      rw [hwritten.estimateSize]
      exact hwritten.filled hborder hend h
    | clearBufferFor pos len holdPos =>
      have hcleared := @clearBufferFor_spec exactInt holdPos st pos len
      rw [← Option.some.inj hcall, hcleared.estimateSize]
      intro off hoff hcached
      -- a piece that is left is the one before the call
      have hbefore := clearBufferFor_subset hcached
      have hkept := hcleared.kept _ ((clearBufferFor_cached hbefore).mp hcached)
      rw [byteAt, paged, hkept]
      exact h off hoff hbefore

/-- **Run lemma.** The pieces are filled as long as the sizes fit. -/
theorem filled_run {calls : List StorageCall}
    (hcalls : Along step KeepsFitting msMemStorageOpen calls) :
    (run step msMemStorageOpen calls).Filled (run step msMemStorageOpen calls).estimateSize := by
  apply run_invariant (P := fun st => st.Filled st.estimateSize) filled_step _ hcalls
  intro off hoff hcached
  cases hcached

/-- **A new size.** After any calls, one of `set_filesize` or
    `set_content_size` that meets its asserts keeps the cache as it is iff
    the table does not shrink or grow past an `int`, no cached piece reaches
    between the old and the new estimated size, and every cached piece is
    filled up to the old one; the last holds as long as the others held of
    the calls before. -/
theorem resizing_keeps_cache (calls : List StorageCall) (c : StorageCall)
    (hc : (run step msMemStorageOpen calls).SetsSize c) :
    let st := run step msMemStorageOpen calls
    (st.ResizesWell c ↔ st.FitsCache c ∧ st.Filled st.estimateSize) ∧
      (Along step KeepsFitting msMemStorageOpen calls → st.Filled st.estimateSize) :=
  ⟨⟨fun h => h.fits hc, fun h => resizesWell_of hc h.1 h.2⟩, filled_run⟩

/-- Two pieces are announced and the first one is written. Then the file is
    found to be a little longer. -/
theorem resizing_keeps_cache_longer :
    let st := run step msMemStorageOpen
      [.setContentSize 0 32768, .write (List.replicate 16384 7) 0]
    st.cached 0 = true ∧ st.SetsSize (.setFilesize 40000) ∧
      st.ResizesWell (.setFilesize 40000) := by
  have hlength : (List.replicate 16384 (7 : UInt8)).length = 16384 := List.length_replicate
  generalize List.replicate 16384 (7 : UInt8) = buf at hlength
  obtain ⟨st₁, h₁⟩ := msMemStorageOpen.setContentSize_isSome 0 32768
  obtain ⟨hfile₁, hest₁, -, hpiece₁⟩ := setContentSize_spec h₁
  have hest₁ : st₁.estimateSize = 32768 := hest₁
  obtain ⟨st₂, h₂, hwritten⟩ := @call_write st₁ buf 0
    (by rw [writeAligned_iff, hlength]; exact ⟨by decide, Or.inr (by decide)⟩)
    (by rw [hest₁, hlength]; decide)
  have hrun : run step msMemStorageOpen [.setContentSize 0 32768, .write buf 0] = st₂ := by
    have hfirst : msMemStorageOpen.step (.setContentSize 0 32768) = st₁ := step_of_call h₁
    have hsecond : st₁.step (.write buf 0) = st₂ := step_of_call h₂
    rw [run_cons, hfirst, run_cons, hsecond, run_nil]
  have hest₂ : st₂.estimateSize = 32768 := hwritten.estimateSize.trans hest₁
  have hcached : ∀ i, st₂.cached i = decide (i = 0) := by
    intro i
    have hempty : st₁.cached i = false := not_cached_iff.mpr (hpiece₁ i)
    rw [hwritten.cached, hempty, Bool.false_or, hlength, decide_eq_decide]
    omega
  have hsets : (run step msMemStorageOpen
      [.setContentSize 0 32768, .write buf 0]).SetsSize (.setFilesize 40000) := by
    rw [hrun]
    exact ⟨by decide, by rw [hwritten.filesize.trans hfile₁]; decide⟩
  -- nothing was cached before the first size, and the write sets none
  have hbefore : Along step KeepsFitting msMemStorageOpen
      [.setContentSize 0 32768, .write buf 0] :=
    ⟨fun _ => ⟨by decide, by decide, fun _ _ _ => rfl⟩, fun hno => absurd hno id, trivial⟩
  have hgrown := resizing_keeps_cache [.setContentSize 0 32768, .write buf 0] (.setFilesize 40000)
    hsets
  rw [hrun] at hgrown hsets ⊢
  have hnew : st₂.newSize (.setFilesize 40000) = 40000 := rfl
  refine ⟨by rw [hcached]; rfl, hsets, hgrown.1.mpr ⟨⟨?_, ?_, ?_⟩, hgrown.2 hbefore⟩⟩
  · rw [hnew]
    decide
  · rw [hest₂, hnew]
    decide
  · intro off hlow hhigh
    rw [hest₂, hnew] at hlow hhigh
    rw [hcached, decide_eq_false_iff_not]
    omega

/-- A file of one byte, written, that turns out to have two: the second byte
    is in the piece of the first one, and was never written. -/
theorem resizing_uncovers :
    ∃ st : MemStorage, st.Reachable ∧ st.filesize = 1 ∧ st.SetsSize (.setFilesize 2) ∧
      ¬ st.ResizesWell (.setFilesize 2) := by
  obtain ⟨st₀, h₀⟩ := @setFilesize_open 1 (by decide)
  obtain ⟨hfile₀, hest₀, -, -⟩ := setFilesize_spec h₀
  obtain ⟨st₁, h₁, hwritten⟩ := @call_write st₀ [7] 0
    (by rw [writeAligned_iff, hest₀]; exact ⟨by decide, Or.inl rfl⟩) (by rw [hest₀]; decide)
  have hfile₁ : st₁.filesize = 1 := hwritten.filesize.trans hfile₀
  have hest₁ : st₁.estimateSize = 1 := hwritten.estimateSize.trans hest₀
  have hsets : st₁.SetsSize (.setFilesize 2) := ⟨by decide, by rw [hfile₁]; decide⟩
  refine ⟨st₁, (reachable_open.call (c := .setFilesize 1) h₀).call h₁, hfile₁, hsets, fun h => ?_⟩
  obtain ⟨⟨-, -, hfits⟩, -⟩ := h.fits hsets
  have hnew : st₁.newSize (.setFilesize 2) = 2 := rfl
  rw [hest₁, hnew] at hfits
  have hempty := hfits 1 (by decide) (by decide)
  rw [hwritten.cached] at hempty
  simp at hempty

end MemStorage

end Libms
