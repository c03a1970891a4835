import Mathlib
import Libms.Storage.Calls
import Libms.Storage.CompletedSize

/-! # The counter counts the cached bytes

    `storage_write` counts what the caller supplied for a new piece, and
    `clear_buffer_for` takes off what the size of the file leaves for it.
    On a file of known size the two agree for every piece, the short one at
    the end of the file included.

    * `bytesInFile`: how much of a piece lies inside the file.
    * `CountsCached`: the invariant, kept by every write inside the file and
      by every eviction.
    * `completedSize_counts_cached`: the counter in every run. -/

namespace Libms

open Runs

namespace MemStorage

/-- The number of bytes of piece `i` inside a file of `F` bytes. -/
def bytesInFile (F : Int) (i : Nat) : Int := max 0 (min 16384 (F - i * 16384))

theorem bytesInFile_nonneg (F : Int) (i : Nat) : 0 ≤ bytesInFile F i := le_max_left _ _

/-- A piece that starts inside the file is there up to its end, or to that
    of the file. -/
theorem bytesInFile_eq {F : Int} {i : Nat} (h : (i * 16384 : Int) ≤ F) :
    bytesInFile F i = min 16384 (F - i * 16384) :=
  max_eq_right (by omega)

/-- The pieces of a file are the whole file. -/
theorem sum_bytesInFile {F : Int} (hF : 0 ≤ F) (n : Nat) :
    ∑ i ∈ Finset.range n, bytesInFile F i = min F (n * 16384) := by
  induction n with
  | zero =>
    rw [Finset.sum_range_zero]
    omega
  | succ n ih =>
    rw [Finset.sum_range_succ, ih, bytesInFile]
    push_cast
    omega

/-- Some pieces of a file are not more than the file. -/
theorem sum_bytesInFile_le {F : Int} (hF : 0 ≤ F) (s : Finset Nat) :
    ∑ i ∈ s, bytesInFile F i ≤ F := by
  have hsub : s ⊆ Finset.range (s.sup id + 1) := by
    intro i hi
    exact Finset.mem_range.mpr (Nat.lt_succ_of_le (Finset.le_sup (f := id) hi))
  calc ∑ i ∈ s, bytesInFile F i
      ≤ ∑ i ∈ Finset.range (s.sup id + 1), bytesInFile F i :=
        Finset.sum_le_sum_of_subset_of_nonneg hsub fun i _ _ => bytesInFile_nonneg F i
    _ = min F ((s.sup id + 1 : Nat) * 16384) := sum_bytesInFile hF _
    _ ≤ F := min_le_left _ _

/-- Every cached piece has a byte of the file. -/
def InsideFile (st : MemStorage) : Prop :=
  ∀ i, st.cached i → (i * 16384 : Int) < st.filesize

/-- What is cached of a file is the sum over its cached pieces. -/
theorem InsideFile.cachedBytes_eq {st : MemStorage} (h : st.InsideFile) :
    st.cachedBytes = ∑ i ∈ st.cachedPieces, bytesInFile st.filesize i := by
  rw [cachedBytes_eq_sum]
  apply Finset.sum_congr rfl
  intro i hi
  exact (bytesInFile_eq (h i (mem_cachedPieces.mp hi)).le).symm

/-- The storage of a file of `F` bytes counts what is cached. -/
structure CountsCached (F : Int) (st : MemStorage) : Prop where
  filesize : st.filesize = F
  inside : st.InsideFile
  counted : st.completedSize = st.cachedBytes

section counts

variable {F : Int} {st : MemStorage}

/-- A storage that was given its size and nothing else. -/
theorem countsCached_setFilesize (hst : msMemStorageOpen.setFilesize F = some st) :
    CountsCached F st := by
  obtain ⟨hfile, _, hcompleted, hpiece⟩ := setFilesize_spec hst
  have hempty : ∀ i, st.cached i = false := by
    intro i
    rw [not_cached_iff]
    exact hpiece i
  refine ⟨hfile, ?_, ?_⟩
  · intro i hi
    rw [hempty i] at hi
    cases hi
  · have hnone : st.cachedPieces = ∅ := by
      rw [Finset.eq_empty_iff_forall_notMem]
      intro i hi
      rw [mem_cachedPieces, hempty i] at hi
      cases hi
    rw [cachedBytes_eq_sum, hnone, Finset.sum_empty]
    exact hcompleted

theorem CountsCached.write {buf : List UInt8} {pos : Int} (h : CountsCached F st) (hF : 0 < F)
    (hop : InFile F st (.write buf pos)) : CountsCached F (st.step (.write buf pos)) := by
  obtain ⟨hpos, hfits, haligned⟩ := hop
  obtain ⟨p, rfl⟩ := Int.eq_ofNat_of_zero_le hpos
  have hknown : 0 < st.filesize := by rw [h.filesize]; exact hF
  have hfits : (p : Int) + buf.length ≤ st.filesize := by rw [h.filesize]; exact hfits
  obtain ⟨st', hst', hwritten⟩ :=
    storageWrite_spec haligned (by rw [st.known hknown]; exact hfits)
  have hcall : st.call (.write buf p) = some st' := by
    simp only [call, hst', Option.map_some]
  rw [step_of_call hcall]
  have hbytes := (storageWrite_bytes haligned hknown hfits hst').1
  have hcounted := h.counted
  refine ⟨hwritten.filesize.trans h.filesize, fun i hi => ?_, by omega⟩
  -- a new piece starts inside the range that is written
  rw [hwritten.cached, Bool.or_eq_true, decide_eq_true_eq] at hi
  rw [hwritten.filesize]
  rcases hi with hold | hnew
  · exact h.inside i hold
  · omega

theorem CountsCached.clear {pos : Int} {len : Nat} {holdPos : List Int} (h : CountsCached F st) :
    CountsCached F (st.step (.clearBufferFor pos len holdPos)) := by
  have hcall : st.call (.clearBufferFor pos len holdPos) =
      some (st.clearBufferFor exactInt holdPos pos len) := rfl
  rw [step_of_call hcall]
  have hsize := (@clearBufferFor_spec exactInt holdPos st pos len).filesize
  have hbytes := @clearBufferFor_bytes holdPos st pos len
  have hcounted := h.counted
  refine ⟨hsize.trans h.filesize, fun i hi => ?_, by omega⟩
  rw [hsize]
  exact h.inside i (clearBufferFor_subset hi)

theorem CountsCached.step {c : StorageCall} (h : CountsCached F st) (hF : 0 < F)
    (hc : InFile F st c) : CountsCached F (st.step c) := by
  cases c with
  | setFilesize _ => exact hc.elim
  | setContentSize _ _ => exact hc.elim
  | write buf pos => exact h.write hF hc
  | clearBufferFor pos len holdPos => exact h.clear

end counts

/-- The invariant in every run inside a file. -/
theorem countsCached_run {F : Int} (hF : 0 < F) {st : MemStorage} {calls : List StorageCall}
    (hst : msMemStorageOpen.setFilesize F = some st) (hcalls : Along step (InFile F) st calls) :
    CountsCached F (run step st calls) :=
  run_invariant (fun _ _ h hc => h.step hF hc) (countsCached_setFilesize hst) hcalls

/-- **The counter.** On a storage whose size was set to `F`, after any run
    of writes inside the file and of evictions with any arguments,
    `completed_size` is the sum over the cached pieces of their bytes
    inside the file. -/
theorem completedSize_counts_cached (F : Int) (hF : 0 < F) :
    ∃ st, msMemStorageOpen.setFilesize F = some st ∧
      ∀ calls, Along step (InFile F) st calls →
        let st' := run step st calls
        st'.completedSize = ∑ i ∈ st'.cachedPieces, bytesInFile F i ∧
          0 ≤ st'.completedSize ∧ st'.completedSize ≤ F := by
  obtain ⟨st, hst⟩ := setFilesize_open hF
  refine ⟨st, hst, fun calls hcalls => ?_⟩
  intro st'
  have h : CountsCached F st' := countsCached_run hF hst hcalls
  have hsum : st'.completedSize = ∑ i ∈ st'.cachedPieces, bytesInFile F i := by
    rw [h.counted, h.inside.cachedBytes_eq, h.filesize]
  refine ⟨hsum, ?_, ?_⟩
  · rw [hsum]
    exact Finset.sum_nonneg fun i _ => bytesInFile_nonneg F i
  · rw [hsum]
    exact sum_bytesInFile_le (by omega) _

/-- A file of three bytes, written twice and put through an eviction. -/
theorem completedSize_counts_cached_three :
    ∃ st, msMemStorageOpen.setFilesize 3 = some st ∧
      let st' := run step st
        [.write [7, 8, 9] 0, .write [1, 2, 3] 0, .clearBufferFor 0 16384 [0]]
      st'.completedSize = ∑ i ∈ st'.cachedPieces, bytesInFile 3 i ∧
        0 ≤ st'.completedSize ∧ st'.completedSize ≤ 3 := by
  obtain ⟨st, hst, hrun⟩ := completedSize_counts_cached 3 (by decide)
  have hest : st.estimateSize = 3 := (setFilesize_spec hst).2.1
  have haligned : st.WriteAligned 0 3 := by
    rw [writeAligned_iff]
    exact ⟨by decide, Or.inl hest.symm⟩
  have hagain : (st.step (.write [7, 8, 9] 0)).WriteAligned 0 3 := by
    rw [writeAligned_iff]
    refine ⟨by decide, Or.inl ?_⟩
    obtain ⟨st', hcall, hwritten⟩ :=
      @call_write st [7, 8, 9] 0 haligned (by rw [hest]; decide)
    have hstep : st.step (.write [7, 8, 9] 0) = st' := step_of_call hcall
    rw [hstep, hwritten.estimateSize]
    exact hest.symm
  exact ⟨st, hst, hrun _ ⟨⟨by decide, by decide, haligned⟩, ⟨by decide, by decide, hagain⟩,
    trivial, trivial⟩⟩

end MemStorage

end Libms
