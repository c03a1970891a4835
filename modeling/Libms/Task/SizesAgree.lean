import Mathlib
import Libms.Storage.Eviction
import Libms.Task.Callbacks
import Libms.Task.Filesize

/-! # The two sizes of the storage

    The storage keeps the size of the file and an estimate of it, and has a
    setter for each. A task sets the size for a pipe that was opened without
    a length, and the estimate for any other; but a pipe is opened with a
    length only once the size is known, and then the estimate stays.

    * `SizesAgree`: the invariant. Beside the two sizes it speaks of the
      pipes in flight, of the pipes opened in the current call, and of what
      is cached.
    * `sizes_agree`: it holds after every call of a run. -/

namespace Libms

open Runs

namespace MemStorage

/-- A storage without an estimate has no table to write to. -/
theorem storageWrite_unsized {buf : List UInt8} {pos : Int} {st st' : MemStorage} {write : Nat}
    (hest : st.estimateSize = 0) (h : st.storageWrite buf pos = some (st', write)) : st' = st := by
  have htable : st.blocks.length = 0 := by
    rw [st.sized, hest]
    rfl
  unfold storageWrite at h
  split at h
  · split at h
    · cases h
      rfl
    · rw [htable, if_neg (fun hin => Nat.not_lt_zero _ hin.2)] at h
      cases h
  · cases h

end MemStorage

namespace MsTask

/-! ## The invariant -/

/-- The size is the estimate; a pipe with a length was opened after the size
    was known; a pipe opened since the count stood at `first` has a length
    if and only if the size is known; nothing is cached before it is. -/
structure SizesAgree (first : Nat) (t : MsTask) : Prop where
  estimate : t.storage.estimateSize = t.storage.filesize
  nonneg : 0 ≤ t.storage.filesize
  known : ∀ id ∈ t.pipes, id < t.opened
  ranged : ∀ id < t.opened, (t.pipeOf id).reqLen ≠ 0 → 0 < t.storage.filesize
  asked : ∀ id, first ≤ id → id < t.opened →
    ((t.pipeOf id).reqLen = 0 ↔ t.storage.filesize = 0)
  empty : t.storage.filesize = 0 → ∀ i, t.storage.cached i = false

section agree

variable {w : IntArith} {react : React} {first : Nat} {t t' : MsTask} {id : Nat}

/-- At the start of a call no pipe was opened in it. -/
theorem SizesAgree.restart (h : SizesAgree first t) : SizesAgree t.opened t :=
  { h with asked := fun _ hfirst hid => absurd hfirst (Nat.not_le.mpr hid) }

/-! ## Readers -/

theorem SizesAgree.createPipeFor (h : SizesAgree first t) {pos : Nat} {len : Int}
    (hlen : if t.storage.filesize = 0 then len = 0 else 0 < len) :
    SizesAgree first (t.createPipeFor pos len) := by
  rcases createPipeFor_cases t pos len with hsame | ⟨url, hopened⟩
  · rw [hsame]
    exact h
  · -- the new pipe has a length if and only if the size is known
    have hreq : (msHttpPipeCreate url pos len).reqLen = 0 ↔ t.storage.filesize = 0 := by
      have hnonneg := h.nonneg
      simp only [msHttpPipeCreate]
      split at hlen
      · rename_i hunknown
        simp [hlen, hunknown]
      · rename_i hsize
        rw [if_pos hlen]
        omega
    have hold : ∀ x < t.opened, ((t.createPipeFor pos len).pipeOf x).reqLen =
        (t.pipeOf x).reqLen := fun x hx => congrArg HttpPipe.reqLen (hopened.old x hx)
    have hnew : ((t.createPipeFor pos len).pipeOf t.opened).reqLen =
        (msHttpPipeCreate url pos len).reqLen := by
      rw [hopened.new]
      rfl
    constructor
    · rw [hopened.storage]
      exact h.estimate
    · rw [hopened.storage]
      exact h.nonneg
    · exact hopened.known h.known
    · intro x hx hne
      rw [hopened.opened] at hx
      rw [hopened.storage]
      rcases Nat.lt_succ_iff_lt_or_eq.mp hx with hlt | heq
      · rw [hold x hlt] at hne
        exact h.ranged x hlt hne
      · rw [heq, hnew] at hne
        have := h.nonneg
        have hsize : t.storage.filesize ≠ 0 := fun hzero => hne (hreq.mpr hzero)
        omega
    · intro x hfirst hx
      rw [hopened.opened] at hx
      rw [hopened.storage]
      rcases Nat.lt_succ_iff_lt_or_eq.mp hx with hlt | heq
      · rw [hold x hlt]
        exact h.asked x hfirst hlt
      · rw [heq, hnew]
        exact hreq
    · rw [hopened.storage]
      exact h.empty

/-- A range has a length if and only if the size is known. -/
theorem SizesAgree.dispatchReader (h : SizesAgree first t) (r : Reader) :
    SizesAgree first (t.dispatchReader w r) := by
  rcases dispatchReader_cases w t r with
    hsame | habort | ⟨pos, len, stop, hopen, -, hrange, hmore, hlen⟩
  · rw [hsame]
    exact h
  · rw [habort]
    exact { h with }
  · rw [hopen]
    apply h.createPipeFor
    have hstop := (wantedRange_range hrange).2
    rw [h.estimate] at hstop
    have hnonneg := h.nonneg
    have hcache : 0 < maxCacheLen := by decide
    split
    · -- without an estimate the range is open-ended
      rename_i hunknown
      have hzero : stop = 0 := by
        rw [hstop, hunknown]
        exact min_eq_right (by omega)
      rw [hlen, hzero]
      rfl
    · rename_i hsize
      have hpos : 0 < stop := by
        rw [hstop]
        exact lt_min (by omega) (by omega)
      rw [hlen, if_pos hpos]
      omega

theorem sizesAgree_readerInvariant : ReaderInvariant w (SizesAgree first) where
  abort _ h := { h with }
  readers _ _ h := { h with }
  dispatch _ r h := h.dispatchReader r

/-! ## Sizes -/

/-- A size sets both. No pipe was opened in this call yet. -/
theorem SizesAgree.setFilesize (h : SizesAgree t.opened t) (filesize : Int) :
    SizesAgree t.opened (t.setFilesize filesize) := by
  simp only [MsTask.setFilesize]
  split
  · exact { h with }
  · rename_i st hst
    obtain ⟨hfile, hest, -, -⟩ := MemStorage.setFilesize_spec hst
    have hpos : 0 < filesize := by
      unfold MemStorage.setFilesize at hst
      split at hst
      · rename_i hassert
        exact hassert.1
      · cases hst
    refine { h with
      estimate := hest.trans hfile.symm
      nonneg := ?_
      ranged := fun _ _ _ => ?_
      asked := fun _ hfirst hid => absurd hfirst (Nat.not_le.mpr hid)
      empty := fun hzero => ?_ }
    · rw [hfile]
      exact Int.le_of_lt hpos
    · rw [hfile]
      exact hpos
    · rw [hfile] at hzero
      omega

/-- Once the size is known, the estimate stays. -/
theorem setContentSize_of_known (hsize : 0 < t.storage.filesize) (pos size : Int) :
    t.setContentSize pos size = t := by
  have hst : t.storage.setContentSize pos size = some t.storage := by
    unfold MemStorage.setContentSize
    rw [dif_pos hsize]
  unfold setContentSize
  rw [hst]

/-! ## Callbacks -/

theorem SizesAgree.closePipe (h : SizesAgree first t) (id : Nat) :
    SizesAgree first (t.closePipe id) := by
  have hreq : ∀ x, ((t.closePipe id).pipeOf x).reqLen = (t.pipeOf x).reqLen := by
    intro x
    by_cases hx : x = id
    · subst hx
      simp [MsTask.closePipe, setPipe, HttpPipe.pipeClose]
    · simp [MsTask.closePipe, setPipe, hx]
  refine { h with
    known := fun x hx => h.known x (closePipe_pruned.pipes x hx)
    ranged := fun x hx => ?_
    asked := fun x hfirst hx => ?_ }
  · rw [hreq]
    exact h.ranged x hx
  · rw [hreq]
    exact h.asked x hfirst hx

theorem SizesAgree.dispatchPipe (h : SizesAgree first t) (id : Nat) :
    SizesAgree first (t.dispatchPipe id) := by
  rcases @dispatchPipe_cases t id with hstays | hclose
  · rw [hstays]
    exact h
  · rw [hclose]
    exact h.closePipe id

/-- A pipe moves and keeps the length it was opened with. -/
theorem SizesAgree.move (h : SizesAgree first t) (id pos : Nat) :
    SizesAgree first (t.setPipe id { t.pipeOf id with pos := pos }) := by
  have hreq : ∀ x, ((t.setPipe id { t.pipeOf id with pos := pos }).pipeOf x).reqLen =
      (t.pipeOf x).reqLen := by
    intro x
    by_cases hx : x = id
    · subst hx
      simp [setPipe]
    · simp [setPipe, hx]
  refine { h with ranged := fun x hx => ?_, asked := fun x hfirst hx => ?_ }
  · rw [hreq]
    exact h.ranged x hx
  · rw [hreq]
    exact h.asked x hfirst hx

/-- Data changes no size, and without a size it cannot be stored. -/
theorem SizesAgree.recvStore (h : SizesAgree first t) (buf : List UInt8) (pos : Nat) :
    SizesAgree first (t.recvStore w buf pos) := by
  have hcleared := @MemStorage.clearBufferFor_spec w t.holdPositions t.storage pos buf.length
  have hfile : (t.recvCleared w pos buf.length).filesize = t.storage.filesize := hcleared.filesize
  have hest : (t.recvCleared w pos buf.length).estimateSize = t.storage.estimateSize :=
    hcleared.estimateSize
  unfold MsTask.recvStore
  split
  · exact { h with }
  · rename_i st write hwrite
    obtain ⟨hfile', hest'⟩ := MemStorage.storageWrite_sizes hwrite
    rw [hfile] at hfile'
    rw [hest] at hest'
    have hstored : SizesAgree first { t with storage := st } := by
      refine { h with
        estimate := hest'.trans (h.estimate.trans hfile'.symm)
        nonneg := ?_
        ranged := fun x hx => ?_
        asked := fun x hfirst hx => ?_
        empty := fun hzero i => ?_ }
      · rw [hfile']
        exact h.nonneg
      · rw [hfile']
        exact h.ranged x hx
      · rw [hfile']
        exact h.asked x hfirst hx
      · rw [hfile'] at hzero
        -- a table without blocks takes no data, so nothing was cached now
        have hunsized : (t.recvCleared w pos buf.length).estimateSize = 0 :=
          hest.trans (h.estimate.trans hzero)
        rw [MemStorage.storageWrite_unsized hunsized hwrite]
        by_contra hcached
        have hbefore : t.storage.cached i = true :=
          @MemStorage.clearBufferFor_subset w t.holdPositions t.storage pos buf.length i
            (eq_true_of_ne_false hcached)
        rw [h.empty hzero i] at hbefore
        cases hbefore
    split
    · exact hstored
    · exact { hstored with }

theorem SizesAgree.onRecv (h : SizesAgree first t) (buf : List UInt8) (pos : Nat) :
    SizesAgree first (t.onRecv w react id buf pos) := by
  apply onRecv_preserves (h.recvStore buf pos)
  · exact fun _ c hs => sizesAgree_readerInvariant.notify react c hs
  · exact fun _ hs => hs.dispatchPipe id

/-- Any callback but `on_recv`, made at the start of a call by a pipe of the
    task. -/
theorem SizesAgree.callback {c : PipeCall} (hc : c.isRecv = false) (h : SizesAgree t.opened t)
    (hid : id < t.opened) : SizesAgree t.opened (t.callback w react id c) := by
  refine CallbackSteps.callback ?_ hc
  exact
    { abort := { h with }
      header := fun _ => { h with }
      redirect := fun _ => { h with }
      filesize := h.setFilesize
      contentSize := fun pos size hlen => by
        -- the estimate is only set for a pipe with a length: the size is known
        rw [setContentSize_of_known (h.ranged id hid hlen)]
        exact h
      complete := h.closePipe id
      close := fun n => ({ h with } : SizesAgree t.opened { t with code := n }).closePipe id
      notify := fun _ _ hs => sizesAgree_readerInvariant.notify react _ hs
      dispatch := fun _ hs => sizesAgree_readerInvariant.dispatchReaders hs }

/-! ## Runs -/

/-- **Step lemma.** After a call the pipes it opened are accounted for. -/
theorem SizesAgree.opStep (h : SizesAgree first t) (op : TaskOp) :
    SizesAgree t.opened (t.opStep w op) := by
  have hcall := h.restart
  apply OpSteps.opStep
  constructor
  case stay => exact hcall
  case addReader => exact fun r => sizesAgree_readerInvariant.addReader r hcall
  case removeReader =>
    intro id
    have hwithout : SizesAgree t.opened
        { t with readers := t.readers.filter fun r => r.id ≠ id } := { hcall with }
    exact foldl_preserves (fun _ x hs => hs.dispatchPipe x) _ hwithout
  case reader => exact fun id act => sizesAgree_readerInvariant.readerAct id act hcall
  case recv => exact fun id pos buf start _ _ => (hcall.move id pos).onRecv buf start
  case callback => exact fun id _ _ hc hin => hcall.callback hc (hcall.known id hin)

theorem msTaskOpen_sizesAgree (url : List Char) : SizesAgree 0 (msTaskOpen url) where
  estimate := rfl
  nonneg := Int.le_refl 0
  known _ hid := absurd hid List.not_mem_nil
  ranged _ hid := absurd hid (Nat.not_lt_zero _)
  asked _ _ hid := absurd hid (Nat.not_lt_zero _)
  empty _ _ := rfl

/-- The invariant in every run. -/
theorem run_sizesAgree (w : IntArith) (url : List Char) (ops : List TaskOp) :
    ∃ first, SizesAgree first (run (MsTask.opStep w) (msTaskOpen url) ops) := by
  -- each call counts the pipes it opens from where the last one ended
  have hstep : ∀ s op, (∃ first, SizesAgree first s) →
      ∃ first, SizesAgree first (s.opStep w op) := by
    intro s op ⟨_, hs⟩
    exact ⟨s.opened, hs.opStep op⟩
  exact run_preserves hstep ⟨0, msTaskOpen_sizesAgree url⟩ ops

end agree

end MsTask

open MsTask in
/-- **Estimated and known size never diverge.** After every call of a run the
    size of the storage is its estimate, a pipe that would set the estimate
    changes nothing, and nothing is cached while the size is unknown. A
    call sets the size before it opens pipes, and those it opens have no
    length if and only if the size is unknown. (`opStep` leaves out what a
    pipe calls back after it has left the queue.) -/
theorem sizes_agree (w : IntArith) (url : List Char) (ops : List TaskOp) :
    let t := run (opStep w) (msTaskOpen url) ops
    t.storage.filesize = t.storage.estimateSize ∧
      (∀ id ∈ t.pipes, (t.pipeOf id).reqLen ≠ 0 → ∀ pos size, t.setContentSize pos size = t) ∧
      (t.storage.filesize = 0 → ∀ i, t.storage.cached i = false) ∧
      ∀ op, ∀ id, t.opened ≤ id → id < (t.opStep w op).opened →
        (((t.opStep w op).pipeOf id).reqLen = 0 ↔ (t.opStep w op).storage.filesize = 0) := by
  intro t
  obtain ⟨first, h⟩ : ∃ first, SizesAgree first t := run_sizesAgree w url ops
  refine ⟨h.estimate.symm, fun id hid hlen pos size => ?_, h.empty, fun op => (h.opStep op).asked⟩
  exact setContentSize_of_known (h.ranged id (h.known id hid) hlen) pos size

end Libms
