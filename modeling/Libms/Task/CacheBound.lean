import Mathlib
import Libms.Framework.Runs
import Libms.Storage.CompletedSize
import Libms.Storage.Released
import Libms.Storage.Windows
import Libms.Task.Callbacks
import Libms.Task.Feeding
import Libms.Task.HoldWindows

/-! # The cache is bounded

    `on_recv` makes room before it writes. When `clear_buffer_for` cannot
    give back what it was asked for, what is left lies in the head block or
    in a window of 30 MiB for each hold position, 1920 pieces at most.

    * `cachedBytes_le_holdSize`: what the windows and the head can hold.
    * `recv_completedSize`: one `on_recv`, for any hold positions.
    * `cache_bounded`: every run in which pipes bring bytes of the file only.
    * `cache_overruns`: a server that sends more than it was asked for. The
      pieces behind the end of the file are counted with 16 KiB each, and
      given back with a negative `piece_len`. -/

namespace Libms

open CInt Runs

namespace MemStorage

/-! ## What is held -/

/-- The slots inside one window. -/
theorem card_slotInWindow_le (n : Nat) (pos : Int) :
    {i ∈ Finset.range n | SlotInWindow pos i}.card ≤ 1920 := by
  have hleft : maxCacheLeft = 10485760 := rfl
  have hlen : maxCacheLen = 20971520 := rfl
  -- the first slot whose start lies in the window
  let first : Nat := ((max 0 (pos - 10485760) + 16383) / 16384).toNat
  have hsub : {i ∈ Finset.range n | SlotInWindow pos i} ⊆ Finset.Ico first (first + 1920) := by
    intro i hi
    obtain ⟨-, hfrom, hend⟩ := Finset.mem_filter.mp hi
    rw [hleft] at hfrom
    rw [hlen] at hend
    rw [Finset.mem_Ico]
    omega
  calc {i ∈ Finset.range n | SlotInWindow pos i}.card
      ≤ (Finset.Ico first (first + 1920)).card := Finset.card_le_card hsub
    _ = 1920 := by simp

/-- The slots of the head and of the windows. -/
theorem card_held_le (n : Nat) (holdPos : List Int) :
    {i ∈ Finset.range n | i < 128 ∨ ∃ pos ∈ holdPos, SlotInWindow pos i}.card ≤
      128 + 1920 * holdPos.length := by
  induction holdPos with
  | nil =>
    have hsub : {i ∈ Finset.range n | i < 128 ∨ ∃ pos ∈ ([] : List Int), SlotInWindow pos i} ⊆
        Finset.range 128 := by
      intro i hi
      simpa using (Finset.mem_filter.mp hi).2
    calc _ ≤ (Finset.range 128).card := Finset.card_le_card hsub
      _ = 128 + 1920 * ([] : List Int).length := by simp
  | cons pos holdPos ih =>
    have hsub : {i ∈ Finset.range n | i < 128 ∨ ∃ p ∈ pos :: holdPos, SlotInWindow p i} ⊆
        {i ∈ Finset.range n | i < 128 ∨ ∃ p ∈ holdPos, SlotInWindow p i} ∪
          {i ∈ Finset.range n | SlotInWindow pos i} := by
      intro i hi
      obtain ⟨hmem, hheld⟩ := Finset.mem_filter.mp hi
      rw [Finset.mem_union, Finset.mem_filter, Finset.mem_filter]
      rcases hheld with hhead | ⟨p, hp, hslot⟩
      · exact Or.inl ⟨hmem, Or.inl hhead⟩
      · rcases List.mem_cons.mp hp with rfl | hp
        · exact Or.inr ⟨hmem, hslot⟩
        · exact Or.inl ⟨hmem, Or.inr ⟨p, hp, hslot⟩⟩
    have hunion := (Finset.card_le_card hsub).trans (Finset.card_union_le _ _)
    have hone := card_slotInWindow_le n pos
    rw [List.length_cons]
    omega

/-- A cached piece has 16 KiB at most. -/
theorem cachedBytes_le_card (st : MemStorage) :
    st.cachedBytes ≤ 16384 * (st.cachedPieces.card : Int) := by
  rw [cachedBytes_eq_sum]
  calc ∑ i ∈ st.cachedPieces, min 16384 (st.filesize - i * 16384)
      ≤ ∑ _i ∈ st.cachedPieces, (16384 : Int) := Finset.sum_le_sum fun _ _ => min_le_left _ _
    _ = 16384 * (st.cachedPieces.card : Int) := by
        rw [Finset.sum_const, nsmul_eq_mul, mul_comm]

theorem holdSize_eq (n : Nat) : holdSize n = 2097152 + 31457280 * n := rfl

/-- **Packing.** If all that is cached lies in the head or in a window, it is
    at most what `hold_size` allows. -/
theorem cachedBytes_le_holdSize {st : MemStorage} {holdPos : List Int}
    (h : ∀ i, st.cached i → i < 128 ∨ heldPiece exactInt holdPos i = true) :
    st.cachedBytes ≤ holdSize holdPos.length := by
  have hsub : st.cachedPieces ⊆ {i ∈ Finset.range (st.blocks.length * 128) |
      i < 128 ∨ ∃ pos ∈ holdPos, SlotInWindow pos i} := by
    intro i hi
    obtain ⟨hmem, hcached⟩ := Finset.mem_filter.mp hi
    refine Finset.mem_filter.mpr ⟨hmem, ?_⟩
    rcases h i hcached with hhead | hheld
    · exact Or.inl hhead
    · exact Or.inr (heldPiece_iff.mp hheld)
  have hcard := (Finset.card_le_card hsub).trans (card_held_le _ holdPos)
  have hbytes := st.cachedBytes_le_card
  rw [holdSize_eq]
  omega

/-! ## One `on_recv` -/

/-- **Eviction and write**, for any hold positions: the counter does not
    grow, or stays below what the readers are worth and the data. -/
theorem recv_completedSize {st st' : MemStorage} {holdPos : List Int} {buf : List UInt8}
    {pos write : Nat} (h : st.Tallied) (hknown : 0 < st.filesize)
    (hfits : (pos : Int) + buf.length ≤ st.filesize) (hlen : buf.length < 2 ^ 31)
    (hst : (st.clearBufferFor exactInt holdPos pos buf.length).storageWrite buf pos =
      some (st', write)) :
    st'.Tallied ∧
      st'.completedSize ≤ max st.completedSize (holdSize holdPos.length + buf.length) := by
  have hcleared := @clearBufferFor_tallied holdPos st h pos buf.length
  have hfile := (@clearBufferFor_spec exactInt holdPos st pos buf.length).filesize
  obtain ⟨htallied, hwrite⟩ := storageWrite_tallied hcleared (by rw [hfile]; exact hknown)
    (by rw [hfile]; exact hfits) hst
  refine ⟨htallied, ?_⟩
  -- there was room, or enough was freed, or all that is left is held
  rcases @clearBufferFor_outcome holdPos st h pos buf.length hlen with
    ⟨hsame, hroom⟩ | hreleased | hheld
  · rw [hsame] at hwrite
    exact le_max_of_le_right (by omega)
  · exact le_max_of_le_left (by omega)
  · have hpacked := cachedBytes_le_holdSize hheld
    have hcounted := hcleared.counted
    exact le_max_of_le_right (by omega)

end MemStorage

namespace MsTask

open MemStorage

/-! ## Calls -/

section calls

variable {w : IntArith} {react : React} {t : MsTask} {id : Nat}

/-- Readers do not touch the storage. -/
theorem storage_readerInvariant (Q : MemStorage → Prop) :
    ReaderInvariant w fun t => Q t.storage where
  abort _ h := h
  readers _ _ h := h
  dispatch t r h := by
    rcases dispatchReader_cases w t r with hsame | habort | ⟨pos, len, _, hopen, _⟩
    · rw [hsame]
      exact h
    · rw [habort]
      exact h
    · rw [hopen]
      rcases createPipeFor_cases t pos len with hsame | ⟨url, hopened⟩
      · rw [hsame]
        exact h
      · rw [hopened.storage]
        exact h

/-- The counter of a task is right, and at most `bound`. -/
structure CacheWithin (bound : Int) (t : MsTask) : Prop where
  tallied : t.storage.Tallied
  le : t.storage.completedSize ≤ bound

theorem cacheWithin_readerInvariant {bound : Int} : ReaderInvariant w (CacheWithin bound) where
  abort _ h := ⟨h.tallied, h.le⟩
  readers _ _ h := ⟨h.tallied, h.le⟩
  dispatch t r h :=
    let hkept := (@storage_readerInvariant w fun st =>
      st.Tallied ∧ st.completedSize ≤ bound).dispatch t r ⟨h.tallied, h.le⟩
    ⟨hkept.1, hkept.2⟩

theorem CacheWithin.notify {bound : Int} (w : IntArith) (react : React) (c : PipeCall)
    (h : CacheWithin bound t) : CacheWithin bound (t.notify w react c) :=
  cacheWithin_readerInvariant.notify react c h

theorem CacheWithin.mono {bound bound' : Int} (h : CacheWithin bound t) (hle : bound ≤ bound') :
    CacheWithin bound' t := ⟨h.tallied, h.le.trans hle⟩

theorem CacheWithin.pruned {bound : Int} {t' : MsTask} (h : CacheWithin bound t)
    (hp : Pruned t t') : CacheWithin bound t' := by
  constructor
  · rw [hp.storage]
    exact h.tallied
  · rw [hp.storage]
    exact h.le

/-- Only `on_recv` changes the counter. -/
theorem CacheWithin.callback {bound : Int} {c : PipeCall} (hc : c.isRecv = false)
    (h : CacheWithin bound t) : CacheWithin bound (t.callback w react id c) := by
  refine CallbackSteps.callback ?_ hc
  exact
    { abort := ⟨h.tallied, h.le⟩
      header := fun _ => ⟨h.tallied, h.le⟩
      redirect := fun _ => ⟨h.tallied, h.le⟩
      filesize := fun f => by
        simp only [setFilesize]
        split
        · exact ⟨h.tallied, h.le⟩
        · rename_i st hst
          obtain ⟨htallied, hsame⟩ := setFilesize_tallied h.tallied hst
          exact ⟨htallied, hsame.trans_le h.le⟩
      contentSize := fun _ _ _ => by
        unfold setContentSize
        split
        · exact ⟨h.tallied, h.le⟩
        · rename_i st hst
          obtain ⟨htallied, hsame⟩ := setContentSize_tallied h.tallied hst
          exact ⟨htallied, hsame.trans_le h.le⟩
      complete := h.pruned closePipe_pruned
      close := fun _ => ⟨h.tallied, h.le⟩
      notify := fun _ c hs => hs.notify w react c
      dispatch := fun _ hs => cacheWithin_readerInvariant.dispatchReaders hs }

/-- `on_recv` with the hold positions that it passes. -/
theorem onRecv_cacheWithin {buf : List UInt8} {pos : Nat} (h : t.storage.Tallied)
    (hknown : 0 < t.storage.filesize) (hfits : (pos : Int) + buf.length ≤ t.storage.filesize)
    (hlen : buf.length < 2 ^ 31) :
    CacheWithin (max t.storage.completedSize (holdSize t.readers.length + buf.length))
      (t.onRecv exactInt react id buf pos) := by
  have hstore : CacheWithin (max t.storage.completedSize
      (holdSize t.readers.length + buf.length)) (t.recvStore exactInt buf pos) := by
    unfold recvStore
    split
    · exact ⟨h, le_max_left _ _⟩
    · rename_i st write hst
      obtain ⟨htallied, hle⟩ := recv_completedSize h hknown hfits hlen hst
      rw [holdPositions_length] at hle
      split
      · exact ⟨htallied, hle⟩
      · exact ⟨htallied, hle⟩
  apply onRecv_preserves hstore
  · exact fun _ c hs => hs.notify exactInt react c
  · exact fun _ hs => hs.pruned dispatchPipe_pruned

end calls

/-! ## Runs -/

/-- Data that a pipe hands on lies in the file, whose size is known, and is
    shorter than 2 GiB. Its length is that of a message that `mg_parse_http`
    has parsed, which takes it as an `int`; but no pipe compares what comes
    with the size of the file. -/
def OnFile (t : MsTask) : TaskOp → Prop
  | .callback _ _ (.onRecv buf pos) _ =>
    0 < t.storage.filesize ∧ (pos : Int) + buf.length ≤ t.storage.filesize ∧ buf.length < 2 ^ 31
  | _ => True

/-- An `on_recv` sees at most `n` readers and gets at most `m` bytes. -/
def RecvWithin (n m : Nat) (t : MsTask) : TaskOp → Prop
  | .callback _ _ (.onRecv buf _) _ => t.readers.length ≤ n ∧ buf.length ≤ m
  | _ => True

/-- Every call keeps the counter right; only `on_recv` may raise it. -/
theorem opStep_cacheWithin {t : MsTask} {bound : Int} (op : TaskOp) (h : CacheWithin bound t)
    (hfile : t.OnFile op)
    (hbound : ∀ id pos buf start react, op = .callback id pos (.onRecv buf start) react →
      holdSize t.readers.length + buf.length ≤ bound) :
    CacheWithin bound (t.opStep exactInt op) := by
  apply OpSteps.opStep
  constructor
  case stay => exact h
  case addReader => exact fun r => cacheWithin_readerInvariant.addReader r h
  case removeReader =>
    intro id
    have hwithout : CacheWithin bound
        { t with readers := t.readers.filter fun r => r.id ≠ id } := ⟨h.tallied, h.le⟩
    exact hwithout.pruned (dispatchPipes_pruned t.pipes)
  case reader => exact fun id act => cacheWithin_readerInvariant.readerAct id act h
  case recv =>
    rintro id pos buf start react rfl
    obtain ⟨hknown, hfits, hlen⟩ := hfile
    -- the pipe has moved, which the storage and the readers do not see
    have hrecv := @onRecv_cacheWithin react (t.setPipe id { t.pipeOf id with pos := pos }) id buf
      start h.tallied hknown hfits hlen
    exact hrecv.mono (max_le h.le (hbound id pos buf start react rfl))
  case callback => exact fun _ _ _ hc _ => h.callback hc

theorem recv_cacheWithin {t : MsTask} {id pos start : Nat} {buf : List UInt8} {react : React}
    (h : t.storage.Tallied) (hfile : t.OnFile (.callback id pos (.onRecv buf start) react)) :
    CacheWithin (max t.storage.completedSize (holdSize t.readers.length + buf.length))
      (t.opStep exactInt (.callback id pos (.onRecv buf start) react)) :=
  opStep_cacheWithin _ ⟨h, le_max_left _ _⟩ hfile
    fun _ _ _ _ _ heq => by cases heq; exact le_max_right _ _

/-- Every call keeps the counter right. -/
theorem opStep_tallied (t : MsTask) (op : TaskOp) (h : t.storage.Tallied) (hfile : t.OnFile op) :
    (t.opStep exactInt op).storage.Tallied := by
  by_cases hrecv : ∃ id pos buf start react, op = .callback id pos (.onRecv buf start) react
  · obtain ⟨id, pos, buf, start, react, rfl⟩ := hrecv
    exact (recv_cacheWithin h hfile).tallied
  · have hsame := opStep_cacheWithin op ⟨h, Int.le_refl _⟩ hfile
      fun id pos buf start react heq => absurd ⟨id, pos, buf, start, react, heq⟩ hrecv
    exact hsame.tallied

theorem msTaskOpen_tallied (url : List Char) : (msTaskOpen url).storage.Tallied where
  counted := Int.le_refl 0
  inFile _ hi := absurd hi Bool.false_ne_true

end MsTask

open MsTask in
/-- **The cache is bounded** as long as pipes bring bytes of the file. In a run
    whose `on_recv` calls saw at most `n` readers and at most `m` bytes each,
    `completed_size` is at most 2 MiB + 30 MiB n + m. The next `on_recv` does
    not raise it, or leaves it below this bound for its own readers and
    bytes; and so would any other choice of hold positions. -/
theorem cache_bounded (url : List Char) (ops : List TaskOp)
    (hops : Along (opStep exactInt) OnFile (msTaskOpen url) ops) :
    let t := run (opStep exactInt) (msTaskOpen url) ops
    (∀ n m : Nat, Along (opStep exactInt) (RecvWithin n m) (msTaskOpen url) ops →
      t.storage.completedSize ≤ 2097152 + 31457280 * n + m) ∧
    (∀ id pos buf start react, t.OnFile (.callback id pos (.onRecv buf start) react) →
      (t.opStep exactInt (.callback id pos (.onRecv buf start) react)).storage.completedSize ≤
        max t.storage.completedSize (2097152 + 31457280 * t.readers.length + buf.length)) ∧
    ∀ (holdPos : List Int) (buf : List UInt8) (pos : Nat) st write, 0 < t.storage.filesize →
      (pos : Int) + buf.length ≤ t.storage.filesize → buf.length < 2 ^ 31 →
      (t.storage.clearBufferFor exactInt holdPos pos buf.length).storageWrite buf pos =
        some (st, write) →
      st.completedSize ≤
        max t.storage.completedSize (2097152 + 31457280 * holdPos.length + buf.length) := by
  intro t
  have htallied : t.storage.Tallied :=
    run_invariant opStep_tallied (msTaskOpen_tallied url) hops
  refine ⟨fun n m hwithin => ?_, fun id pos buf start react hfile => ?_, ?_⟩
  · -- within one bound for the whole run
    have hstep : ∀ s op, CacheWithin (2097152 + 31457280 * n + m) s →
        s.OnFile op ∧ s.RecvWithin n m op →
        CacheWithin (2097152 + 31457280 * n + m) (s.opStep exactInt op) := by
      intro s op hs ⟨hfile, hrecv⟩
      refine opStep_cacheWithin op hs hfile fun id pos buf start react heq => ?_
      subst heq
      obtain ⟨hreaders, hlen⟩ := hrecv
      rw [MemStorage.holdSize_eq]
      omega
    have hstart : CacheWithin (2097152 + 31457280 * n + m) (msTaskOpen url) :=
      ⟨msTaskOpen_tallied url, by show (0 : Int) ≤ _; omega⟩
    exact (run_invariant hstep hstart (hops.and hwithin)).le
  · exact (recv_cacheWithin htallied hfile).le
  · intro holdPos buf pos st write hknown hfits hlen hst
    exact (MemStorage.recv_completedSize htallied hknown hfits hlen hst).2

open MsTask in
/-- A reader, the size of the file, and the three bytes of it. -/
def threeBytes : List TaskOp :=
  [.addReader ⟨0, 0, 0⟩, .callback 0 0 (.onFilesize 3) fun _ _ _ => [],
    .callback 0 3 (.onRecv [7, 8, 9] 0) fun _ _ _ => []]

open MsTask in
/-- They are all counted. -/
theorem cache_bounded_three :
    let t := run (opStep exactInt) (msTaskOpen ['u']) threeBytes
    t.storage.completedSize = 3 ∧
      t.storage.completedSize ≤ 2097152 + 31457280 * (1 : Nat) + (3 : Nat) :=
  ⟨by decide +kernel,
    (cache_bounded ['u'] threeBytes
      ⟨trivial, trivial, ⟨by decide +kernel, by decide +kernel, by decide⟩, trivial⟩).1 1 3
      ⟨trivial, trivial, ⟨by decide +kernel, by decide⟩, trivial⟩⟩

/-! ## A server that sends more than the file -/

namespace MsTask

open MemStorage

section ignored

variable {r : Reader} {id i : Nat} {s : Finset Nat} {t : MsTask} {buf : List UInt8}

/-- For a reader at 12 MiB every block is held up to 32 MiB, so the walk comes
    to the next one with nothing given back. -/
theorem reaches_behind {st : MemStorage} (len : Int) :
    st.Reaches exactInt [12582912] 1 len 16 := by
  intro b hfirst hb hvisit
  have hheld : shouldHoldBlock exactInt b [12582912] = true := by
    interval_cases b <;> decide
  unfold MemStorage.visits at hvisit
  split at hvisit
  · rw [hheld] at hvisit
    cases hvisit
  · cases hvisit

/-- A full cache for a reader at 12 MiB of a file of 32 MiB and one byte. What
    is not held are three pieces from the last one on, two of them behind the
    end of the file. -/
theorem Feeding.removed (h : Feeding 33554433 r id i s t) (hat : r.next = 12582912)
    (hs : s = Finset.Ico 2048 2051 ∪ Finset.Ico 0 2045) (hcard : s.card = 2048) (pos : Nat) :
    removedPieces t.storage (t.recvCleared exactInt pos 16384) = Finset.Ico 2048 2051 := by
  have hhold : t.holdPositions = [12582912] := by
    unfold holdPositions
    rw [h.readers]
    show [(r.next : Int)] = _
    rw [hat]
    rfl
  have hcounted : t.storage.completedSize = 33554432 := by
    rw [h.counted, hcard]
    rfl
  unfold recvCleared
  rw [hhold]
  ext j
  rw [mem_removed, h.cached, hs, Finset.mem_union, Finset.mem_Ico, Finset.mem_Ico]
  have hheld : heldPiece exactInt [12582912] j = true ↔ 128 ≤ j ∧ j < 2048 := by
    rw [heldPiece_iff]
    simp only [List.mem_singleton, exists_eq_left, SlotInWindow, maxCacheLeft, maxCacheLen]
    omega
  constructor
  · rintro ⟨hj, -, hbehind, -, -, -, hfree⟩
    have hnot : ¬ (128 ≤ j ∧ j < 2048) := by
      rw [← hheld, hfree]
      exact Bool.false_ne_true
    omega
  · intro hj
    have hfree : heldPiece exactInt [12582912] j = false := by
      rw [← Bool.not_eq_true, hheld]
      omega
    have hcached : t.storage.cached j = true := by
      rw [h.cached, hs, Finset.mem_union, Finset.mem_Ico]
      exact Or.inl hj
    obtain ⟨htable, hvisit⟩ := visits_of_cached hcached hfree
    have hblock : j / 128 = 16 := by omega
    refine ⟨Or.inl hj, ?_, by omega, htable, hvisit, ?_, hfree⟩
    · rw [hcounted]
      decide
    · rw [hblock]
      exact reaches_behind _

/-- They are given back with what `piece_len` says of them, and the next piece
    makes the cache larger than it may be. -/
theorem Feeding.overruns (h : Feeding 33554433 r id 2045 s t) (hat : r.next = 12582912)
    (hs : s = Finset.Ico 2048 2051 ∪ Finset.Ico 0 2045) (hcard : s.card = 2048)
    (hbuf : buf.length = 16384) :
    (t.opStep exactInt (recvPiece id buf 2045)).storage.completedSize = 33619965 := by
  have hsize : t.storage.estimateSize = 33554433 :=
    (t.storage.known (by rw [h.filesize]; exact h.known)).trans h.filesize
  have hcleared := @clearBufferFor_spec exactInt t.holdPositions t.storage (2045 * 16384 : Nat)
    buf.length
  have hnew : (t.recvCleared exactInt (2045 * 16384) buf.length).cached 2045 = false := by
    by_contra hyes
    have hbefore := clearBufferFor_subset (eq_true_of_ne_false hyes)
    rw [h.cached, hs, Finset.mem_union, Finset.mem_Ico, Finset.mem_Ico] at hbefore
    omega
  obtain ⟨st, hst, -, hcompleted⟩ := storageWrite_piece hbuf
    (by rw [MemStorage.sized, recvCleared, hcleared.estimateSize, hsize]; decide) hnew
  have hfreed := @completed_sub t.holdPositions t.storage (2045 * 16384 : Nat) buf.length
  rw [h.stored rfl hst (by rw [hat]; decide) (by rw [hat]; decide)]
  show st.completedSize = _
  have hremoved := h.removed hat hs hcard (2045 * 16384)
  unfold recvCleared at hcompleted hremoved
  rw [hbuf] at hfreed hcompleted
  rw [hcompleted, hfreed, hremoved, h.counted, h.filesize, hcard]
  rfl

/-- The calls lead to a task that is fed, with one reader and 16 KiB at a
    time. -/
structure FedBy (F : Int) (r : Reader) (id i : Nat) (s : Finset Nat) (ops : List TaskOp) :
    Prop where
  feeding : Feeding F r id i s (run (opStep exactInt) (msTaskOpen []) ops)
  within : Along (opStep exactInt) (RecvWithin 1 16384) (msTaskOpen []) ops

variable {F : Int} {ops : List TaskOp}

theorem recvPiece_within (hreaders : t.readers = [r]) (hbuf : buf.length = 16384) :
    t.RecvWithin 1 16384 (recvPiece id buf i) :=
  ⟨by rw [hreaders]; rfl, hbuf.le⟩

theorem FedBy.pieces {n : Nat} (h : FedBy F r id i s ops) (hbuf : buf.length = 16384)
    (hnew : ∀ j ∈ s, j < i ∨ i + n ≤ j) (htable : ∀ j < i + n, j / 128 < blockNum F)
    (hroom : s.card + n ≤ 2048) (hbehind : r.next ≤ (i + 1) * 16384)
    (hclose : (i + n) * 16384 < r.next + 20971520) :
    FedBy F r id (i + n) (s ∪ Finset.Ico i (i + n)) (ops ++ recvPieces id buf i n) := by
  obtain ⟨hfed, halong⟩ := h.feeding.run hbuf hnew htable hroom hbehind hclose
  constructor
  · rw [run_append]
    exact hfed
  · rw [along_append]
    refine ⟨h.within, halong.imp ?_⟩
    rintro t op ⟨hreaders, j, rfl⟩
    exact recvPiece_within hreaders hbuf

theorem FedBy.follows (h : FedBy F r id i s ops) {r' : Reader} {k : Nat}
    (hat : r'.next = k * 16384) (hfree : k ∉ s) (hin : (k * 16384 : Int) < F)
    (hfirst : ∀ j ∈ s, k ≤ j → (∀ m ∈ s, k ≤ m → j ≤ m) → (j * 16384 : Int) ≤ F) :
    FedBy F r' (id + 1) k s (ops ++ [.removeReader r.id, .addReader r']) := by
  constructor
  · rw [run_append]
    exact h.feeding.follows hat hfree hin hfirst
  · rw [along_append]
    exact ⟨h.within, trivial, trivial, trivial⟩

theorem FedBy.move (h : FedBy F r id i s ops) (pos sending : Nat) :
    FedBy F ⟨r.id, pos, sending⟩ id i s (ops ++ [.reader r.id (.move pos sending)]) := by
  constructor
  · rw [run_append]
    exact h.feeding.move pos sending
  · rw [along_append]
    exact ⟨h.within, trivial, trivial⟩

/-- A reader asks for a file of 32 MiB and one byte, and the next one for its
    last byte. The answer to that is the whole file, of which three pieces
    come before the reader leaves. Then a reader plays the file from the
    start, and has sent 12 MiB when the pipe has brought nearly all of it. -/
def ignoredRange (buf : List UInt8) : List TaskOp :=
  [.addReader ⟨0, 0, 0⟩, .callback 0 0 (.onContentSize 0 33554433) fun _ _ _ => []] ++
    [.removeReader 0, .addReader ⟨0, 33554432, 0⟩] ++ recvPieces 1 buf 2048 3 ++
    [.removeReader 0, .addReader ⟨0, 0, 0⟩] ++ recvPieces 2 buf 0 768 ++
    [.reader 0 (.move 12582912 0)] ++ recvPieces 2 buf 768 1277

/-- The cache is full then. -/
theorem ignoredRange_card : (Finset.Ico 2048 2051 ∪ Finset.Ico 0 2045).card = 2048 := by
  rw [Finset.card_union_of_disjoint, Nat.card_Ico, Nat.card_Ico]
  exact (Finset.Ico_disjoint_Ico_consecutive 0 2048 2051).symm.mono_right
    (Finset.Ico_subset_Ico_right (by decide))

theorem fedBy_ignoredRange (hbuf : buf.length = 16384) :
    FedBy 33554433 ⟨0, 12582912, 0⟩ 2 2045 (Finset.Ico 2048 2051 ∪ Finset.Ico 0 2045)
      (ignoredRange buf) := by
  have htable : ∀ j < 2051, j / 128 < blockNum 33554433 := by
    intro j hj
    have hblocks : blockNum 33554433 = 17 := by decide
    omega
  have hopen : FedBy 33554433 ⟨0, 0, 0⟩ 0 0 ∅ [.addReader ⟨0, 0, 0⟩,
      .callback 0 0 (.onContentSize 0 33554433) fun _ _ _ => []] :=
    ⟨feeding_open [] (by decide), trivial, trivial, trivial⟩
  have hlast : FedBy 33554433 ⟨0, 33554432, 0⟩ 1 2048 ∅ _ :=
    hopen.follows rfl (Finset.notMem_empty _) (by decide)
      fun j hj => absurd hj (Finset.notMem_empty j)
  have hmore := hlast.pieces (n := 3) hbuf (fun j hj => absurd hj (Finset.notMem_empty j))
    htable (by decide) (by decide) (by decide)
  rw [Finset.empty_union] at hmore
  have hplay : FedBy 33554433 ⟨0, 0, 0⟩ 2 0 (Finset.Ico 2048 2051) _ :=
    hmore.follows rfl (by decide) (by decide) fun j _ _ hleast => by
      have := hleast 2048 (by decide) (by decide)
      omega
  have hhalf := hplay.pieces (n := 768) hbuf
    (fun j hj => by
      have := Finset.mem_Ico.mp hj
      omega)
    (fun j hj => htable j (by omega)) (by decide) (by decide) (by decide)
  have hsent : FedBy 33554433 ⟨0, 12582912, 0⟩ 2 768
      (Finset.Ico 2048 2051 ∪ Finset.Ico 0 768) _ := hhalf.move 12582912 0
  have hfull := hsent.pieces (n := 1277) hbuf
    (fun j hj => by
      rw [Finset.mem_union, Finset.mem_Ico, Finset.mem_Ico] at hj
      omega)
    (fun j hj => htable j (by omega)) (by decide +kernel) (by decide) (by decide)
  rw [Finset.union_assoc, Finset.Ico_union_Ico_eq_Ico (by decide) (by decide)] at hfull
  exact hfull

end ignored

end MsTask

open MsTask in
/-- The next piece makes room, and the counter grows: above what one `on_recv`
    may leave, and above the bound for one reader and 16 KiB. -/
theorem cache_overruns :
    let piece := List.replicate 16384 (0 : UInt8)
    let t := run (opStep exactInt) (msTaskOpen []) (ignoredRange piece)
    let t' := t.opStep exactInt (recvPiece 2 piece 2045)
    Along (opStep exactInt) (RecvWithin 1 16384) (msTaskOpen [])
        (ignoredRange piece ++ [recvPiece 2 piece 2045]) ∧
      t.aborted = false ∧ t.storage.filesize = 33554433 ∧ t.readers.length = 1 ∧
      max t.storage.completedSize (2097152 + 31457280 * t.readers.length + piece.length) <
        t'.storage.completedSize ∧
      2097152 + 31457280 * (1 : Nat) + (16384 : Nat) < t'.storage.completedSize := by
  have hlength : (List.replicate 16384 (0 : UInt8)).length = 16384 := List.length_replicate
  generalize List.replicate 16384 (0 : UInt8) = piece at hlength
  dsimp only
  obtain ⟨hfed, halong⟩ := fedBy_ignoredRange hlength
  have hreaders := congrArg List.length hfed.readers
  have hbefore := hfed.counted
  rw [ignoredRange_card] at hbefore
  have hafter := hfed.overruns (by decide) rfl ignoredRange_card hlength
  refine ⟨?_, hfed.running, hfed.filesize, hreaders, ?_, ?_⟩
  · rw [along_snoc]
    exact ⟨halong, recvPiece_within hfed.readers hlength⟩
  · rw [hafter, hbefore, hreaders, hlength]
    decide
  · rw [hafter]
    decide

end Libms
