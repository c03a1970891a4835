import Mathlib
import Libms.Framework.Runs
import Libms.Task.CacheBound
import Libms.Task.RemoveReader
import Libms.Task.Serving

/-! # A reader that waits is not forgotten

    A reader that has asked for a byte that is not cached waits for a pipe to
    bring it. It is only called again when data comes, so that pipe must not
    be lost: over all that happens to the task while the reader waits, a pipe
    stands at the piece of its byte.

    * `Coming`: the byte is there, or a pipe brings it next. `moved` is a
      pipe that may not be counted on, in the middle of `on_recv`.
    * `Guarded`: the same of a task without an error.
    * `Spares`: what is asked of a call. The pipe that removing a reader takes
      away is that of `removeReader_served_iff`.
    * `waiting_reader_fetched`: every run. -/

namespace Libms

open CInt MemStorage PartialMap Runs

namespace MsTask

/-- The byte at `pos` is cached or behind the end of the file, or a pipe
    other than `moved` stands at its piece. -/
def Coming (moved : Option Nat) (t : MsTask) (pos : Nat) : Prop :=
  t.storage.cachedByte pos = true ∨ (0 < t.storage.filesize ∧ t.storage.filesize ≤ pos) ∨
    ∃ id ∈ t.pipes, some id ≠ moved ∧ t.currentPos id = border pos

/-- The byte at `pos` is coming, as long as the task has no error and its
    file at most 2 GiB. -/
structure Guarded (moved : Option Nat) (pos : Nat) (t : MsTask) : Prop where
  known : ∀ id ∈ t.pipes, id < t.opened
  coming : t.code = 0 → t.storage.filesize ≤ 2 ^ 31 → Coming moved t pos

/-- A reader stands at `pos`, and its byte is not cached. -/
def Waits (t : MsTask) (pos : Nat) : Prop :=
  t.storage.cachedByte pos = false ∧ ∃ r ∈ t.readers, r.next = pos

/-- What is asked of a call while a reader waits at `pos`:

    * removing a reader leaves one at the border of the piece, or one that a
      pipe at the border is useful to;
    * a pipe hands on the bytes that start where it stands, and if it stands at
      the piece there are some;
    * a size that is known is not changed, and a pipe closes with a code. -/
def Spares (pos : Nat) (t : MsTask) : TaskOp → Prop
  | .removeReader id =>
    (pos % 16384 = 0 ∧ ∃ r ∈ (t.withoutReader id).readers, r.next = pos) ∨
      ∃ r, (t.withoutReader id).Useful (border pos) r
  | .callback id _ c _ =>
    match c with
    | .onRecv buf start => start = t.currentPos id ∧ (start = border pos → buf ≠ [])
    | .onFilesize filesize => t.storage.filesize = 0 ∨ filesize = t.storage.filesize
    | .onContentSize from_ size =>
      t.storage.filesize = 0 ∨ (t.pipeOf id).reqLen ≠ 0 ∨ from_ + size = t.storage.filesize
    | .onClose code => code ≠ 0
    | _ => True
  | _ => True

section coming

variable {w : IntArith} {moved : Option Nat} {t t' : MsTask} {pos id first : Nat} {r : Reader}

/-! ## What a reader can do -/

theorem Coming.forget (h : Coming moved t pos) : Coming none t pos := by
  rcases h with hcached | hend | ⟨id, hid, -, hat⟩
  · exact Or.inl hcached
  · exact Or.inr (Or.inl hend)
  · exact Or.inr (Or.inr ⟨id, hid, Option.some_ne_none id, hat⟩)

theorem Guarded.same (h : Guarded moved pos t) (hstorage : t'.storage = t.storage)
    (hpipes : t'.pipes = t.pipes) (hopened : t'.opened = t.opened) (hof : t'.pipeOf = t.pipeOf)
    (hcode : t'.code = t.code) : Guarded moved pos t' := by
  constructor
  · rw [hpipes, hopened]
    exact h.known
  · have hcoming := h.coming
    unfold Coming currentPos at hcoming ⊢
    rw [hstorage, hpipes, hof, hcode]
    exact hcoming

/-- A pipe is opened, and the others stay where they are. -/
theorem Guarded.createPipeFor (h : Guarded moved pos t) (start : Nat) (len : Int) :
    Guarded moved pos (t.createPipeFor start len) := by
  rcases createPipeFor_cases t start len with hsame | ⟨url, hopened⟩
  · rw [hsame]
    exact h
  · refine ⟨hopened.known h.known, fun hcode hfile => ?_⟩
    have hcode' : t.code = 0 := by
      unfold MsTask.createPipeFor at hcode
      split at hcode
      · exact hcode
      · exact hcode
    rw [hopened.storage] at hfile
    rcases h.coming hcode' hfile with hcached | hend | ⟨id, hid, hmoved, hat⟩
    · left
      rw [hopened.storage]
      exact hcached
    · right
      left
      rw [hopened.storage]
      exact hend
    · refine Or.inr (Or.inr ⟨id, ?_, hmoved, ?_⟩)
      · rw [hopened.pipes]
        exact List.mem_append_left _ hid
      · rw [currentPos, hopened.old id (h.known id hid)]
        exact hat

theorem guarded_readerInvariant : ReaderInvariant w (Guarded moved pos) where
  abort _ h := h.same rfl rfl rfl rfl rfl
  readers _ _ h := h.same rfl rfl rfl rfl rfl
  dispatch t r h := by
    rcases dispatchReader_cases w t r with hsame | habort | ⟨start, len, _, hopen, -⟩
    · rw [hsame]
      exact h
    · rw [habort]
      exact h.same rfl rfl rfl rfl rfl
    · rw [hopen]
      exact h.createPipeFor start len

/-! ## A reader asks -/

/-- In a table for at most 2 GiB no offset of a piece wraps. -/
theorem pieceFrom_of_cached {st : MemStorage} {k : Nat} (hcached : st.cached k = true)
    (hest : st.estimateSize ≤ 2 ^ 31) : pieceFrom toInt32 k = k * 16384 := by
  have hblock := cached_lt_blocks hcached
  have hsized := st.sized
  apply pieceFrom_toInt32_eq
  unfold blockNum at hsized
  simp only [msBlockUnitSize] at hsized
  omega

/-- **A reader asks** for the byte it stands at: it is there, or a pipe is. -/
theorem dispatchReader_coming (h : SizesAgree first t) (hlive : t.aborted = false)
    (hcode : t.code = 0) (hfile : t.storage.filesize ≤ 2 ^ 31)
    (hdone : (t.dispatchReader toInt32 r).aborted = false) :
    Coming none (t.dispatchReader toInt32 r) r.next := by
  have hstorage : (t.dispatchReader toInt32 r).storage = t.storage :=
    (storage_readerInvariant fun st => st = t.storage).dispatch t r rfl
  by_cases hcached : t.storage.cachedByte r.next = true
  · left
    rw [hstorage]
    exact hcached
  · have hnone : t.storage.cachedByte r.next = false := Bool.eq_false_iff.mpr hcached
    by_cases hend : 0 < t.storage.filesize ∧ t.storage.filesize ≤ r.next
    · right
      left
      rw [hstorage]
      exact hend
    · right
      right
      have hnonneg := h.nonneg
      have hest := h.estimate
      -- nothing is reported at the offset, so it is not gone past
      have hreports : Reports toInt32 t r.next 0 := by
        by_cases hsize : t.storage.filesize = 0
        · exact reports_unsized h hsize
        · by_cases hempty : ∀ j, r.next / 16384 ≤ j → t.storage.cached j = false
          · exact (reports_none pieceFrom_toInt32_le h (by omega) (by omega) hempty).1
          · rcases @cachedFrom_cases toInt32 t.storage r.next pieceFrom_toInt32_le (by omega)
              (by omega) with ⟨hno, -⟩ | ⟨k, i, hrun, -⟩
            · exact absurd hno hempty
            · have hoffset := pieceFrom_of_cached (hrun.all k (Nat.le_refl _) hrun.more) (by omega)
              by_cases hin : pieceFrom toInt32 k ≤ t.storage.filesize
              · have hcounted := @counted_eq toInt32 t r.next k i hoffset (by omega) hrun
                have hzero : t.cachedAt r.next = 0 := leading_eq_zero hnone
                rw [← hzero, ← hcounted]
                exact reports_run pieceFrom_toInt32_le h (by omega) (by omega) hrun hin
              · -- the scan fails its assert
                have hscan := cachedFrom_eq_none pieceFrom_toInt32_le h (by omega) (by omega) hrun
                  (by omega)
                have habort : t.dispatchReader toInt32 r = t.abort := by
                  rw [dispatchReader, if_neg (by rw [hlive]; exact Bool.false_ne_true), dispatchOf,
                    wantedRange, if_pos (by omega)]
                  simp only [hscan]
                rw [habort] at hdone
                cases hdone
      have hrange : t.InRange r.next 0 := by
        by_cases hsize : t.storage.filesize = 0
        · exact Or.inl ⟨hsize, rfl⟩
        · exact Or.inr ⟨by omega, by omega⟩
      rcases dispatchReader_reported h hlive hreports hrange with ⟨henough, hsame⟩ | ⟨-, hopen⟩
      · rw [hsame]
        rcases henough with hmany | ⟨hsize, hrest⟩ | ⟨id, hid, hat⟩
        · exact absurd hmany (by decide)
        · exact absurd ⟨hsize, by omega⟩ hend
        · exact ⟨id, hid, Option.some_ne_none id, hat⟩
      · rw [hopen]
        obtain ⟨url, hopened⟩ := createPipeFor_opened hcode (border (r.next + 0))
          (if t.storage.filesize = 0 then 0
            else min (r.next + maxCacheLen) t.storage.filesize - border (r.next + 0))
        refine ⟨t.opened, ?_, Option.some_ne_none _, ?_⟩
        · rw [hopened.pipes]
          exact List.mem_append_right _ (List.mem_singleton_self _)
        · rw [currentPos, hopened.new]
          rfl

theorem code_readerInvariant (n : Int) : ReaderInvariant w fun t => t.code = n where
  abort _ h := h
  readers _ _ h := h
  dispatch t r h := by
    rcases dispatchReader_cases w t r with hsame | habort | ⟨start, len, _, hopen, -⟩
    · rw [hsame]
      exact h
    · rw [habort]
      exact h
    · rw [hopen, createPipeFor_code]
      exact h

/-- A task that has failed an assert stays there. -/
theorem aborted_readerInvariant : ReaderInvariant w fun t => t.aborted = true where
  abort _ _ := rfl
  readers _ _ h := h
  dispatch t r h := by
    have hsame : t.dispatchReader w r = t := if_pos h
    rw [hsame]
    exact h

/-- The reader at `pos` asks. -/
theorem dispatchReader_guarded (h : SizesAgree first t) (hat : r.next = pos)
    (hdone : (t.dispatchReader toInt32 r).aborted = false) :
    Guarded none pos (t.dispatchReader toInt32 r) := by
  have hlive : t.aborted = false := by
    by_contra haborted
    rw [aborted_readerInvariant.dispatch t r (eq_true_of_ne_false haborted)] at hdone
    cases hdone
  refine ⟨(h.dispatchReader r).known, fun hcode hfile => ?_⟩
  rw [(code_readerInvariant t.code).dispatch t r rfl] at hcode
  rw [(storage_readerInvariant fun st => st = t.storage).dispatch t r rfl] at hfile
  rw [← hat]
  exact dispatchReader_coming h hlive hcode hfile hdone

/-- **All readers ask**, the one at `pos` among them. -/
theorem dispatchReaders_guarded (h : SizesAgree first t) (hwatch : ∃ r ∈ t.readers, r.next = pos)
    (hdone : (t.dispatchReaders toInt32).aborted = false) :
    Guarded none pos (t.dispatchReaders toInt32) := by
  obtain ⟨r, hr, hat⟩ := hwatch
  obtain ⟨as, bs, hreaders⟩ := List.append_of_mem hr
  unfold dispatchReaders at hdone ⊢
  rw [hreaders, List.foldl_append, List.foldl_cons] at hdone ⊢
  have hs : SizesAgree first (as.foldl (dispatchReader toInt32) t) :=
    foldl_preserves sizesAgree_readerInvariant.dispatch as h
  generalize as.foldl (dispatchReader toInt32) t = s at hs hdone ⊢
  have hlive : (s.dispatchReader toInt32 r).aborted = false := by
    by_contra haborted
    rw [foldl_preserves aborted_readerInvariant.dispatch bs (eq_true_of_ne_false haborted)] at hdone
    cases hdone
  exact foldl_preserves guarded_readerInvariant.dispatch bs (dispatchReader_guarded hs hat hlive)

/-! ## What a pipe can do -/

theorem Guarded.closePipe (h : Guarded (some id) pos t) : Guarded none pos (t.closePipe id) where
  known x hx := h.known x (closePipe_pruned.pipes x hx)
  coming hcode hfile := by
    rcases h.coming hcode hfile with hcached | hend | ⟨q, hq, hne, hat⟩
    · exact Or.inl hcached
    · exact Or.inr (Or.inl hend)
    · refine Or.inr (Or.inr ⟨q, mem_closePipe.mpr ⟨hq, ?_⟩, Option.some_ne_none q, ?_⟩)
      · exact fun heq => hne (congrArg some heq)
      · rw [closePipe_pruned.currentPos]
        exact hat

/-- The moved pipe was not counted on. -/
theorem Guarded.dispatchPipe (h : Guarded (some id) pos t) :
    Guarded none pos (t.dispatchPipe id) := by
  rcases @dispatchPipe_cases t id with hstays | hclose
  · rw [hstays]
    exact ⟨h.known, fun hcode hfile => (h.coming hcode hfile).forget⟩
  · rw [hclose]
    exact h.closePipe

/-- **Data is stored.** The pipe has left the piece it stood at, and the piece
    is there. -/
theorem Guarded.recvStore (h : Guarded none pos t) (hnone : t.storage.cachedByte pos = false)
    {buf : List UInt8} {start stands : Nat} (hat : start = t.currentPos id)
    (hbuf : start = border pos → buf ≠ [])
    (hdone : ((t.setPipe id { t.pipeOf id with pos := stands }).recvStore w buf start).aborted =
      false) :
    Guarded (some id) pos
      ((t.setPipe id { t.pipeOf id with pos := stands }).recvStore w buf start) := by
  have hcleared := @clearBufferFor_spec w t.holdPositions t.storage start buf.length
  have hfilesize : (t.recvCleared w start buf.length).filesize = t.storage.filesize :=
    hcleared.filesize
  have hsame : (t.setPipe id { t.pipeOf id with pos := stands }).recvCleared w start buf.length =
      t.recvCleared w start buf.length := rfl
  unfold MsTask.recvStore at hdone ⊢
  rw [hsame] at hdone ⊢
  split at hdone
  · cases hdone
  · rename_i st write hwrite
    split at hdone
    · rename_i hall
      rw [if_pos hall]
      rw [hall] at hwrite
      have hwritten := storageWrite_whole hwrite
      have hsize := (storageWrite_sizes hwrite).1.trans hfilesize
      refine ⟨h.known, fun hcode hfile => ?_⟩
      have hfile' : t.storage.filesize ≤ 2 ^ 31 := hsize ▸ hfile
      rcases h.coming hcode hfile' with hcached | hend | ⟨q, hq, -, hborder⟩
      · rw [hnone] at hcached
        cases hcached
      · right
        left
        show 0 < st.filesize ∧ st.filesize ≤ pos
        rw [hsize]
        exact hend
      · by_cases hqid : q = id
        · left
          show st.cached (pos / 16384) = true
          rw [hqid, ← hat] at hborder
          have hpos := List.length_pos_iff.mpr (hbuf hborder)
          rw [border] at hborder
          simp only [msPieceUnitSize] at hborder
          rw [hwritten.cached, Bool.or_eq_true, decide_eq_true_eq]
          right
          omega
        · refine Or.inr (Or.inr ⟨q, hq, fun heq => hqid (Option.some.inj heq), ?_⟩)
          simp only [currentPos, MsTask.setPipe, Function.update_of_ne hqid]
          exact hborder
    · cases hdone

/-- `on_recv` -/
theorem Guarded.onRecv (h : Guarded none pos t) {react : React}
    (hnone : t.storage.cachedByte pos = false) {buf : List UInt8} {start stands : Nat}
    (hat : start = t.currentPos id) (hbuf : start = border pos → buf ≠ [])
    (hdone : ((t.setPipe id { t.pipeOf id with pos := stands }).onRecv w react id buf
      start).aborted = false) :
    Guarded none pos
      ((t.setPipe id { t.pipeOf id with pos := stands }).onRecv w react id buf start) := by
  rcases onRecv_cases w react (t.setPipe id { t.pipeOf id with pos := stands }) id buf start with
    ⟨hend, hrecv⟩ | ⟨-, hend, hrecv⟩ | ⟨hlive, -, hrecv⟩
  · rw [hrecv, hend] at hdone
    cases hdone
  · rw [hrecv, hend] at hdone
    cases hdone
  · rw [hrecv]
    exact (guarded_readerInvariant.notify react _ (h.recvStore hnone hat hbuf hlive)).dispatchPipe

/-- A size that does not contradict the one that is known. -/
theorem Guarded.setFilesize (h : Guarded none pos t) {filesize : Int}
    (hsize : t.storage.filesize = 0 ∨ filesize = t.storage.filesize) :
    Guarded none pos (t.setFilesize filesize) := by
  simp only [MsTask.setFilesize]
  split
  · exact h.same rfl rfl rfl rfl rfl
  · rename_i st hst
    obtain ⟨hfile, -, -, hpiece⟩ := setFilesize_spec hst
    refine ⟨h.known, fun hcode hbound => ?_⟩
    rw [show st.filesize = filesize from hfile] at hbound
    rcases h.coming hcode (by omega) with hcached | hend | hpipe
    · left
      show (st.pieceAt (pos / 16384)).isSome = true
      rw [hpiece]
      exact hcached
    · right
      left
      show 0 < st.filesize ∧ st.filesize ≤ pos
      rw [hfile]
      omega
    · exact Or.inr (Or.inr hpipe)

/-- **A callback** of a pipe while a reader waits. -/
theorem Guarded.callback (h : Guarded none pos t) (hsizes : SizesAgree first t)
    (hwatch : ∃ r ∈ t.readers, r.next = pos) {react : React} {c : PipeCall} {stands : Nat}
    (hc : c.isRecv = false) (hid : id ∈ t.pipes)
    (hspares : Spares pos t (.callback id stands c react))
    (hdone : (t.callback toInt32 react id c).aborted = false) :
    Guarded none pos (t.callback toInt32 react id c) := by
  cases c with
  | onHeader hm =>
    simp only [MsTask.callback, onHeader]
    split
    · exact h.same rfl rfl rfl rfl rfl
    · exact h.same rfl rfl rfl rfl rfl
  | onFilesize filesize =>
    have hset := h.setFilesize hspares
    simp only [MsTask.callback, onFilesize]
    split
    · exact hset
    · exact guarded_readerInvariant.notify react _ hset
  | onContentSize start size =>
    have hset : Guarded none pos (if (t.pipeOf id).reqLen = 0 then t.setFilesize (start + size)
        else t.setContentSize start size) := by
      split
      · rename_i hopen
        apply h.setFilesize
        rcases hspares with hzero | hlen | hsame
        · exact Or.inl hzero
        · exact absurd hopen hlen
        · exact Or.inr hsame
      · rename_i hlen
        rw [setContentSize_of_known (hsizes.ranged id (hsizes.known id hid) hlen)]
        exact h
    simp only [MsTask.callback, onContentSize]
    revert hset
    generalize (if (t.pipeOf id).reqLen = 0 then t.setFilesize (start + size)
      else t.setContentSize start size) = s
    intro hset
    split
    · exact hset
    · exact guarded_readerInvariant.notify react _ hset
  | onRecv buf start => cases hc
  | onRedirect location => exact h.same rfl rfl rfl rfl rfl
  | onComplete => exact dispatchReaders_guarded (hsizes.closePipe id) hwatch hdone
  | onClose code =>
    have hne : code ≠ 0 := hspares
    -- a task with an error brings nothing more
    have hdown : Guarded none pos ({ t with code := code }.closePipe id) :=
      ⟨fun x hx => h.known x (closePipe_pruned.pipes x hx), fun hcode => absurd hcode hne⟩
    simp only [MsTask.callback, onClose, if_pos hne]
    split
    · exact hdown
    · exact guarded_readerInvariant.notify react _ hdown

/-! ## Calls -/

/-- A reader at the border of a piece makes a pipe there useful. -/
theorem useful_of_border (hr : r ∈ t.readers) : t.Useful r.next r where
  reader := hr
  behind := Nat.le_refl _
  nearest _ _ hle := hle
  close := by
    have hcache : maxCacheLen = 20971520 := rfl
    omega
  first _ _ hlt := hlt

/-- A reader is removed. -/
theorem Guarded.removeReader (h : Guarded none pos t) {react : Nat}
    (hspares : Spares pos t (.removeReader react)) : Guarded none pos (t.removeReader react) := by
  have hpruned := @dispatchPipes_pruned (t.withoutReader react) (t.withoutReader react).pipes
  rw [← removeReader_eq] at hpruned
  refine ⟨fun x hx => ?_, fun hcode hfile => ?_⟩
  · rw [hpruned.opened]
    exact h.known x (hpruned.pipes x hx)
  · rw [hpruned.code] at hcode
    rw [hpruned.storage] at hfile
    rcases h.coming hcode hfile with hcached | hend | ⟨q, hq, -, hat⟩
    · left
      rw [hpruned.storage]
      exact hcached
    · right
      left
      rw [hpruned.storage]
      exact hend
    · have huseful : ∃ r, (t.withoutReader react).Useful (border pos) r := by
        rcases hspares with ⟨haligned, r, hr, hstands⟩ | huseful
        · have hborder : border pos = r.next := by
            rw [hstands, border]
            simp only [msPieceUnitSize]
            omega
          rw [hborder]
          exact ⟨r, useful_of_border hr⟩
        · exact huseful
      obtain ⟨q', hq', hat'⟩ := pipeAt_removeReader.mpr ⟨⟨q, hq, hat⟩, huseful⟩
      exact Or.inr (Or.inr ⟨q', hq', Option.some_ne_none q', hat'⟩)

/-- **Step lemma.** -/
theorem opStep_guarded {op : TaskOp} (h : t.aborted = false → Guarded none pos t)
    (hsizes : SizesAgree first t) (hwaits : t.Waits pos) (hspares : Spares pos t op)
    (hdone : (t.opStep toInt32 op).aborted = false) : Guarded none pos (t.opStep toInt32 op) := by
  obtain ⟨hnone, hwatch⟩ := hwaits
  unfold MsTask.opStep at hdone ⊢
  split at hdone
  · rename_i haborted
    rw [haborted] at hdone
    cases hdone
  · rename_i haborted
    have hguarded := h (eq_false_of_ne_true haborted)
    rw [if_neg haborted]
    cases op with
    | addReader r =>
      dsimp only
      split
      · exact hguarded
      · exact guarded_readerInvariant.addReader r hguarded
    | removeReader id => exact hguarded.removeReader hspares
    | reader id act =>
      dsimp only
      split
      · exact guarded_readerInvariant.readerAct id act hguarded
      · exact hguarded
    | callback id stands c react =>
      dsimp only at hdone ⊢
      split at hdone
      · rename_i hin
        rw [if_pos hin]
        cases hc : c.isRecv with
        | true =>
          cases c with
          | onRecv buf start =>
            obtain ⟨hat, hbuf⟩ := hspares
            rw [pipeCallback_recv] at hdone ⊢
            exact hguarded.onRecv hnone hat hbuf hdone
          | _ => cases hc
        | false =>
          rw [pipeCallback_other hc] at hdone ⊢
          exact hguarded.callback hsizes hwatch hc hin hspares hdone
      · rename_i hout
        rw [if_neg hout]
        exact hguarded

/-! ## Runs -/

/-- A call in which a reader that stands at `pos` asks: it is added, or it
    reads and goes on to wait. -/
def Asks (pos : Nat) (t : MsTask) : TaskOp → Prop
  | .addReader r => r.id ∉ t.readers.map Reader.id ∧ r.next = pos
  | .reader id (.read _ _) => id ∈ t.readers.map Reader.id ∧ ∃ r ∈ t.readers, r.next = pos
  | _ => False

/-- After the call the byte is coming. -/
theorem asks_guarded {op : TaskOp} (hsizes : SizesAgree first t) (hask : t.Asks pos op)
    (hdone : (t.opStep toInt32 op).aborted = false) : Guarded none pos (t.opStep toInt32 op) := by
  unfold MsTask.opStep at hdone ⊢
  split at hdone
  · rename_i haborted
    rw [haborted] at hdone
    cases hdone
  · rename_i haborted
    rw [if_neg haborted]
    cases op with
    | addReader r =>
      obtain ⟨hnew, hat⟩ := hask
      dsimp only at hdone ⊢
      rw [if_neg hnew] at hdone ⊢
      have hadded : SizesAgree first { t with readers := t.readers ++ [r] } :=
        (@sizesAgree_readerInvariant toInt32 first).readers t _ hsizes
      exact dispatchReader_guarded hadded hat hdone
    | reader id act =>
      cases act with
      | move pos sending => cases hask
      | read start len =>
        obtain ⟨hin, hwatch⟩ := hask
        dsimp only at hdone ⊢
        rw [if_pos hin] at hdone ⊢
        simp only [MsTask.readerAct, if_neg haborted, MsTask.taskRead] at hdone ⊢
        split at hdone
        · cases hdone
        · exact dispatchReaders_guarded hsizes hwatch hdone
    | removeReader id => cases hask
    | callback id stands c react => cases hask

end coming

end MsTask

open MsTask

/-- In every run of a task, from the call in which a reader asks for the byte
    at `pos`, and as long as one waits there: the byte is cached, or behind
    the end of the file, or a pipe stands at its piece. The calls of a run
    are those of readers and of the pipes in the queue; what a pipe calls
    back behind the callback that took it out is not among them. -/
theorem waiting_reader_fetched (url : List Char) (before : List TaskOp) (ask : TaskOp)
    (ops : List TaskOp) (pos : Nat)
    (hask : (run (opStep toInt32) (msTaskOpen url) before).Asks pos ask)
    (hwaits : Along (opStep toInt32) (fun t op => t.Waits pos ∧ Spares pos t op)
      (run (opStep toInt32) (msTaskOpen url) (before ++ [ask])) ops) :
    let t := run (opStep toInt32) (msTaskOpen url) (before ++ [ask] ++ ops)
    t.aborted = false → t.code = 0 → t.storage.filesize ≤ 2 ^ 31 →
      t.storage.cachedByte pos = true ∨ (0 < t.storage.filesize ∧ t.storage.filesize ≤ pos) ∨
        t.PipeAt (border pos) := by
  intro t hdone hcode hfile
  have hstep : ∀ s op,
      ((∃ first, SizesAgree first s) ∧ (s.aborted = false → Guarded none pos s)) →
      (s.Waits pos ∧ Spares pos s op) →
      (∃ first, SizesAgree first (s.opStep toInt32 op)) ∧
        ((s.opStep toInt32 op).aborted = false → Guarded none pos (s.opStep toInt32 op)) := by
    intro s op ⟨⟨_, hsizes⟩, hguarded⟩ ⟨hwait, hspares⟩
    exact ⟨⟨s.opened, hsizes.opStep op⟩, opStep_guarded hguarded hsizes hwait hspares⟩
  have hstart : (∃ first,
        SizesAgree first (run (opStep toInt32) (msTaskOpen url) (before ++ [ask]))) ∧
      ((run (opStep toInt32) (msTaskOpen url) (before ++ [ask])).aborted = false →
        Guarded none pos (run (opStep toInt32) (msTaskOpen url) (before ++ [ask]))) := by
    refine ⟨run_sizesAgree toInt32 url (before ++ [ask]), ?_⟩
    obtain ⟨_, hsizes⟩ := run_sizesAgree toInt32 url before
    rw [run_snoc]
    exact asks_guarded hsizes hask
  have hend := (run_invariant hstep hstart hwaits).2
  rw [← run_append] at hend
  rcases (hend hdone).coming hcode hfile with hcached | hbehind | ⟨id, hid, -, hat⟩
  · exact Or.inl hcached
  · exact Or.inr (Or.inl hbehind)
  · exact Or.inr (Or.inr ⟨id, hid, hat⟩)

/-- A second reader asks for the byte at 32768. The file is found to have
    70000 bytes, the first reader goes, and its pipe with it. -/
theorem waiting_reader_fetched_second :
    let t := run (opStep toInt32) (msTaskOpen [])
      ([.addReader ⟨0, 0, 0⟩] ++ [.addReader ⟨1, 32768, 0⟩] ++
        [.callback 0 0 (.onFilesize 70000) (fun _ _ _ => []), .removeReader 0])
    t.storage.cachedByte 32768 = true ∨
      (0 < t.storage.filesize ∧ t.storage.filesize ≤ (32768 : Nat)) ∨ t.PipeAt (border 32768) :=
  waiting_reader_fetched [] [.addReader ⟨0, 0, 0⟩] (.addReader ⟨1, 32768, 0⟩)
    [.callback 0 0 (.onFilesize 70000) (fun _ _ _ => []), .removeReader 0] 32768
    ⟨by decide +kernel, by decide +kernel⟩
    ⟨⟨⟨by decide +kernel, ⟨1, 32768, 0⟩, by decide +kernel, rfl⟩,
        Or.inl (by decide +kernel)⟩,
      ⟨⟨by decide +kernel, ⟨1, 32768, 0⟩, by decide +kernel, rfl⟩,
        Or.inl ⟨by decide +kernel, ⟨1, 32768, 0⟩, by decide +kernel, rfl⟩⟩,
      trivial⟩
    (by decide +kernel) (by decide +kernel) (by decide +kernel)

end Libms
