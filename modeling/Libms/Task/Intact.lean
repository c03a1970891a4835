import Mathlib
import Libms.Framework.Runs
import Libms.Pipe.Continues
import Libms.Storage.Intact
import Libms.Task.CacheBound
import Libms.Task.Filesize

/-! # A task never serves a wrong byte

    The purpose of the cache, over the whole way of a byte: chunks of many
    connections are cut into pieces, stored, evicted, fetched again and read
    by sessions, in any order.

    * `HonestResponse`: what is taken of the origin. A response has the
      sizes of the file, and its chunks continue the file where the pipe
      stands.
    * `Intact`: the storage and the pipes carry one file. `hand` is the pipe
      whose handler is running: it is given back at the end of the event.
    * `cache_intact`: every run. What is read is what the file has there. -/

namespace Libms

open Runs

namespace MsTask

/-! ## The sizes of a response -/

section sizes

variable {F reqPos : Nat} {b : Int} {hm : HttpMessage}

/-- The total in the headers of a response is the size of the file. -/
theorem OriginResponse.total (h : OriginResponse F reqPos b hm) (hF : F < 2 ^ 63)
    {range : List Char} (hrange : mgGetHttpHeader hm "Content-Range" = some range) :
    (httpParseContentRange range).2.2 = F := by
  have hfirst := h.nonempty
  have hlast := h.inside
  rw [h.range] at hrange
  cases hrange
  rw [httpParseContentRange_text (by omega) (by omega) (by omega) (by omega) (by omega)
    (by omega)]

/-- The length in the headers goes to the last byte of the response. -/
theorem OriginResponse.size (h : OriginResponse F reqPos b hm) (hF : F < 2 ^ 63)
    {v : List Char} (hv : mgGetHttpHeader hm "Content-Length" = some v) :
    Text.strtoll v = b - reqPos + 1 := by
  have hfirst := h.nonempty
  have hlast := h.inside
  rw [h.length] at hv
  cases hv
  exact Text.strtoll_printInt (by omega) (by omega)

end sizes

/-! ## The invariant -/

/-- The storage has bytes of the file, and so have the pipes but the one in
    `hand`; a pipe with a length was opened after the size was known. -/
structure Intact (file : List UInt8) (hand : Option Nat) (t : MsTask) : Prop where
  storage : t.storage.Intact file
  carried : ∀ id < t.opened, hand ≠ some id → (t.pipeOf id).OnFile file
  ranged : ∀ id < t.opened, hand ≠ some id → (t.pipeOf id).reqLen ≠ 0 → 0 < t.storage.filesize

/-- The same with the length that the pipe in hand asked for. -/
structure InHand (file : List UInt8) (id : Nat) (reqLen : Int) (t : MsTask) : Prop where
  intact : t.Intact file (some id)
  sized : reqLen ≠ 0 → 0 < t.storage.filesize

section intact

variable {w : IntArith} {react : React} {file : List UInt8} {hand : Option Nat} {t t' : MsTask}
  {id : Nat} {reqLen : Int}

/-- Nothing of storage and pipes has changed. -/
theorem Intact.same (h : t.Intact file hand) (hstorage : t'.storage = t.storage)
    (hopened : t'.opened = t.opened) (hpipes : t'.pipeOf = t.pipeOf) : t'.Intact file hand where
  storage := by rw [hstorage]; exact h.storage
  carried := by rw [hopened, hpipes]; exact h.carried
  ranged := by rw [hopened, hpipes, hstorage]; exact h.ranged

/-- A pipe changes, but not in what it holds and what it asked for. -/
theorem Intact.setPipe (h : t.Intact file hand) {p : HttpPipe} (hbuf : p.buf = (t.pipeOf id).buf)
    (hpos : p.pos = (t.pipeOf id).pos) (hlen : p.reqLen = (t.pipeOf id).reqLen) :
    (t.setPipe id p).Intact file hand where
  storage := h.storage
  carried x hx hhand := by
    by_cases heq : x = id
    · rw [heq] at hx hhand ⊢
      simp only [MsTask.setPipe, Function.update_self]
      exact (h.carried id hx hhand).of_stream hbuf hpos
    · simp only [MsTask.setPipe, Function.update_of_ne heq]
      exact h.carried x hx hhand
  ranged x hx hhand := by
    by_cases heq : x = id
    · rw [heq] at hx hhand ⊢
      simp only [MsTask.setPipe, Function.update_self]
      rw [hlen]
      exact h.ranged id hx hhand
    · simp only [MsTask.setPipe, Function.update_of_ne heq]
      exact h.ranged x hx hhand

/-- The pipe in hand may be anything. -/
theorem Intact.setHand (h : t.Intact file (some id)) (p : HttpPipe) :
    (t.setPipe id p).Intact file (some id) where
  storage := h.storage
  carried x hx hhand := by
    have heq : x ≠ id := fun heq => hhand (by rw [heq])
    simp only [MsTask.setPipe, Function.update_of_ne heq]
    exact h.carried x hx hhand
  ranged x hx hhand := by
    have heq : x ≠ id := fun heq => hhand (by rw [heq])
    simp only [MsTask.setPipe, Function.update_of_ne heq]
    exact h.ranged x hx hhand

/-- A pipe is taken in hand. -/
theorem Intact.take (h : t.Intact file none) (id : Nat) : t.Intact file (some id) where
  storage := h.storage
  carried x hx _ := h.carried x hx (by simp)
  ranged x hx _ := h.ranged x hx (by simp)

/-- The pipe in hand is given back. -/
theorem InHand.back (h : t.InHand file id reqLen) {p : HttpPipe} (hp : p.OnFile file)
    (hlen : p.reqLen = reqLen) : (t.setPipe id p).Intact file none where
  storage := h.intact.storage
  carried x hx _ := by
    by_cases heq : x = id
    · rw [heq]
      simp only [MsTask.setPipe, Function.update_self]
      exact hp
    · simp only [MsTask.setPipe, Function.update_of_ne heq]
      exact h.intact.carried x hx fun hsome => heq (Option.some.inj hsome).symm
  ranged x hx _ := by
    by_cases heq : x = id
    · rw [heq]
      simp only [MsTask.setPipe, Function.update_self]
      rw [hlen]
      exact h.sized
    · simp only [MsTask.setPipe, Function.update_of_ne heq]
      exact h.intact.ranged x hx fun hsome => heq (Option.some.inj hsome).symm

theorem Intact.closePipe (h : t.Intact file hand) (id : Nat) : (t.closePipe id).Intact file hand :=
  (h.setPipe (p := (t.pipeOf id).pipeClose) rfl rfl rfl).same rfl rfl rfl

theorem Intact.dispatchPipe (h : t.Intact file hand) (id : Nat) :
    (t.dispatchPipe id).Intact file hand := by
  rcases @dispatchPipe_cases t id with hstays | hclose
  · rw [hstays]
    exact h
  · rw [hclose]
    exact h.closePipe id

/-! ## Readers -/

/-- A new pipe holds nothing, and has a length only if the size is known. -/
theorem Intact.createPipeFor (h : t.Intact file hand) {pos : Nat} {len : Int}
    (hlen : 0 < len → 0 < t.storage.filesize) : (t.createPipeFor pos len).Intact file hand := by
  rcases createPipeFor_cases t pos len with hsame | ⟨url, hopened⟩
  · rw [hsame]
    exact h
  · constructor
    · rw [hopened.storage]
      exact h.storage
    · intro x hx hhand
      rw [hopened.opened] at hx
      rcases Nat.lt_succ_iff_lt_or_eq.mp hx with hlt | heq
      · rw [hopened.old x hlt]
        exact h.carried x hlt hhand
      · rw [heq, hopened.new]
        exact ⟨Nat.zero_lt_succ _, List.nil_prefix⟩
    · intro x hx hhand hne
      rw [hopened.opened] at hx
      rw [hopened.storage]
      rcases Nat.lt_succ_iff_lt_or_eq.mp hx with hlt | heq
      · rw [hopened.old x hlt] at hne
        exact h.ranged x hlt hhand hne
      · rw [heq, hopened.new] at hne
        apply hlen
        by_contra hzero
        apply hne
        show (if 0 < len then len else 0) = 0
        rw [if_neg hzero]

theorem Intact.dispatchReader (h : t.Intact file hand) (r : Reader) :
    (t.dispatchReader w r).Intact file hand := by
  rcases dispatchReader_cases w t r with
    hsame | habort | ⟨pos, len, stop, hopen, -, hrange, -, hlen⟩
  · rw [hsame]
    exact h
  · rw [habort]
    exact h.same rfl rfl rfl
  · rw [hopen]
    apply h.createPipeFor
    intro hpos
    -- a stop is at most the estimate, which is the size
    have hstop := (wantedRange_range hrange).2
    have hest := h.storage.estimate
    split at hlen
    · omega
    · omega

theorem intact_readerInvariant : ReaderInvariant w (Intact file hand) where
  abort _ h := h.same rfl rfl rfl
  readers _ _ h := h.same rfl rfl rfl
  dispatch _ r h := h.dispatchReader r

theorem Intact.removeReader (h : t.Intact file hand) (reader : Nat) :
    (t.removeReader reader).Intact file hand := by
  have hwithout :
      Intact file hand { t with readers := t.readers.filter fun r => r.id ≠ reader } :=
    h.same rfl rfl rfl
  exact foldl_preserves (fun _ x hs => hs.dispatchPipe x) _ hwithout

/-! ## What readers leave of the storage -/

theorem addReader_storage (r : Reader) : (t.addReader w r).storage = t.storage :=
  (storage_readerInvariant fun st => st = t.storage).addReader r rfl

theorem readerActs_storage (acts : List ReaderAct) :
    (acts.foldl (readerAct w id) t).storage = t.storage :=
  foldl_preserves (P := fun s => s.storage = t.storage)
    (fun _ act h => (storage_readerInvariant fun st => st = t.storage).readerAct id act h) acts rfl

theorem removeReader_storage : (t.removeReader id).storage = t.storage :=
  foldl_preserves (P := fun s => s.storage = t.storage)
    (fun _ _ h => dispatchPipe_pruned.storage.trans h) t.pipes rfl

/-! ## Callbacks -/

/-- Data of the file is stored, or the process ends. -/
theorem Intact.recvStore (h : t.Intact file hand) {buf : List UInt8} {pos : Nat}
    (hbuf : buf <+: file.drop pos) : (t.recvStore w buf pos).Intact file hand := by
  have hkept := recvStore_sizeKept w t buf pos
  revert hkept
  unfold MsTask.recvStore
  split
  · exact fun _ => h.same rfl rfl rfl
  · rename_i st write hwrite
    have hst := (h.storage.clearBufferFor w t.holdPositions pos buf.length).storageWrite hbuf hwrite
    split
    · intro hkept
      refine ⟨hst, h.carried, fun x hx hhand hne => ?_⟩
      rw [hkept.filesize]
      exact h.ranged x hx hhand hne
    · intro hkept
      refine ⟨hst, h.carried, fun x hx hhand hne => ?_⟩
      rw [hkept.filesize]
      exact h.ranged x hx hhand hne

theorem Intact.onRecv (h : t.Intact file hand) {buf : List UInt8} {pos : Nat}
    (hbuf : buf <+: file.drop pos) : (t.onRecv w react id buf pos).Intact file hand := by
  apply onRecv_preserves (h.recvStore hbuf)
  · exact fun _ c hs => intact_readerInvariant.notify react c hs
  · exact fun _ hs => hs.dispatchPipe id

/-- The size of the file is set. -/
theorem Intact.setFilesize (h : t.Intact file hand) (hfile : 0 < file.length) :
    (t.setFilesize file.length).Intact file hand := by
  simp only [MsTask.setFilesize]
  split
  · exact h.same rfl rfl rfl
  · rename_i st hst
    have hsize := (MemStorage.setFilesize_spec hst).1
    refine ⟨h.storage.setFilesize hst, h.carried, fun _ _ _ _ => ?_⟩
    show 0 < st.filesize
    rw [hsize]
    exact_mod_cast hfile

/-- What a callback may change beside the data and the sizes. -/
theorem Intact.callback {c : PipeCall} (h : t.Intact file hand) (hrecv : c.isRecv = false)
    (hsize : c.isSize = false) : (t.callback w react id c).Intact file hand := by
  cases c with
  | onHeader hm =>
    simp only [MsTask.callback, onHeader]
    split
    · exact h.same rfl rfl rfl
    · exact h.same rfl rfl rfl
  | onFilesize filesize => cases hsize
  | onContentSize pos size => cases hsize
  | onRecv buf pos => cases hrecv
  | onRedirect location => exact h.same rfl rfl rfl
  | onComplete => exact intact_readerInvariant.dispatchReaders (h.closePipe id)
  | onClose code =>
    have hclose : ∀ n, ({ t with code := n }.closePipe id).Intact file hand := fun n =>
      Intact.closePipe (t := { t with code := n }) (h.same rfl rfl rfl) id
    simp only [MsTask.callback, onClose]
    generalize (if code ≠ 0 then code else t.code) = n
    split
    · exact hclose n
    · exact intact_readerInvariant.notify react _ (hclose n)

/-- A size that a callback sets stays set. -/
theorem InHand.of_sizeKept (h : t.InHand file id reqLen) (ht' : t'.Intact file (some id))
    (hkept : SizeKept t t') : t'.InHand file id reqLen :=
  ⟨ht', fun hne => by rw [hkept.filesize]; exact h.sized hne⟩

theorem InHand.setPipe (h : t.InHand file id reqLen) (p : HttpPipe) :
    (t.setPipe id p).InHand file id reqLen :=
  ⟨h.intact.setHand p, h.sized⟩

theorem InHand.recvStore (h : t.InHand file id reqLen) {buf : List UInt8} {pos : Nat}
    (hbuf : buf <+: file.drop pos) : (t.recvStore w buf pos).InHand file id reqLen :=
  h.of_sizeKept (h.intact.recvStore hbuf) (recvStore_sizeKept w t buf pos)

theorem InHand.callback {c : PipeCall} (h : t.InHand file id reqLen) (hrecv : c.isRecv = false)
    (hsize : c.isSize = false) : (t.callback w react id c).InHand file id reqLen :=
  h.of_sizeKept (h.intact.callback hrecv hsize) (callback_sizeKept hsize)

theorem InHand.closePipe (h : t.InHand file id reqLen) : (t.closePipe id).InHand file id reqLen :=
  ⟨h.intact.closePipe id, h.sized⟩

theorem InHand.dispatchPipe (h : t.InHand file id reqLen) :
    (t.dispatchPipe id).InHand file id reqLen := by
  rcases @dispatchPipe_cases t id with hstays | hclose
  · rw [hstays]
    exact h
  · rw [hclose]
    exact h.closePipe

/-- The task as its pipe sees it takes data of the file. -/
theorem taskOwner_takesFile : (taskOwner w react id).TakesFile (InHand file id reqLen) file where
  recv t p buf pos hbuf h := by
    simp only [taskOwner]
    split
    · exact h
    · have hkept : SizeKept (t.setPipe id p)
          ((t.setPipe id p).callback w react id (.onRecv buf pos)) := callback_sizeKept rfl
      exact (h.setPipe p).of_sizeKept ((h.setPipe p).intact.onRecv hbuf) hkept
  other c hrecv hsize t p h := by
    simp only [taskOwner]
    split
    · exact h
    · exact (h.setPipe p).callback hrecv hsize

theorem notify_inHand (c : PipeCall) (h : t.InHand file id reqLen) :
    (t.notify w react c).InHand file id reqLen :=
  h.of_sizeKept (intact_readerInvariant.notify react c h.intact) (notify_sizeKept w react c t)

theorem setFilesize_inHand (h : t.InHand file id reqLen) (hfile : 0 < file.length) :
    (t.setFilesize file.length).InHand file id reqLen := by
  refine ⟨h.intact.setFilesize hfile, fun hne => ?_⟩
  have hsized := h.sized hne
  simp only [MsTask.setFilesize]
  split
  · exact hsized
  · rename_i st hst
    show 0 < st.filesize
    rw [(MemStorage.setFilesize_spec hst).1]
    exact_mod_cast hfile

/-- The size of a response, for the pipe that asked for it. -/
theorem contentSize_inHand {reqPos : Nat} {b : Int} (h : t.InHand file id reqLen)
    (hfile : 0 < file.length) (hreq : (t.pipeOf id).reqLen = reqLen)
    (hend : reqLen = 0 → b + 1 = file.length) :
    (if (t.pipeOf id).reqLen = 0 then t.setFilesize (reqPos + (b - reqPos + 1)) else
      t.setContentSize reqPos (b - reqPos + 1)).InHand file id reqLen := by
  rw [hreq]
  split
  · -- the answer to an open-ended request ends with the file
    rename_i hopen
    rw [show (reqPos : Int) + (b - reqPos + 1) = (file.length : Int) by
      have := hend hopen
      omega]
    exact setFilesize_inHand h hfile
  · -- with a length the pipe was opened for a known size
    rename_i hranged
    have hst : t.storage.setContentSize reqPos (b - reqPos + 1) = some t.storage := by
      unfold MemStorage.setContentSize
      rw [dif_pos (h.sized hranged)]
    unfold setContentSize
    rw [hst]
    exact h

/-- A response of the file, whose sizes are handed on. -/
theorem taskOwner_sizes_inHand {reqPos : Nat} {b : Int} {hm : HttpMessage}
    (hfile : file.length < 2 ^ 63) (hresponse : OriginResponse file.length reqPos b hm)
    (hend : reqLen = 0 → b + 1 = file.length) :
    (taskOwner w react id).PreservesSizes (InHand file id reqLen) reqPos reqLen hm := by
  have hfirst := hresponse.nonempty
  have hlast := hresponse.inside
  have hpos : 0 < file.length := by omega
  constructor
  · intro range hrange t p h
    rw [hresponse.total hfile hrange]
    simp only [taskOwner]
    split
    · exact h
    · have hsized := setFilesize_inHand (h.setPipe p) hpos
      simp only [MsTask.callback, onFilesize]
      split
      · exact hsized
      · exact notify_inHand _ hsized
  · intro v hv t p hlen h
    rw [hresponse.size hfile hv]
    simp only [taskOwner]
    split
    · exact h
    · have hreq : ((t.setPipe id p).pipeOf id).reqLen = reqLen := by
        simp only [MsTask.setPipe, Function.update_self]
        exact hlen
      have hsized := @contentSize_inHand file _ id reqLen reqPos b (h.setPipe p) hpos hreq hend
      simp only [MsTask.callback, onContentSize]
      revert hsized
      generalize (if ((t.setPipe id p).pipeOf id).reqLen = 0 then
          (t.setPipe id p).setFilesize (reqPos + (b - reqPos + 1)) else
          (t.setPipe id p).setContentSize reqPos (b - reqPos + 1)) = s
      intro hsized
      split
      · exact hsized
      · exact notify_inHand _ hsized

/-! ## Runs -/

/-- A chunk of an honest origin: it continues the file where the pipe stands,
    and the first one has the headers of a response that starts where the
    pipe asked, and ends with the file if the pipe asked for no end. -/
structure HonestResponse (file : List UInt8) (p : HttpPipe) (hm : HttpMessage) : Prop where
  body : p.Continues file hm.body
  header : p.onContentCalled = false →
    ∃ b, OriginResponse file.length p.reqPos b hm ∧ (p.reqLen = 0 → b + 1 = file.length)

/-- Every chunk that a pipe in use accepts is one of an honest origin. -/
def Honest (file : List UInt8) (t : MsTask) : TaskEvent → Prop
  | .pipe id (.httpChunk hm) _ =>
    (t.pipeOf id).closing = false → hm.respCode = 200 ∨ hm.respCode = 206 →
      HonestResponse file (t.pipeOf id) hm
  | _ => True

/-- The handler of a pipe, with the pipe in hand. -/
theorem pipeHandler_inHand (hfile : file.length < 2 ^ 63) (h : t.Intact file none)
    (hid : id < t.opened) {ev : PipeEvent} (hev : Honest file t (.pipe id ev react)) :
    Taken (InHand file id (t.pipeOf id).reqLen) file (t.pipeOf id).reqLen
      (pipeHandler (taskOwner w react id) ev (t, t.pipeOf id)) := by
  apply pipeHandler_onFile ev taskOwner_takesFile
  · exact ⟨⟨h.take id, h.ranged id hid (by simp)⟩, h.carried id hid (by simp), rfl⟩
  · rintro hm rfl hopen hcode
    have hhonest := hev hopen hcode
    refine ⟨hhonest.body, fun hfirst => ?_⟩
    obtain ⟨b, hresponse, hend⟩ := hhonest.header hfirst
    exact (taskOwner_sizes_inHand hfile hresponse hend).hands

theorem pipeStep_intact (hfile : file.length < 2 ^ 63) (h : t.Intact file none)
    (hid : id < t.opened) {ev : PipeEvent} (hev : Honest file t (.pipe id ev react)) :
    (t.pipeStep w id ev react).Intact file none := by
  have hhandler := @pipeHandler_inHand w react file t id hfile h hid ev hev
  exact (hhandler.owner.back hhandler.pipe hhandler.reqLen).same rfl rfl rfl

/-- **Step lemma.** -/
theorem step_intact (hfile : file.length < 2 ^ 63) (h : t.Intact file none) {e : TaskEvent}
    (he : Honest file t e) : (t.step w e).Intact file none := by
  unfold step
  split
  · exact h
  · cases e with
    | addReader r =>
      dsimp only
      split
      · exact h
      · exact intact_readerInvariant.addReader r h
    | removeReader id => exact h.removeReader id
    | reader id act =>
      dsimp only
      split
      · exact intact_readerInvariant.readerAct id act h
      · exact h
    | pipe id ev react =>
      dsimp only
      split
      · rename_i hin
        exact pipeStep_intact hfile h hin.1 he
      · exact h

theorem msTaskOpen_intact (file : List UInt8) (url : List Char) :
    (msTaskOpen url).Intact file none where
  storage := MemStorage.msMemStorageOpen_intact file
  carried _ hid := absurd hid (Nat.not_lt_zero _)
  ranged _ hid := absurd hid (Nat.not_lt_zero _)

/-- What `task_read` returns is what the storage has: the pipes it opens
    before it reads change nothing of that. -/
theorem Intact.taskRead (h : t.Intact file hand) {pos : Int} {len : Nat}
    {cells : List (Option UInt8)} (hread : (t.taskRead w pos len).2 = some cells) :
    ∃ bytes, cells = bytes.map some ∧ bytes <+: (file.drop pos.toNat).take len := by
  have hdispatched : (t.dispatchReaders w).Intact file hand :=
    intact_readerInvariant.dispatchReaders h
  simp only [MsTask.taskRead] at hread
  split at hread
  · cases hread
  · rename_i bytes hbytes
    cases hread
    exact hdispatched.storage.storageRead hbytes

end intact

/-- **A task never serves a wrong byte.** In every run of a task whose origin
    answers from where a pipe stands, with any readers, any pipes at a time
    and any evictions: the size is unknown or that of the file, a cached byte
    is the byte of the file, and a read returns bytes of the file from its
    offset on, all of them received before. -/
theorem cache_intact (w : IntArith) (file : List UInt8) (hfile : file.length < 2 ^ 63)
    (url : List Char) (es : List TaskEvent)
    (hrun : Along (step w) (Honest file) (msTaskOpen url) es) :
    let t := run (step w) (msTaskOpen url) es
    (t.storage.filesize = 0 ∨ t.storage.filesize = file.length) ∧
      (∀ off byte, t.storage.byteAt off = some byte → file[off]? = some byte) ∧
      ∀ pos len cells, (t.taskRead w pos len).2 = some cells →
        ∃ bytes, cells = bytes.map some ∧ bytes <+: (file.drop pos.toNat).take len := by
  have h : (run (step w) (msTaskOpen url) es).Intact file none :=
    run_invariant (P := Intact file none) (fun _ _ hs he => step_intact hfile hs he)
      (msTaskOpen_intact file url) hrun
  exact ⟨h.storage.size, h.storage.bytes, fun pos len cells hread => h.taskRead hread⟩

/-- A file of two bytes, asked for by one reader and answered in one chunk. -/
theorem cache_intact_two :
    let t := run (step exactInt) (msTaskOpen ['u']) (firstAnswer 1 2 [7, 8])
    (t.storage.filesize = 0 ∨ t.storage.filesize = 2) ∧
      (∀ off byte, t.storage.byteAt off = some byte → [7, 8][off]? = some byte) ∧
      ∀ pos len cells, (t.taskRead exactInt pos len).2 = some cells →
        ∃ bytes, cells = bytes.map some ∧
          bytes <+: (([7, 8] : List UInt8).drop pos.toNat).take len := by
  apply cache_intact exactInt [7, 8] (by decide) ['u'] (firstAnswer 1 2 [7, 8])
  refine ⟨trivial, fun _ _ => ⟨?_, fun _ => ?_⟩, trivial⟩
  · exact List.prefix_refl _
  · exact ⟨1, ⟨rfl, rfl, rfl, by decide, by decide⟩, fun _ => rfl⟩

end MsTask

end Libms
