import Mathlib
import Libms.Pipe.Preserves
import Libms.Storage.Eviction
import Libms.Storage.ReadWrite
import Libms.Task.Dispatch

/-! # How a task learns its file size

    Two callbacks write the size: `on_filesize` with the total of a
    Content-Range, and `on_content_size` with the end of what an open-ended
    request is answered with. The second is the size of the file only if the
    answer goes to its end.

    * `SizeKept`: nothing else that a task does touches the size.
    * `SizeLearned`: the invariant; `taskOwner_preservesSizes`: what a
      response of the origin does to it.
    * `filesize_learned_once`: runs in which every open-ended request is
      answered to the end.
    * `filesize_contradicted`: one that is not. -/

namespace Libms

open Runs Text

/-! ## The storage -/

namespace MemStorage

theorem setContentSize_filesize {pos size : Int} {st st' : MemStorage}
    (h : st.setContentSize pos size = some st') : st'.filesize = st.filesize := by
  unfold setContentSize at h
  split at h
  · cases h
    rfl
  · split at h
    · split at h
      · cases h
      · cases h
        rfl
    · cases h
      rfl

end MemStorage

namespace MsTask

/-! ## What does not touch the size -/

/-- The size is what it was, and `set_filesize` was not called. -/
structure SizeKept (t t' : MsTask) : Prop where
  filesize : t'.storage.filesize = t.storage.filesize
  sizeCalls : t'.sizeCalls = t.sizeCalls

section kept

variable {w : IntArith} {react : React} {t t' t'' : MsTask}

theorem SizeKept.refl : SizeKept t t := ⟨rfl, rfl⟩

theorem SizeKept.trans (h : SizeKept t t') (h' : SizeKept t' t'') : SizeKept t t'' :=
  ⟨h'.filesize.trans h.filesize, h'.sizeCalls.trans h.sizeCalls⟩

theorem Pruned.sizeKept (h : Pruned t t') : SizeKept t t' :=
  ⟨by rw [h.storage], h.sizeCalls⟩

theorem foldl_sizeKept {α : Type} {f : MsTask → α → MsTask} (hf : ∀ t a, SizeKept t (f t a))
    (as : List α) (t : MsTask) : SizeKept t (as.foldl f t) := by
  induction as generalizing t with
  | nil => exact SizeKept.refl
  | cons a as ih => exact (hf t a).trans (ih (f t a))

theorem dispatchReader_sizeKept (w : IntArith) (t : MsTask) (r : Reader) :
    SizeKept t (t.dispatchReader w r) := by
  unfold dispatchReader
  split
  · exact SizeKept.refl
  · split
    · exact ⟨rfl, rfl⟩
    · exact SizeKept.refl
    · unfold createPipeFor
      split
      · exact SizeKept.refl
      · exact ⟨rfl, rfl⟩

theorem dispatchReaders_sizeKept (w : IntArith) (t : MsTask) : SizeKept t (t.dispatchReaders w) :=
  foldl_sizeKept (dispatchReader_sizeKept w) _ t

theorem readerAct_sizeKept (w : IntArith) (id : Nat) (t : MsTask) (act : ReaderAct) :
    SizeKept t (readerAct w id t act) := by
  unfold readerAct
  split
  · exact SizeKept.refl
  · cases act with
    | move pos sending => exact ⟨rfl, rfl⟩
    | read pos len =>
      have hdispatch := dispatchReaders_sizeKept w t
      simp only [taskRead]
      split
      · exact ⟨hdispatch.filesize, hdispatch.sizeCalls⟩
      · exact hdispatch

theorem notify_sizeKept (w : IntArith) (react : React) (c : PipeCall) (t : MsTask) :
    SizeKept t (t.notify w react c) :=
  foldl_sizeKept (fun t id => foldl_sizeKept (readerAct_sizeKept w id) _ t) _ t

theorem recvStore_sizeKept (w : IntArith) (t : MsTask) (buf : List UInt8) (pos : Nat) :
    SizeKept t (t.recvStore w buf pos) := by
  have hcleared : (t.recvCleared w pos buf.length).filesize = t.storage.filesize :=
    (MemStorage.clearBufferFor_spec t.storage pos buf.length).filesize
  unfold recvStore
  split
  · exact ⟨rfl, rfl⟩
  · rename_i st write hwrite
    have hst := (MemStorage.storageWrite_sizes hwrite).1.trans hcleared
    split
    · exact ⟨hst, rfl⟩
    · exact ⟨hst, rfl⟩

/-- The callbacks other than the two sizes. -/
theorem callback_sizeKept {id : Nat} {c : PipeCall} (hc : c.isSize = false) :
    SizeKept t (t.callback w react id c) := by
  cases c with
  | onHeader hm =>
    simp only [callback, onHeader]
    split
    · exact ⟨rfl, rfl⟩
    · exact ⟨rfl, rfl⟩
  | onFilesize filesize => cases hc
  | onContentSize pos size => cases hc
  | onRecv buf pos =>
    have hstore := recvStore_sizeKept w t buf pos
    have hnotify := hstore.trans (notify_sizeKept w react (.onRecv buf pos) _)
    simp only [callback, onRecv]
    split
    · exact hstore
    · split
      · exact hnotify
      · exact hnotify.trans dispatchPipe_pruned.sizeKept
  | onRedirect location => exact ⟨rfl, rfl⟩
  | onComplete => exact closePipe_pruned.sizeKept.trans (dispatchReaders_sizeKept w _)
  | onClose code =>
    have hclose : ∀ n, SizeKept t ({ t with code := n }.closePipe id) := fun _ => ⟨rfl, rfl⟩
    simp only [callback, onClose]
    generalize (if code ≠ 0 then code else t.code) = n
    split
    · exact hclose n
    · exact (hclose n).trans (notify_sizeKept w react (.onClose code) _)

end kept

/-! ## The invariant -/

/-- Every call of `set_filesize` was for `F` and met the asserts, and the
    size is unknown or `F`. -/
structure SizeLearned (F : Int) (t : MsTask) : Prop where
  calls : ∀ c ∈ t.sizeCalls, c.filesize = F ∧ 0 < c.filesize ∧ c.before ≤ c.filesize
  filesize : t.storage.filesize = 0 ∨ t.storage.filesize = F

/-- A response of the origin: a valid 206 for the bytes from `start` to `b`
    of a resource of size `F`. -/
structure OriginResponse (F start b : Int) (hm : HttpMessage) : Prop where
  code : hm.respCode = 206
  range : mgGetHttpHeader hm "Content-Range" = some (contentRangeText start b F)
  length : mgGetHttpHeader hm "Content-Length" = some (printInt (b - start + 1))
  nonempty : start ≤ b
  inside : b < F

section learned

variable {w : IntArith} {react : React} {F : Int} {t t' : MsTask} {id : Nat}

theorem SizeLearned.kept (h : SizeLearned F t) (hk : SizeKept t t') : SizeLearned F t' where
  calls := by rw [hk.sizeCalls]; exact h.calls
  filesize := by rw [hk.filesize]; exact h.filesize

theorem setFilesize_learned (h : SizeLearned F t) (hF : 0 < F) :
    SizeLearned F (t.setFilesize F) := by
  have hcalls : ∀ c ∈ t.sizeCalls ++ [⟨t.storage.filesize, F⟩],
      c.filesize = F ∧ 0 < c.filesize ∧ c.before ≤ c.filesize := by
    intro c hc
    rcases List.mem_append.mp hc with hc | hc
    · exact h.calls c hc
    · rw [List.mem_singleton.mp hc]
      refine ⟨rfl, hF, ?_⟩
      -- the size before the call is zero or `F`, never more
      rcases h.filesize with hsize | hsize
      · show t.storage.filesize ≤ F
        omega
      · show t.storage.filesize ≤ F
        omega
  simp only [setFilesize]
  split
  · exact ⟨hcalls, h.filesize⟩
  · rename_i st hst
    exact ⟨hcalls, Or.inr (MemStorage.setFilesize_spec hst).1⟩

theorem setContentSize_sizeKept (t : MsTask) (pos size : Int) :
    SizeKept t (t.setContentSize pos size) := by
  unfold setContentSize
  split
  · exact ⟨rfl, rfl⟩
  · rename_i st hst
    exact ⟨MemStorage.setContentSize_filesize hst, rfl⟩

theorem onFilesize_learned (h : SizeLearned F t) (hF : 0 < F) :
    SizeLearned F (t.onFilesize w react F) := by
  have hset := setFilesize_learned h hF
  simp only [onFilesize]
  split
  · exact hset
  · exact hset.kept (notify_sizeKept ..)

/-- The end of an answer is taken for the size only if the request was
    open-ended. -/
theorem onContentSize_learned {pos : Nat} {size : Int} (h : SizeLearned F t) (hF : 0 < F)
    (hend : (t.pipeOf id).reqLen = 0 → pos + size = F) :
    SizeLearned F (t.onContentSize w react id pos size) := by
  have hset : SizeLearned F (if (t.pipeOf id).reqLen = 0 then t.setFilesize (pos + size)
      else t.setContentSize pos size) := by
    split
    · rename_i hopen
      rw [hend hopen]
      exact setFilesize_learned h hF
    · exact h.kept (setContentSize_sizeKept ..)
  simp only [onContentSize]
  revert hset
  generalize (if (t.pipeOf id).reqLen = 0 then t.setFilesize (pos + size)
      else t.setContentSize pos size) = t'
  intro hset
  split
  · exact hset
  · exact hset.kept (notify_sizeKept ..)

/-! ## One response -/

/-- A callback of the task behind pipe `id`. -/
theorem taskOwner_call_learned {p : HttpPipe} {c : PipeCall} (h : SizeLearned F t)
    (hc : SizeLearned F (t.setPipe id p) → SizeLearned F ((t.setPipe id p).callback w react id c)) :
    SizeLearned F ((taskOwner w react id).call t p c).1 := by
  simp only [taskOwner]
  split
  · exact h
  · apply hc
    exact h.kept ⟨rfl, rfl⟩

theorem taskOwner_preserves {c : PipeCall} (hc : c.isSize = false) :
    (taskOwner w react id).Preserves (SizeLearned F) c := by
  intro t p h
  apply taskOwner_call_learned h
  intro h'
  exact h'.kept (callback_sizeKept hc)

theorem taskOwner_preservesSizes {reqPos : Nat} {reqLen b : Int} {hm : HttpMessage}
    (hF : F < 2 ^ 63) (hresponse : OriginResponse F reqPos b hm)
    (hend : reqLen = 0 → b + 1 = F) :
    (taskOwner w react id).PreservesSizes (SizeLearned F) reqPos reqLen hm := by
  have hfirst := hresponse.nonempty
  have hlast := hresponse.inside
  constructor
  · intro range hrange t p h
    rw [hresponse.range] at hrange
    cases hrange
    rw [httpParseContentRange_text (by omega) (by omega) (by omega) (by omega) (by omega) hF]
    apply taskOwner_call_learned h
    intro h'
    exact onFilesize_learned h' (by omega)
  · intro v hv t p hlen h
    rw [hresponse.length] at hv
    cases hv
    rw [strtoll_printInt (by omega) (by omega)]
    apply taskOwner_call_learned h
    intro h'
    apply onContentSize_learned h' (by omega)
    intro hopen
    -- for an open-ended request the content ends where the file does
    have hopen' : p.reqLen = 0 := by
      simpa [setPipe] using hopen
    have := hend (hlen ▸ hopen')
    omega

end learned

/-! ## Runs -/

/-- Every response is a valid 206 of a resource of size `F` that starts
    where the pipe asked it to. -/
def ValidResponse (F : Int) (t : MsTask) : TaskEvent → Prop
  | .pipe id (.httpChunk hm) _ => ∃ b, OriginResponse F (t.pipeOf id).reqPos b hm
  | .pipe id (.httpReply hm) _ => ∃ b, OriginResponse F (t.pipeOf id).reqPos b hm
  | _ => True

/-- The first chunk of the answer to an open-ended request announces the
    rest of the file. -/
def OpenEndReached (t : MsTask) : TaskEvent → Prop
  | .pipe id (.httpChunk hm) _ =>
    (t.pipeOf id).reqLen = 0 → (t.pipeOf id).closing = false →
      (t.pipeOf id).onContentCalled = false →
        ∀ range, mgGetHttpHeader hm "Content-Range" = some range →
          (httpParseContentRange range).2.1 + 1 = (httpParseContentRange range).2.2
  | _ => True

theorem pipeStep_learned {w : IntArith} {F : Int} {t : MsTask} {id : Nat} {ev : PipeEvent}
    {react : React} (hF : F < 2 ^ 63) (h : SizeLearned F t)
    (hvalid : ValidResponse F t (.pipe id ev react)) (hend : OpenEndReached t (.pipe id ev react)) :
    SizeLearned F (t.pipeStep w id ev react) := by
  have hhandler : SizeLearned F (pipeHandler (taskOwner w react id) ev (t, t.pipeOf id)).1 := by
    apply pipeHandler_preserves (fun c hc => taskOwner_preserves hc) ev _ h
    -- only the first chunk of a pipe announces sizes
    rintro hm rfl hopen hfirst
    obtain ⟨b, hresponse⟩ := hvalid
    apply taskOwner_preservesSizes hF hresponse
    intro hlen
    have hrange := hend hlen hopen hfirst _ hresponse.range
    have hstart := hresponse.nonempty
    have hinside := hresponse.inside
    rwa [httpParseContentRange_text (by omega) (by omega) (by omega) (by omega) (by omega) hF]
      at hrange
  exact hhandler.kept ⟨rfl, rfl⟩

theorem step_learned {w : IntArith} {F : Int} {t : MsTask} {e : TaskEvent} (hF : F < 2 ^ 63)
    (h : SizeLearned F t) (hvalid : ValidResponse F t e) (hend : OpenEndReached t e) :
    SizeLearned F (step w t e) := by
  unfold step
  split
  · exact h
  · cases e with
    | addReader r =>
      dsimp only
      split
      · exact h
      · have hadded : SizeLearned F { t with readers := t.readers ++ [r] } := h.kept ⟨rfl, rfl⟩
        exact hadded.kept (dispatchReader_sizeKept w _ r)
    | removeReader id =>
      have hremoved : SizeLearned F { t with readers := t.readers.filter fun r => r.id ≠ id } :=
        h.kept ⟨rfl, rfl⟩
      exact hremoved.kept (dispatchPipes_pruned _).sizeKept
    | reader id act =>
      dsimp only
      split
      · exact h.kept (readerAct_sizeKept w id t act)
      · exact h
    | pipe id ev react =>
      dsimp only
      split
      · exact pipeStep_learned hF h hvalid hend
      · exact h

/-- **The file size is learned once.** In every run of a task whose
    responses are valid answers of a resource of size `F`, and in which every
    open-ended request is answered to the end of the file: every call of
    `set_filesize` is for `F` and meets the asserts, and the size is unknown
    or `F`. -/
theorem filesize_learned_once (w : IntArith) (F : Int) (hF : F < 2 ^ 63) (url : List Char)
    (es : List TaskEvent)
    (hrun : Along (step w) (fun t e => ValidResponse F t e ∧ OpenEndReached t e)
      (msTaskOpen url) es) :
    SizeLearned F (run (step w) (msTaskOpen url) es) := by
  apply run_invariant (P := SizeLearned F) _ _ hrun
  · rintro t e h ⟨hvalid, hend⟩
    exact step_learned hF h hvalid hend
  · constructor
    · intro c hc
      cases hc
    · exact Or.inl rfl

/-- The answer with the bytes from `start` to `b` of a file of size `F`. -/
def answer (start b F : Int) (body : List UInt8) : HttpMessage where
  respCode := 206
  headers := [("Content-Type".toList, "video/mp4".toList),
    ("Content-Range".toList, contentRangeText start b F),
    ("Content-Length".toList, printInt (b - start + 1))]
  body := body

/-- A reader of a new task, and an answer to the pipe it opens. -/
def firstAnswer (b F : Int) (body : List UInt8) : List TaskEvent :=
  [.addReader ⟨0, 0, 0⟩, .pipe 0 (.httpChunk (answer 0 b F body)) fun _ _ _ => []]

theorem filesize_learned_once_two :
    SizeLearned 2 (run (step exactInt) (msTaskOpen ['u']) (firstAnswer 1 2 [7, 8])) := by
  apply filesize_learned_once exactInt 2 (by decide) ['u']
  refine ⟨⟨trivial, trivial⟩, ⟨⟨1, rfl, rfl, rfl, by decide, by decide⟩, ?_⟩, trivial⟩
  intro _ _ _ range hrange
  cases hrange
  rfl

/-- An open-ended request for a file of two bytes is answered with the first
    of them: the size is set to two, and then to one. -/
theorem filesize_contradicted :
    Along (step exactInt) (ValidResponse 2) (msTaskOpen ['u']) (firstAnswer 0 2 [7]) ∧
      ¬ SizeLearned 2 (run (step exactInt) (msTaskOpen ['u']) (firstAnswer 0 2 [7])) := by
  refine ⟨⟨trivial, ⟨0, rfl, rfl, rfl, by decide, by decide⟩, trivial⟩, ?_⟩
  intro h
  have hcalls : (run (step exactInt) (msTaskOpen ['u']) (firstAnswer 0 2 [7])).sizeCalls =
      [⟨0, 2⟩, ⟨2, 1⟩] := by rfl
  have hcall := h.calls ⟨2, 1⟩ (by rw [hcalls]; simp)
  exact absurd hcall.1 (by decide)

end MsTask

end Libms
