import Mathlib
import Libms.Pipe.Preserves
import Libms.Task.Callbacks

/-! # Who reads a task

    Readers come with `add_reader` and go with `remove_reader`. Whatever else
    a task does, for its readers or for its pipes, the same readers stay.

    * `SameReaders`: the same url and the same readers, wherever these are.
    * `callback_sameReaders`, `pipeStep_sameReaders`: callbacks of a pipe, and
      an event of its connection. -/

namespace Libms

namespace MsTask

/-- The url, and the readers by their addresses, are what they were. -/
structure SameReaders (t t' : MsTask) : Prop where
  url : t'.url = t.url
  ids : t'.readers.map Reader.id = t.readers.map Reader.id

section same

variable {w : IntArith} {react : React} {t t' t'' : MsTask} {id : Nat}

theorem SameReaders.refl : SameReaders t t := ⟨rfl, rfl⟩

theorem SameReaders.trans (h : SameReaders t t') (h' : SameReaders t' t'') : SameReaders t t'' :=
  ⟨h'.url.trans h.url, h'.ids.trans h.ids⟩

theorem dispatchReader_keeps (w : IntArith) (t : MsTask) (r : Reader) :
    (t.dispatchReader w r).url = t.url ∧ (t.dispatchReader w r).readers = t.readers := by
  rcases dispatchReader_cases w t r with hsame | habort | ⟨pos, len, _, hopen, _⟩
  · rw [hsame]
    exact ⟨rfl, rfl⟩
  · rw [habort]
    exact ⟨rfl, rfl⟩
  · rw [hopen]
    rcases createPipeFor_cases t pos len with hsame | ⟨url, hopened⟩
    · rw [hsame]
      exact ⟨rfl, rfl⟩
    · exact ⟨hopened.url, hopened.readers⟩

theorem dispatchReader_sameReaders (w : IntArith) (t : MsTask) (r : Reader) :
    SameReaders t (t.dispatchReader w r) := by
  obtain ⟨hurl, hreaders⟩ := dispatchReader_keeps w t r
  exact ⟨hurl, congrArg _ hreaders⟩

theorem dispatchPipe_sameReaders : SameReaders t (t.dispatchPipe id) := by
  rcases @dispatchPipe_cases t id with hstays | hclose
  · rw [hstays]
    exact SameReaders.refl
  · rw [hclose]
    exact ⟨rfl, rfl⟩

/-! ## The interface of the readers -/

theorem addReader_readers (r : Reader) : (t.addReader w r).readers = t.readers ++ [r] :=
  (dispatchReader_keeps w _ r).2

theorem addReader_url (r : Reader) : (t.addReader w r).url = t.url :=
  (dispatchReader_keeps w _ r).1

theorem removeReader_sameReaders :
    SameReaders { t with readers := t.readers.filter fun r => r.id ≠ id } (t.removeReader id) :=
  foldl_preserves (fun _ _ h => h.trans dispatchPipe_sameReaders) _ SameReaders.refl

theorem removeReader_ids :
    (t.removeReader id).readers.map Reader.id = (t.readers.map Reader.id).filter (· ≠ id) := by
  rw [removeReader_sameReaders.ids, List.filter_map]
  rfl

theorem dispatchReaders_sameReaders (h : SameReaders t t') :
    SameReaders t (t'.dispatchReaders w) :=
  foldl_preserves (fun s r hs => hs.trans (dispatchReader_sameReaders w s r)) _ h

theorem readerAct_sameReaders (act : ReaderAct) (h : SameReaders t t') :
    SameReaders t (readerAct w id t' act) := by
  unfold readerAct
  split
  · exact h
  · cases act with
    | move pos sending =>
      -- a reader that moves keeps its address
      refine h.trans ⟨rfl, ?_⟩
      dsimp only
      rw [List.map_map]
      apply List.map_congr_left
      intro r _
      show (if r.id = id then { r with pos := pos, sending := sending } else r).id = r.id
      split
      · rfl
      · rfl
    | read pos len =>
      have hdispatch := dispatchReaders_sameReaders (w := w) h
      simp only [taskRead]
      split
      · exact hdispatch.trans ⟨rfl, rfl⟩
      · exact hdispatch

theorem readerActs_sameReaders (acts : List ReaderAct) :
    SameReaders t (acts.foldl (readerAct w id) t) :=
  foldl_preserves (fun _ act hs => readerAct_sameReaders act hs) _ SameReaders.refl

theorem notify_sameReaders (c : PipeCall) (h : SameReaders t t') :
    SameReaders t (t'.notify w react c) :=
  foldl_preserves (fun _ _ hs => hs.trans (readerActs_sameReaders _)) _ h

/-! ## The callbacks -/

theorem setFilesize_sameReaders (filesize : Int) : SameReaders t (t.setFilesize filesize) := by
  simp only [setFilesize]
  split
  · exact ⟨rfl, rfl⟩
  · exact ⟨rfl, rfl⟩

theorem setContentSize_sameReaders (pos size : Int) :
    SameReaders t (t.setContentSize pos size) := by
  unfold setContentSize
  split
  · exact ⟨rfl, rfl⟩
  · exact ⟨rfl, rfl⟩

theorem recvStore_sameReaders (buf : List UInt8) (pos : Nat) :
    SameReaders t (t.recvStore w buf pos) := by
  unfold recvStore
  split
  · exact ⟨rfl, rfl⟩
  · split
    · exact ⟨rfl, rfl⟩
    · exact ⟨rfl, rfl⟩

theorem onRecv_sameReaders (buf : List UInt8) (pos : Nat) :
    SameReaders t (t.onRecv w react id buf pos) := by
  apply onRecv_preserves (recvStore_sameReaders buf pos)
  · exact fun _ c hs => notify_sameReaders c hs
  · exact fun _ hs => hs.trans dispatchPipe_sameReaders

theorem callback_sameReaders (c : PipeCall) : SameReaders t (t.callback w react id c) := by
  cases hc : c.isRecv with
  | true =>
    cases c with
    | onRecv buf pos => exact onRecv_sameReaders buf pos
    | _ => cases hc
  | false =>
    refine CallbackSteps.callback ?_ hc
    exact
      { abort := ⟨rfl, rfl⟩
        header := fun _ => ⟨rfl, rfl⟩
        redirect := fun _ => ⟨rfl, rfl⟩
        filesize := setFilesize_sameReaders
        contentSize := fun pos size _ => setContentSize_sameReaders pos size
        complete := ⟨rfl, rfl⟩
        close := fun _ => ⟨rfl, rfl⟩
        notify := fun _ c hs => notify_sameReaders c hs
        dispatch := fun _ hs => dispatchReaders_sameReaders hs }

theorem taskOwner_sameReaders (c : PipeCall) :
    (taskOwner w react id).Preserves (SameReaders t) c := by
  intro s p hs
  simp only [taskOwner]
  split
  · exact hs
  · have hput : SameReaders t (s.setPipe id p) := hs.trans ⟨rfl, rfl⟩
    exact hput.trans (callback_sameReaders c)

theorem pipeStep_sameReaders (ev : PipeEvent) : SameReaders t (t.pipeStep w id ev react) := by
  have hhandler : SameReaders t (pipeHandler (taskOwner w react id) ev (t, t.pipeOf id)).1 := by
    refine pipeHandler_preserves (P := SameReaders t) (fun c _ => taskOwner_sameReaders c) ev ?_
      SameReaders.refl
    intro hm _ _ _
    exact
      { filesize := fun _ _ => taskOwner_sameReaders _
        contentSize := fun _ _ s p _ hs => taskOwner_sameReaders _ s p hs }
  exact hhandler.trans ⟨rfl, rfl⟩

/-- An event of a pipe. -/
theorem step_sameReaders (ev : PipeEvent) : SameReaders t (t.step w (.pipe id ev react)) := by
  unfold step
  split
  · exact SameReaders.refl
  · dsimp only
    split
    · exact pipeStep_sameReaders ev
    · exact SameReaders.refl

end same

end MsTask

end Libms
