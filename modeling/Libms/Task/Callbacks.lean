import Mathlib
import Libms.Framework.Runs
import Libms.Pipe.Reassembly
import Libms.Task.Dispatch

/-! # A task, call by call

    `MsTask.step` takes one event of a connection at a time, which may make
    several callbacks. Here a step is a single call: one of the readers'
    interface, or one callback of a pipe that is in the queue. What a pipe
    does between its callbacks is left open; all that a callback of a pipe
    shows of it is that its position has moved before `on_recv`.

    * `TaskOp`, `opStep`: the calls.
    * `ReaderInvariant`: what the acts of readers preserve wherever they
      happen, inside a callback or outside.
    * `CallbackSteps`: what the callbacks other than `on_recv` preserve.
    * `onRecv_preserves`, `OpSteps`: the same for `on_recv`, and for a call. -/

namespace Libms

open Runs

/-! ## The calls -/

/-- The pipe as it makes a callback: its position has moved if it is
    `on_recv`. -/
def HttpPipe.atCallback (p : HttpPipe) (pos : Nat) : PipeCall → HttpPipe
  | .onRecv _ _ => { p with pos := pos }
  | _ => p

namespace MsTask

/-- A call to a task: of its readers' interface, or a callback of pipe `id`
    that has come to `pos` by then. -/
inductive TaskOp where
  | addReader (r : Reader)
  | removeReader (id : Nat)
  | reader (id : Nat) (act : ReaderAct)
  | callback (id pos : Nat) (c : PipeCall) (react : React)

/-- The callback `c` of pipe `id`, which has come to `pos`. -/
def pipeCallback (w : IntArith) (t : MsTask) (id pos : Nat) (c : PipeCall) (react : React) :
    MsTask :=
  (t.setPipe id ((t.pipeOf id).atCallback pos c)).callback w react id c

/-- One call. Pipes call back only while they are in the queue, and an
    added reader is new. -/
def opStep (w : IntArith) (t : MsTask) (op : TaskOp) : MsTask :=
  if t.aborted then t
  else
    match op with
    | .addReader r => if r.id ∈ t.readers.map Reader.id then t else t.addReader w r
    | .removeReader id => t.removeReader id
    | .reader id act => if id ∈ t.readers.map Reader.id then readerAct w id t act else t
    | .callback id pos c react => if id ∈ t.pipes then t.pipeCallback w id pos c react else t

/-! ## What readers preserve -/

/-- A property that no act of a reader ends. -/
structure ReaderInvariant (w : IntArith) (P : MsTask → Prop) : Prop where
  abort : ∀ t, P t → P t.abort
  readers : ∀ t rs, P t → P { t with readers := rs }
  dispatch : ∀ t r, P t → P (t.dispatchReader w r)

section preserves

variable {w : IntArith} {P : MsTask → Prop} {t : MsTask}

theorem foldl_preserves {α : Type} {f : MsTask → α → MsTask} (hf : ∀ t a, P t → P (f t a))
    (as : List α) (ht : P t) : P (as.foldl f t) := by
  induction as generalizing t with
  | nil => exact ht
  | cons a as ih => exact ih (hf t a ht)

theorem ReaderInvariant.dispatchReaders (h : ReaderInvariant w P) (ht : P t) :
    P (t.dispatchReaders w) :=
  foldl_preserves h.dispatch t.readers ht

theorem ReaderInvariant.addReader (h : ReaderInvariant w P) (r : Reader) (ht : P t) :
    P (t.addReader w r) :=
  h.dispatch _ r (h.readers t _ ht)

theorem ReaderInvariant.readerAct (h : ReaderInvariant w P) (id : Nat) (act : ReaderAct)
    (ht : P t) : P (readerAct w id t act) := by
  unfold MsTask.readerAct
  split
  · exact ht
  · cases act with
    | move pos sending => exact h.readers t _ ht
    | read pos len =>
      have hdispatch := h.dispatchReaders ht
      simp only [taskRead]
      split
      · exact h.abort _ hdispatch
      · exact hdispatch

theorem ReaderInvariant.notify (h : ReaderInvariant w P) (react : React) (c : PipeCall)
    (ht : P t) : P (t.notify w react c) :=
  foldl_preserves (fun _ id hs => foldl_preserves (fun _ act => h.readerAct id act) _ hs) _ ht

end preserves

/-! ## What callbacks preserve -/

/-- A property that holds after each thing that a callback of pipe `id` other
    than `on_recv` may do first, and that its readers do not end. -/
structure CallbackSteps (w : IntArith) (react : React) (id : Nat) (P : MsTask → Prop)
    (t : MsTask) : Prop where
  abort : P t.abort
  header : ∀ type, P { t with contentType := type }
  redirect : ∀ location, P { t with redirectUrl := location }
  filesize : ∀ filesize, P (t.setFilesize filesize)
  contentSize : ∀ pos size, (t.pipeOf id).reqLen ≠ 0 → P (t.setContentSize pos size)
  complete : P (t.closePipe id)
  close : ∀ code, P ({ t with code := code }.closePipe id)
  notify : ∀ s c, P s → P (s.notify w react c)
  dispatch : ∀ s, P s → P (s.dispatchReaders w)

theorem CallbackSteps.callback {w : IntArith} {react : React} {id : Nat} {P : MsTask → Prop}
    {t : MsTask} {c : PipeCall} (h : CallbackSteps w react id P t) (hc : c.isRecv = false) :
    P (t.callback w react id c) := by
  cases c with
  | onHeader hm =>
    simp only [MsTask.callback, onHeader]
    split
    · exact h.abort
    · exact h.header _
  | onFilesize filesize =>
    simp only [MsTask.callback, onFilesize]
    split
    · exact h.filesize filesize
    · exact h.notify _ _ (h.filesize filesize)
  | onContentSize pos size =>
    have hset : P (if (t.pipeOf id).reqLen = 0 then t.setFilesize (pos + size)
        else t.setContentSize pos size) := by
      split
      · exact h.filesize _
      · rename_i hlen
        exact h.contentSize _ _ hlen
    simp only [MsTask.callback, onContentSize]
    -- either setter may have failed its assert, and then no reader is told
    revert hset
    generalize (if (t.pipeOf id).reqLen = 0 then t.setFilesize (pos + size)
      else t.setContentSize pos size) = s
    intro hset
    split
    · exact hset
    · exact h.notify _ _ hset
  | onRecv buf pos => cases hc
  | onRedirect location => exact h.redirect location
  | onComplete => exact h.dispatch _ h.complete
  | onClose code =>
    simp only [MsTask.callback, onClose]
    generalize (if code ≠ 0 then code else t.code) = n
    split
    · exact h.close n
    · exact h.notify _ _ (h.close n)

/-- `dispatch_reader`, as a step: nothing happens, the process ends, or one
    pipe is opened where there is none, for a range that the reader needs. -/
theorem dispatchReader_cases (w : IntArith) (t : MsTask) (r : Reader) :
    t.dispatchReader w r = t ∨ t.dispatchReader w r = t.abort ∨
      ∃ pos len stop, t.dispatchReader w r = t.createPipeFor pos len ∧ ¬ t.PipeAt pos ∧
        t.wantedRange w r = .range pos stop ∧ ¬ (stop ≤ pos ∧ stop ≠ 0) ∧
        len = if 0 < stop then stop - pos else 0 := by
  unfold dispatchReader
  split
  · exact Or.inl rfl
  · split
    · exact Or.inr (Or.inl rfl)
    · exact Or.inl rfl
    · rename_i pos len hopen
      obtain ⟨stop, hrange, hfree, hmore, hlen⟩ := dispatchOf_openPipe hopen
      exact Or.inr (Or.inr ⟨pos, len, stop, rfl, hfree, hrange, hmore, hlen⟩)

/-- Pipe `p` was opened behind the others, and nothing else was done. -/
structure Opened (p : HttpPipe) (t t' : MsTask) : Prop where
  url : t'.url = t.url
  storage : t'.storage = t.storage
  readers : t'.readers = t.readers
  pipes : t'.pipes = t.pipes ++ [t.opened]
  opened : t'.opened = t.opened + 1
  old : ∀ id < t.opened, t'.pipeOf id = t.pipeOf id
  new : t'.pipeOf t.opened = p

/-- Without an error `create_pipe_for` opens a pipe. -/
theorem createPipeFor_opened {t : MsTask} (hcode : t.code = 0) (pos : Nat) (len : Int) :
    ∃ url, Opened (msHttpPipeCreate url pos len).pipeConnect t (t.createPipeFor pos len) := by
  unfold createPipeFor
  rw [if_neg (fun hne => hne hcode)]
  refine ⟨if 0 < t.redirectUrl.length then t.redirectUrl else t.url, ?_⟩
  refine ⟨rfl, rfl, rfl, rfl, rfl, fun id hid => ?_, ?_⟩
  · exact Function.update_of_ne (Nat.ne_of_lt hid) ..
  · exact Function.update_self ..

/-- `create_pipe_for`, as a step: a task with an error opens no more pipes. -/
theorem createPipeFor_cases (t : MsTask) (pos : Nat) (len : Int) :
    t.createPipeFor pos len = t ∨
      ∃ url, Opened (msHttpPipeCreate url pos len).pipeConnect t (t.createPipeFor pos len) := by
  by_cases hcode : t.code = 0
  · exact Or.inr (createPipeFor_opened hcode pos len)
  · left
    rw [createPipeFor, if_pos hcode]

theorem createPipeFor_aborted (t : MsTask) (pos : Nat) (len : Int) :
    (t.createPipeFor pos len).aborted = t.aborted := by
  unfold createPipeFor
  split <;> rfl

theorem createPipeFor_code (t : MsTask) (pos : Nat) (len : Int) :
    (t.createPipeFor pos len).code = t.code := by
  unfold createPipeFor
  split <;> rfl

/-- The counter stays ahead of the pipes of the queue. -/
theorem Opened.known {p : HttpPipe} {t t' : MsTask} (h : Opened p t t')
    (hknown : ∀ id ∈ t.pipes, id < t.opened) : ∀ id ∈ t'.pipes, id < t'.opened := by
  intro id hid
  rw [h.pipes] at hid
  rw [h.opened]
  rcases List.mem_append.mp hid with hold | hnew
  · exact Nat.lt_succ_of_lt (hknown id hold)
  · rw [List.mem_singleton.mp hnew]
    exact Nat.lt_succ_self _

/-! ## Callbacks -/

section callbacks

variable {w : IntArith} {react : React} {t : MsTask} {id pos : Nat}

theorem setPipe_self (t : MsTask) (id : Nat) : t.setPipe id (t.pipeOf id) = t := by
  unfold setPipe
  rw [Function.update_eq_self]

/-- Before any callback but `on_recv` the pipe has not moved. -/
theorem pipeCallback_other {c : PipeCall} (hc : c.isRecv = false) :
    t.pipeCallback w id pos c react = t.callback w react id c := by
  have hpipe : (t.pipeOf id).atCallback pos c = t.pipeOf id := by
    cases c with
    | onRecv buf start => cases hc
    | _ => rfl
  rw [pipeCallback, hpipe, setPipe_self]

theorem pipeCallback_recv {buf : List UInt8} {start : Nat} :
    t.pipeCallback w id pos (.onRecv buf start) react =
      (t.setPipe id { t.pipeOf id with pos := pos }).onRecv w react id buf start := rfl

/-- `on_recv`, as a step: the data cannot be stored, a reader fails an
    assert, or the pipe is looked at in the end. -/
theorem onRecv_cases (w : IntArith) (react : React) (t : MsTask) (id : Nat) (buf : List UInt8)
    (pos : Nat) :
    let stored := t.recvStore w buf pos
    let notified := stored.notify w react (.onRecv buf pos)
    (stored.aborted = true ∧ t.onRecv w react id buf pos = stored) ∨
      (stored.aborted = false ∧ notified.aborted = true ∧
        t.onRecv w react id buf pos = notified) ∨
      (stored.aborted = false ∧ notified.aborted = false ∧
        t.onRecv w react id buf pos = notified.dispatchPipe id) := by
  intro stored notified
  -- the two tests of `aborted` in the source's order
  have hrecv : t.onRecv w react id buf pos =
      if (if stored.aborted then stored else notified).aborted then
        (if stored.aborted then stored else notified)
      else (if stored.aborted then stored else notified).dispatchPipe id := rfl
  rw [hrecv]
  cases hstored : stored.aborted with
  | true =>
    rw [if_pos rfl, hstored, if_pos rfl]
    exact Or.inl ⟨rfl, rfl⟩
  | false =>
    rw [if_neg Bool.false_ne_true]
    cases hnotified : notified.aborted with
    | true =>
      rw [if_pos rfl]
      exact Or.inr (Or.inl ⟨rfl, rfl, rfl⟩)
    | false =>
      rw [if_neg Bool.false_ne_true]
      exact Or.inr (Or.inr ⟨rfl, rfl, rfl⟩)

/-- What holds once the data is stored, and is not ended by the readers or by
    `dispatch_pipe`, holds after `on_recv`. -/
theorem onRecv_preserves {P : MsTask → Prop} {buf : List UInt8} {start : Nat}
    (hstored : P (t.recvStore w buf start)) (hnotify : ∀ s c, P s → P (s.notify w react c))
    (hdispatch : ∀ s, P s → P (s.dispatchPipe id)) : P (t.onRecv w react id buf start) := by
  have hnotified := hnotify _ (.onRecv buf start) hstored
  rcases onRecv_cases w react t id buf start with ⟨_, hrecv⟩ | ⟨_, _, hrecv⟩ | ⟨_, _, hrecv⟩
  · rw [hrecv]
    exact hstored
  · rw [hrecv]
    exact hnotified
  · rw [hrecv]
    exact hdispatch _ hnotified

end callbacks

/-! ## Calls -/

/-- A property that holds after each thing that a call may do in a state of
    the task. -/
structure OpSteps (w : IntArith) (op : TaskOp) (P : MsTask → Prop) (t : MsTask) : Prop where
  stay : P t
  addReader : ∀ r, P (t.addReader w r)
  removeReader : ∀ id, P (t.removeReader id)
  reader : ∀ id act, P (readerAct w id t act)
  recv : ∀ id pos buf start react, op = .callback id pos (.onRecv buf start) react →
    P ((t.setPipe id { t.pipeOf id with pos := pos }).onRecv w react id buf start)
  callback : ∀ id c react, c.isRecv = false → id ∈ t.pipes → P (t.callback w react id c)

theorem OpSteps.opStep {w : IntArith} {op : TaskOp} {P : MsTask → Prop} {t : MsTask}
    (h : OpSteps w op P t) : P (t.opStep w op) := by
  unfold MsTask.opStep
  split
  · exact h.stay
  · cases op with
    | addReader r =>
      dsimp only
      split
      · exact h.stay
      · exact h.addReader r
    | removeReader id => exact h.removeReader id
    | reader id act =>
      dsimp only
      split
      · exact h.reader id act
      · exact h.stay
    | callback id pos c react =>
      dsimp only
      split
      · rename_i hin
        cases hc : c.isRecv with
        | true =>
          cases c with
          | onRecv buf start =>
            rw [pipeCallback_recv]
            exact h.recv id pos buf start react rfl
          | _ => cases hc
        | false =>
          rw [pipeCallback_other hc]
          exact h.callback id c react hc hin
      · exact h.stay

end MsTask

end Libms
