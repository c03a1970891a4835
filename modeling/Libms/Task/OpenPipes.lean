import Mathlib
import Libms.Pipe.Tied
import Libms.Task.Callbacks
import Libms.Task.Filesize

/-! # The queue of a task holds its open pipes

    A pipe calls back the task that opened it, by a plain pointer. The task
    must therefore reach every pipe that may still call when it is closed
    itself, and the queue is all that it has.

    * `QueueOpen`: the pipes that are not closing are those of the queue.
    * `taskClose`: `task_close`, which leaves no pipe open. -/

namespace Libms

open Runs

namespace MsTask

/-- The pipes that are not closing are those of the queue, the pipe in `hand`
    left out of account. At least `n` pipes have been opened, of which some
    are `gone` from the queue. -/
structure QueueOpen (n : Nat) (gone : Nat → Prop) (hand : Option Nat) (t : MsTask) : Prop where
  count : n ≤ t.opened
  gone : ∀ id < n, gone id → id ∉ t.pipes
  known : ∀ id ∈ t.pipes, id < t.opened
  isOpen : ∀ id < t.opened, hand ≠ some id → (id ∈ t.pipes ↔ (t.pipeOf id).closing = false)

/-- The same for a pipe in hand that is closing or not. -/
structure HandOpen (id : Nat) (t : MsTask) (closing : Bool) : Prop where
  queue : t.QueueOpen (id + 1) (fun _ => False) (some id)
  isOpen : id ∈ t.pipes ↔ closing = false

/-- `task_close`: the pipes of the queue are closed, from its head on. What
    is freed after that is not of interest here. -/
def taskClose (t : MsTask) : MsTask :=
  if t.readers = [] then t.pipes.foldl closePipe t else t.abort

section queue

variable {w : IntArith} {react : React} {n : Nat} {gone : Nat → Prop}
  {hand : Option Nat} {t t' : MsTask} {id : Nat}

/-- Nothing of the pipes has changed. -/
theorem QueueOpen.same (h : t.QueueOpen n gone hand) (hpipes : t'.pipes = t.pipes)
    (hopened : t'.opened = t.opened) (hof : t'.pipeOf = t.pipeOf) : t'.QueueOpen n gone hand where
  count := by rw [hopened]; exact h.count
  gone := by rw [hpipes]; exact h.gone
  known := by rw [hpipes, hopened]; exact h.known
  isOpen := by rw [hpipes, hopened, hof]; exact h.isOpen

/-! ## Opening and closing -/

theorem QueueOpen.createPipeFor (h : t.QueueOpen n gone hand) (pos : Nat) (len : Int) :
    (t.createPipeFor pos len).QueueOpen n gone hand := by
  rcases createPipeFor_cases t pos len with hsame | ⟨url, hopened⟩
  · rw [hsame]
    exact h
  · refine ⟨?_, fun id hid hgone => ?_, hopened.known h.known, fun id hid hhand => ?_⟩
    · rw [hopened.opened]
      exact Nat.le_succ_of_le h.count
    · have hold : id ≠ t.opened := Nat.ne_of_lt (Nat.lt_of_lt_of_le hid h.count)
      rw [hopened.pipes, List.mem_append, List.mem_singleton]
      exact fun hmem => hmem.elim (h.gone id hid hgone) hold
    · rw [hopened.opened] at hid
      rw [hopened.pipes, List.mem_append, List.mem_singleton]
      rcases Nat.lt_succ_iff_lt_or_eq.mp hid with hlt | rfl
      · rw [hopened.old id hlt, ← h.isOpen id hlt hhand]
        exact ⟨fun hmem => hmem.resolve_right (Nat.ne_of_lt hlt), Or.inl⟩
      · rw [hopened.new]
        exact ⟨fun _ => rfl, fun _ => Or.inr rfl⟩

theorem queueOpen_readerInvariant : ReaderInvariant w (QueueOpen n gone hand) where
  abort _ h := h.same rfl rfl rfl
  readers _ _ h := h.same rfl rfl rfl
  dispatch t r h := by
    rcases dispatchReader_cases w t r with hsame | habort | ⟨pos, len, _, hopen, _⟩
    · rw [hsame]
      exact h
    · rw [habort]
      exact h.same rfl rfl rfl
    · rw [hopen]
      exact h.createPipeFor pos len

/-- A pipe is taken out of the queue and closed, whether it was there or not. -/
theorem QueueOpen.closePipe (h : t.QueueOpen n gone hand) (id : Nat) :
    (t.closePipe id).QueueOpen n gone hand where
  count := h.count
  gone x hx hgone hmem := h.gone x hx hgone (closePipe_pruned.pipes x hmem)
  known x hx := h.known x (closePipe_pruned.pipes x hx)
  isOpen x hx hhand := by
    rw [mem_closePipe]
    by_cases heq : x = id
    · have hclosed : ((t.closePipe id).pipeOf x).closing = true := by
        rw [heq]
        simp only [MsTask.closePipe, MsTask.setPipe, Function.update_self]
        rfl
      rw [hclosed]
      exact ⟨fun hmem => absurd heq hmem.2, fun hopen => by cases hopen⟩
    · have hother : (t.closePipe id).pipeOf x = t.pipeOf x := Function.update_of_ne heq _ _
      rw [hother, ← h.isOpen x hx hhand]
      exact ⟨And.left, fun hmem => ⟨hmem, heq⟩⟩

theorem QueueOpen.dispatchPipe (h : t.QueueOpen n gone hand) (id : Nat) :
    (t.dispatchPipe id).QueueOpen n gone hand := by
  rcases @dispatchPipe_cases t id with hstays | hclose
  · rw [hstays]
    exact h
  · rw [hclose]
    exact h.closePipe id

theorem QueueOpen.removeReader (h : t.QueueOpen n gone hand) (reader : Nat) :
    (t.removeReader reader).QueueOpen n gone hand := by
  have hwithout :
      QueueOpen n gone hand { t with readers := t.readers.filter fun r => r.id ≠ reader } :=
    h.same rfl rfl rfl
  exact foldl_preserves (fun _ x hs => hs.dispatchPipe x) _ hwithout

/-! ## Callbacks -/

theorem QueueOpen.callback (h : t.QueueOpen n gone hand) (c : PipeCall) :
    (t.callback w react id c).QueueOpen n gone hand := by
  cases hc : c.isRecv with
  | true =>
    cases c with
    | onRecv buf pos =>
      refine onRecv_preserves ?_ (fun _ c hs => queueOpen_readerInvariant.notify react c hs)
        fun _ hs => hs.dispatchPipe id
      unfold recvStore
      split
      · exact h.same rfl rfl rfl
      · split
        · exact h.same rfl rfl rfl
        · exact h.same rfl rfl rfl
    | _ => cases hc
  | false =>
    refine CallbackSteps.callback ?_ hc
    exact
      { abort := h.same rfl rfl rfl
        header := fun _ => h.same rfl rfl rfl
        redirect := fun _ => h.same rfl rfl rfl
        filesize := fun f => by
          simp only [setFilesize]
          split
          · exact h.same rfl rfl rfl
          · exact h.same rfl rfl rfl
        contentSize := fun _ _ _ => by
          unfold setContentSize
          split
          · exact h.same rfl rfl rfl
          · exact h.same rfl rfl rfl
        complete := h.closePipe id
        close := fun code =>
          QueueOpen.closePipe (t := { t with code := code }) (h.same rfl rfl rfl) id
        notify := fun _ _ hs => queueOpen_readerInvariant.notify react _ hs
        dispatch := fun _ hs => queueOpen_readerInvariant.dispatchReaders hs }

/-- A pipe is taken in hand. -/
theorem QueueOpen.take (h : t.QueueOpen n gone none) (hid : id < t.opened) :
    t.HandOpen id (t.pipeOf id).closing where
  queue := ⟨hid, fun _ _ hfalse => hfalse.elim, h.known,
    fun x hx _ => h.isOpen x hx (Option.some_ne_none x).symm⟩
  isOpen := h.isOpen id hid (Option.some_ne_none id).symm

/-- The pipe in hand is put back. If it is closing it is gone. -/
theorem HandOpen.back {p : HttpPipe} (h : t.HandOpen id p.closing) :
    (t.setPipe id p).QueueOpen (id + 1) (fun x => x = id ∧ p.closing = true) none where
  count := h.queue.count
  gone x _ hgone hmem := by
    have hopen := h.isOpen.mp (hgone.1 ▸ hmem)
    rw [hgone.2] at hopen
    cases hopen
  known := h.queue.known
  isOpen x hx _ := by
    by_cases heq : x = id
    · have hself : (t.setPipe id p).pipeOf x = p := by
        rw [heq]
        exact Function.update_self ..
      rw [hself, heq]
      exact h.isOpen
    · have hother : (t.setPipe id p).pipeOf x = t.pipeOf x := Function.update_of_ne heq _ _
      rw [hother]
      exact h.queue.isOpen x hx fun hsome => heq (Option.some.inj hsome).symm

/-- The task keeps its queue and the pipe in hand together. -/
theorem taskOwner_ties :
    (taskOwner w react id).Ties fun t closing => t.HandOpen id closing := by
  intro t p c h
  simp only [taskOwner]
  split
  · exact h
  · have hcalled : ((t.setPipe id p).callback w react id c).QueueOpen (id + 1)
        (fun x => x = id ∧ p.closing = true) none := h.back.callback c
    have htake := hcalled.take hcalled.count
    cases hclosing : p.closing with
    | false =>
      rw [Bool.or_false]
      exact htake
    | true =>
      -- a pipe that is gone is not in the queue again
      have hgone := hcalled.gone id (Nat.lt_succ_self id) ⟨rfl, hclosing⟩
      rw [Bool.or_true]
      exact ⟨htake.queue, fun hmem => absurd hmem hgone, fun hfalse => by cases hfalse⟩

/-! ## Runs -/

theorem pipeStep_queueOpen (h : t.QueueOpen n gone none) (hid : id < t.opened) (ev : PipeEvent) :
    (t.pipeStep w id ev react).QueueOpen (id + 1) (fun _ => False) none := by
  have htied : Tied (fun t closing => t.HandOpen id closing)
      (pipeHandler (taskOwner w react id) ev (t, t.pipeOf id)) := by
    apply pipeHandler_tied _ taskOwner_ties
    exact h.take hid
  have hback := HandOpen.back htied
  exact ⟨hback.count, fun _ _ hfalse => hfalse.elim, hback.known, hback.isOpen⟩

/-- **Step lemma.** -/
theorem step_queueOpen (h : t.QueueOpen 0 (fun _ => False) none) (e : TaskEvent) :
    (t.step w e).QueueOpen 0 (fun _ => False) none := by
  unfold step
  split
  · exact h
  · cases e with
    | addReader r =>
      dsimp only
      split
      · exact h
      · exact queueOpen_readerInvariant.addReader r h
    | removeReader id => exact h.removeReader id
    | reader id act =>
      dsimp only
      split
      · exact queueOpen_readerInvariant.readerAct id act h
      · exact h
    | pipe id ev react =>
      dsimp only
      split
      · rename_i hin
        have hstep : (t.pipeStep w id ev react).QueueOpen (id + 1) (fun _ => False) none :=
          pipeStep_queueOpen h hin.1 ev
        exact ⟨Nat.zero_le _, fun _ _ hfalse => hfalse.elim, hstep.known, hstep.isOpen⟩
      · exact h

theorem msTaskOpen_queueOpen (url : List Char) :
    (msTaskOpen url).QueueOpen 0 (fun _ => False) none where
  count := Nat.zero_le _
  gone _ _ hfalse := hfalse.elim
  known _ hid := absurd hid List.not_mem_nil
  isOpen _ hid := absurd hid (Nat.not_lt_zero _)

/-! ## `task_close` -/

/-- The loop over the queue leaves it empty. -/
theorem closePipes_empty (ids : List Nat) (hids : ∀ id ∈ t.pipes, id ∈ ids) :
    (ids.foldl closePipe t).pipes = [] := by
  induction ids generalizing t with
  | nil =>
    apply List.eq_nil_iff_forall_not_mem.mpr
    exact fun id hid => absurd (hids id hid) List.not_mem_nil
  | cons id ids ih =>
    apply ih
    intro x hx
    obtain ⟨hmem, hne⟩ := mem_closePipe.mp hx
    exact (List.mem_cons.mp (hids x hmem)).resolve_left hne

theorem closePipes_opened (ids : List Nat) : (ids.foldl closePipe t).opened = t.opened := by
  induction ids generalizing t with
  | nil => rfl
  | cons id ids ih => exact ih.trans rfl

/-- **`task_close`** leaves no pipe open. -/
theorem taskClose_closing (h : t.QueueOpen n gone none) (hreaders : t.readers = [])
    (hid : id < t.opened) : (t.taskClose.pipeOf id).closing = true := by
  have hclose : t.taskClose = t.pipes.foldl closePipe t := if_pos hreaders
  have hclosed : t.taskClose.QueueOpen n gone none := by
    rw [hclose]
    exact foldl_preserves (fun _ x hs => hs.closePipe x) _ h
  have hempty : t.taskClose.pipes = [] := by
    rw [hclose]
    exact closePipes_empty t.pipes fun _ hmem => hmem
  have hknown : id < t.taskClose.opened := by
    rw [hclose, closePipes_opened]
    exact hid
  have hqueue := hclosed.isOpen id hknown (Option.some_ne_none id).symm
  rw [hempty] at hqueue
  cases hclosing : (t.taskClose.pipeOf id).closing with
  | true => rfl
  | false => exact absurd (hqueue.mpr hclosing) List.not_mem_nil

end queue

/-- **Run lemma.** The queue of a task always holds exactly the pipes that
    are not closing. -/
theorem run_queueOpen (w : IntArith) (url : List Char) (es : List TaskEvent) :
    (run (step w) (msTaskOpen url) es).QueueOpen 0 (fun _ => False) none :=
  run_preserves (P := QueueOpen 0 (fun _ => False) none) (fun _ e hs => step_queueOpen hs e)
    (msTaskOpen_queueOpen url) es

end MsTask

end Libms
