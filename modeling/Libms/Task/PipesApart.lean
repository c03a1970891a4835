import Mathlib
import Libms.Task.Callbacks
import Libms.Task.RemoveReader

/-! # Pipes stand apart

    `dispatch_reader` opens a pipe only where none stands, and a pipe moves
    only before `on_recv`. Inside `on_recv` the moved pipe may stand on
    another one, and pipes may be opened by the readers; `dispatch_pipe` at
    its end closes the moved pipe if it still does.

    * `Apart moved t`: the pipes stand at different positions, the moved
      one left out of account.
    * `Apart.dispatchPipe`: where it is taken into account again.
    * `pipes_apart`: after every call of a run. -/

namespace Libms

open Runs

namespace MsTask

/-- The pipes of the queue stand at different positions, `moved` left out
    of account. -/
structure Apart (moved : Option Nat) (t : MsTask) : Prop where
  nodup : t.pipes.Nodup
  known : ∀ id ∈ t.pipes, id < t.opened
  apart : ∀ a ∈ t.pipes, ∀ b ∈ t.pipes, some a ≠ moved → some b ≠ moved →
    t.currentPos a = t.currentPos b → a = b

section apart

variable {w : IntArith} {moved : Option Nat} {t t' : MsTask} {id : Nat}

/-! ## Opening -/

theorem Apart.createPipeFor (h : Apart moved t) {pos : Nat} (len : Int) (hfree : ¬ t.PipeAt pos) :
    Apart moved (t.createPipeFor pos len) := by
  rcases createPipeFor_cases t pos len with hsame | ⟨url, hopened⟩
  · rw [hsame]
    exact h
  · have hnew : t.opened ∉ t.pipes := fun hmem => Nat.lt_irrefl _ (h.known _ hmem)
    have hold : ∀ a ∈ t.pipes, (t.createPipeFor pos len).currentPos a = t.currentPos a :=
      fun a ha => congrArg HttpPipe.pos (hopened.old a (h.known a ha))
    have hat : (t.createPipeFor pos len).currentPos t.opened = pos :=
      congrArg HttpPipe.pos hopened.new
    -- a pipe of the old queue does not stand where the new one is opened
    have hother : ∀ a ∈ t.pipes,
        (t.createPipeFor pos len).currentPos a ≠ (t.createPipeFor pos len).currentPos t.opened := by
      intro a ha heq
      rw [hold a ha, hat] at heq
      exact hfree ⟨a, ha, heq⟩
    constructor
    · rw [hopened.pipes, List.nodup_append]
      refine ⟨h.nodup, List.nodup_singleton _, ?_⟩
      intro a ha b hb heq
      rw [List.mem_singleton.mp hb] at heq
      exact hnew (heq ▸ ha)
    · exact hopened.known h.known
    · intro a ha b hb hma hmb heq
      rw [hopened.pipes] at ha hb
      rcases List.mem_append.mp ha with hina | hea
      · rcases List.mem_append.mp hb with hinb | heb
        · rw [hold a hina, hold b hinb] at heq
          exact h.apart a hina b hinb hma hmb heq
        · rw [List.mem_singleton.mp heb] at heq
          exact absurd heq (hother a hina)
      · rw [List.mem_singleton.mp hea] at heq ⊢
        rcases List.mem_append.mp hb with hinb | heb
        · exact absurd heq.symm (hother b hinb)
        · exact (List.mem_singleton.mp heb).symm

theorem Apart.dispatchReader (h : Apart moved t) (r : Reader) :
    Apart moved (t.dispatchReader w r) := by
  rcases dispatchReader_cases w t r with hsame | habort | ⟨pos, len, _, hopen, hfree, _⟩
  · rw [hsame]
    exact h
  · rw [habort]
    exact ⟨h.nodup, h.known, h.apart⟩
  · rw [hopen]
    exact h.createPipeFor len hfree

theorem apart_readerInvariant : ReaderInvariant w (Apart moved) where
  abort _ h := ⟨h.nodup, h.known, h.apart⟩
  readers _ _ h := ⟨h.nodup, h.known, h.apart⟩
  dispatch _ r h := h.dispatchReader r

/-! ## Closing -/

theorem closePipe_nodup (h : t.pipes.Nodup) (id : Nat) : (t.closePipe id).pipes.Nodup :=
  h.filter _

theorem Apart.closePipe (h : Apart moved t) (id : Nat) : Apart moved (t.closePipe id) where
  nodup := closePipe_nodup h.nodup id
  known a ha := h.known a (closePipe_pruned.pipes a ha)
  apart a ha b hb hma hmb heq := by
    rw [closePipe_pruned.currentPos, closePipe_pruned.currentPos] at heq
    exact h.apart a (closePipe_pruned.pipes a ha) b (closePipe_pruned.pipes b hb) hma hmb heq

/-- Once the moved pipe is closed, the others are all there are. -/
theorem Apart.closeMoved (h : Apart (some id) t) : Apart none (t.closePipe id) where
  nodup := closePipe_nodup h.nodup id
  known a ha := h.known a (closePipe_pruned.pipes a ha)
  apart a ha b hb _ _ heq := by
    obtain ⟨hina, hnea⟩ := mem_closePipe.mp ha
    obtain ⟨hinb, hneb⟩ := mem_closePipe.mp hb
    rw [closePipe_pruned.currentPos, closePipe_pruned.currentPos] at heq
    exact h.apart a hina b hinb (fun hm => hnea (Option.some.inj hm))
      (fun hm => hneb (Option.some.inj hm)) heq

/-- **Where order is restored.** `dispatch_pipe` keeps the moved pipe only
    if no other one stands where it does. -/
theorem Apart.dispatchPipe (h : Apart (some id) t) : Apart none (t.dispatchPipe id) := by
  cases htwin : t.twin id with
  | true =>
    have hclose : t.dispatchPipe id = t.closePipe id := if_pos htwin
    rw [hclose]
    exact h.closeMoved
  | false =>
    have halone : t.Alone id := twin_iff.mp htwin
    have hapart : Apart none t := by
      refine ⟨h.nodup, h.known, ?_⟩
      intro a ha b hb _ _ heq
      by_cases hea : a = id
      · by_contra hne
        exact halone b hb (fun hb' => hne (hea.trans hb'.symm)) (hea ▸ heq.symm)
      · by_cases heb : b = id
        · exact absurd (heb ▸ heq) (halone a ha hea)
        · exact h.apart a ha b hb (fun hm => hea (Option.some.inj hm))
            (fun hm => heb (Option.some.inj hm)) heq
    -- without a twin the pipe may still be closed for another reason
    rcases @dispatchPipe_cases t id with hstays | hclose
    · rw [hstays]
      exact hapart
    · rw [hclose]
      exact hapart.closePipe id

theorem Apart.dispatchPipes (h : Apart none t) (ids : List Nat) :
    Apart none (ids.foldl MsTask.dispatchPipe t) := by
  apply foldl_preserves _ ids h
  intro s id hs
  rcases @dispatchPipe_cases s id with hstays | hclose
  · rw [hstays]
    exact hs
  · rw [hclose]
    exact hs.closePipe id

/-! ## The callbacks -/

theorem Apart.setPipe (h : Apart none t) (id pos : Nat) :
    Apart (some id) (t.setPipe id { t.pipeOf id with pos := pos }) where
  nodup := h.nodup
  known := h.known
  apart a ha b hb hma hmb heq := by
    have hother : ∀ x, some x ≠ some id →
        (t.setPipe id { t.pipeOf id with pos := pos }).currentPos x = t.currentPos x := by
      intro x hx
      have hne : x ≠ id := fun he => hx (congrArg some he)
      simp [currentPos, MsTask.setPipe, hne]
    rw [hother a hma, hother b hmb] at heq
    exact h.apart a ha b hb (Option.some_ne_none a) (Option.some_ne_none b) heq

/-- What one call leaves: the process has ended, or the pipes stand apart. -/
def ApartUnlessAborted (t : MsTask) : Prop := t.aborted = false → Apart none t

theorem onRecv_apart {react : React} {buf : List UInt8} {pos : Nat} (h : Apart (some id) t) :
    (t.onRecv w react id buf pos).ApartUnlessAborted := by
  have hstore : Apart (some id) (t.recvStore w buf pos) := by
    unfold recvStore
    split
    · exact ⟨h.nodup, h.known, h.apart⟩
    · split
      · exact ⟨h.nodup, h.known, h.apart⟩
      · exact ⟨h.nodup, h.known, h.apart⟩
  -- the readers may open pipes while the moved one is out of place
  have hnotify : Apart (some id) ((t.recvStore w buf pos).notify w react (.onRecv buf pos)) :=
    apart_readerInvariant.notify react _ hstore
  intro hlive
  rcases onRecv_cases w react t id buf pos with ⟨hend, hrecv⟩ | ⟨_, hend, hrecv⟩ | ⟨_, _, hrecv⟩
  · rw [hrecv, hend] at hlive
    cases hlive
  · rw [hrecv, hend] at hlive
    cases hlive
  · rw [hrecv]
    exact hnotify.dispatchPipe

/-- Any callback but `on_recv` leaves the pipes where they are. -/
theorem callback_apart {react : React} {c : PipeCall} (hc : c.isRecv = false)
    (h : Apart none t) : Apart none (t.callback w react id c) := by
  refine CallbackSteps.callback ?_ hc
  exact
    { abort := ⟨h.nodup, h.known, h.apart⟩
      header := fun _ => ⟨h.nodup, h.known, h.apart⟩
      redirect := fun _ => ⟨h.nodup, h.known, h.apart⟩
      filesize := fun f => by
        simp only [setFilesize]
        split
        · exact ⟨h.nodup, h.known, h.apart⟩
        · exact ⟨h.nodup, h.known, h.apart⟩
      contentSize := fun _ _ _ => by
        unfold setContentSize
        split
        · exact ⟨h.nodup, h.known, h.apart⟩
        · exact ⟨h.nodup, h.known, h.apart⟩
      complete := h.closePipe id
      close := fun n =>
        (Apart.mk h.nodup h.known h.apart : Apart none { t with code := n }).closePipe id
      notify := fun _ _ hs => apart_readerInvariant.notify react _ hs
      dispatch := fun _ hs => apart_readerInvariant.dispatchReaders hs }

/-! ## Runs -/

theorem opStep_apart (w : IntArith) (t : MsTask) (op : TaskOp) (h : t.ApartUnlessAborted) :
    (t.opStep w op).ApartUnlessAborted := by
  by_cases haborted : t.aborted = true
  · have hsame : t.opStep w op = t := if_pos haborted
    rwa [hsame]
  · have hapart : Apart none t := h (eq_false_of_ne_true haborted)
    apply OpSteps.opStep
    constructor
    case stay => exact h
    case addReader => exact fun r _ => apart_readerInvariant.addReader r hapart
    case removeReader =>
      intro id _
      have hwithout : Apart none (t.withoutReader id) :=
        ⟨hapart.nodup, hapart.known, hapart.apart⟩
      exact hwithout.dispatchPipes t.pipes
    case reader => exact fun id act _ => apart_readerInvariant.readerAct id act hapart
    case recv => exact fun id pos _ _ _ _ => onRecv_apart (hapart.setPipe id pos)
    case callback => exact fun _ _ _ hc _ _ => callback_apart hc hapart

end apart

end MsTask

open MsTask in
/-- **Open pipes stand at different positions** after every call of a run. A
    run that has failed an assert has come to its end. -/
theorem pipes_apart (w : IntArith) (url : List Char) (ops : List TaskOp) :
    let t := run (opStep w) (msTaskOpen url) ops
    t.aborted = false → t.pipes.Nodup ∧
      ∀ a ∈ t.pipes, ∀ b ∈ t.pipes, a ≠ b → t.currentPos a ≠ t.currentPos b := by
  intro t hlive
  have hstart : (msTaskOpen url).ApartUnlessAborted := fun _ =>
    { nodup := List.nodup_nil
      known := fun _ hid => absurd hid List.not_mem_nil
      apart := fun _ hid => absurd hid List.not_mem_nil }
  have h : Apart none t := run_preserves (opStep_apart w) hstart ops hlive
  refine ⟨h.nodup, fun a ha b hb hne heq => hne ?_⟩
  exact h.apart a ha b hb (Option.some_ne_none a) (Option.some_ne_none b) heq

/-- Two readers, each with its pipe; the first pipe comes to where the
    second one stands. -/
def pipesMeet : List MsTask.TaskOp :=
  [.addReader ⟨0, 0, 0⟩, .addReader ⟨1, 32768, 0⟩,
    .callback 0 32768 (.onRecv [] 0) fun _ _ _ => []]

/-- The moved pipe is closed, and the other one is left. -/
theorem pipes_apart_meet :
    let t := run (MsTask.opStep exactInt) (msTaskOpen []) pipesMeet
    t.pipes = [1] ∧ t.pipes.Nodup ∧
      ∀ a ∈ t.pipes, ∀ b ∈ t.pipes, a ≠ b → t.currentPos a ≠ t.currentPos b :=
  ⟨by decide +kernel, pipes_apart exactInt [] pipesMeet (by decide +kernel)⟩

end Libms
