import Mathlib
import Libms.Task.LinkedTask
import Libms.Task.OpenPipes

/-! # When the queue is a list

    * `Represents`: the pointers of a task are a ring, and its pipes are the
      queue of a task that keeps a list.
    * One lemma for each function: it stays so, where a pipe that is taken out
      of the queue is in it.
    * `linked_queue_refines`: in a run whose chunks close a pipe in their last
      callback, if they close it, the two tasks do the same.
    * `closed_task_left_alone`: after `task_close` no event of any pipe of the
      task makes a callback. -/

namespace Libms

open Ring Runs MsTask

namespace LinkedTask

/-! ## Represented queues -/

/-- The pointers hold the queue of `t`, and all else is the same. -/
structure Represents (x : LinkedTask) (t : MsTask) : Prop where
  rest : x.rest = { t with pipes := [] }
  ring : x.links.IsRing none (t.pipes.map some)
  known : ∀ id ∈ t.pipes, id < t.opened

/-- The function neither reads nor changes the queue, and opens no pipe. -/
structure Local (f : MsTask → MsTask) : Prop where
  pipes : ∀ t ps, f { t with pipes := ps } = { f t with pipes := ps }
  opened : ∀ t, (f t).opened = t.opened

section represents

variable {w : IntArith} {react : React} {x : LinkedTask} {t : MsTask} {id : Nat}

theorem Represents.nodup (h : x.Represents t) : t.pipes.Nodup :=
  (List.nodup_cons.mp h.ring.nodup).2.of_map some

/-- There are no more pipes in the queue than were opened. -/
theorem Represents.length_le (h : x.Represents t) : t.pipes.length ≤ t.opened := by
  have hsubset : t.pipes ⊆ List.range t.opened :=
    fun id hid => List.mem_range.mpr (h.known id hid)
  have hle := (h.nodup.subperm hsubset).length_le
  rw [List.length_range] at hle
  exact hle

/-- The loops of the task see the list. -/
theorem Represents.view (h : x.Represents t) : x.view = t := by
  have hopened : x.rest.opened = t.opened := by rw [h.rest]
  have hnodes : x.links.nodes x.rest.opened none = t.pipes.map some := by
    apply Links.nodes_eq h.ring
    rw [List.length_map, hopened]
    exact h.length_le
  have hqueue : x.queue = t.pipes := by
    unfold queue
    rw [hnodes, List.filterMap_map]
    exact List.filterMap_some
  unfold LinkedTask.view
  rw [hqueue, h.rest]

theorem Represents.within (h : x.Represents t) {f : MsTask → MsTask} (hf : Local f) :
    (x.within f).Represents (f t) := by
  have hsame : f t = { f t with pipes := t.pipes } := hf.pipes t t.pipes
  have hpipes : (f t).pipes = t.pipes := by rw [hsame]
  refine ⟨?_, ?_, ?_⟩
  · show f x.rest = _
    rw [h.rest, hf.pipes]
  · rw [hpipes]
    exact h.ring
  · rw [hpipes, hf.opened]
    exact h.known

theorem Represents.abort (h : x.Represents t) : (x.within abort).Represents t.abort :=
  h.within ⟨fun _ _ => rfl, fun _ => rfl⟩

theorem Represents.foldl {α : Type} {f : LinkedTask → α → LinkedTask} {g : MsTask → α → MsTask}
    (hstep : ∀ x t a, Represents x t → Represents (f x a) (g t a)) (h : x.Represents t)
    (as : List α) : (as.foldl f x).Represents (as.foldl g t) := by
  induction as generalizing x t with
  | nil => exact h
  | cons a as ih => exact ih (hstep x t a h)

/-! ## Opening and closing -/

/-- `QUEUE_REMOVE` of a node that is linked in. -/
theorem Represents.closePipe (h : x.Represents t) (hid : id ∈ t.pipes) :
    (x.closePipe id).Represents (t.closePipe id) where
  rest := by
    simp only [LinkedTask.closePipe, h.rest]
    rfl
  ring := by
    obtain ⟨before, behind, hpipes⟩ := List.append_of_mem hid
    have hnodup := h.nodup
    have hring := h.ring
    rw [hpipes] at hnodup hring
    have hclosed : (t.closePipe id).pipes = before ++ behind := by
      have hleft : ∀ y ∈ before, (decide (y ≠ id)) = true := by
        intro y hy
        rw [decide_eq_true_eq]
        rintro rfl
        exact (List.nodup_append.mp hnodup).2.2 y hy y List.mem_cons_self rfl
      have hright : ∀ y ∈ behind, (decide (y ≠ id)) = true := by
        intro y hy
        rw [decide_eq_true_eq]
        rintro rfl
        exact (List.nodup_cons.mp (List.nodup_append.mp hnodup).2.1).1 hy
      show t.pipes.filter (· ≠ id) = before ++ behind
      rw [hpipes, List.filter_append, List.filter_cons_of_neg (by simp),
        List.filter_eq_self.mpr hleft, List.filter_eq_self.mpr hright]
    rw [hclosed, List.map_append]
    rw [List.map_append, List.map_cons] at hring
    exact hring.remove
  known y hy := h.known y (List.mem_of_mem_filter hy)

theorem Represents.createPipeFor (h : x.Represents t) (pos : Nat) (len : Int) :
    (x.createPipeFor pos len).Represents (t.createPipeFor pos len) := by
  have hrest := h.rest
  have hcode : x.rest.code = t.code := by rw [hrest]
  simp only [LinkedTask.createPipeFor, MsTask.createPipeFor, hcode]
  split
  · exact h
  · have hnew : some t.opened ∉ none :: t.pipes.map some := by
      intro hmem
      rcases List.mem_cons.mp hmem with hmem | hmem
      · cases hmem
      · obtain ⟨id, hid, heq⟩ := List.mem_map.mp hmem
        rw [Option.some.inj heq] at hid
        exact Nat.lt_irrefl _ (h.known _ hid)
    refine ⟨?_, ?_, ?_⟩
    · simp only [hrest]
      rfl
    · simp only [hrest, List.map_append, List.map_cons, List.map_nil]
      exact (h.ring.init hnew).insertTail hnew
    · intro id hid
      rcases List.mem_append.mp hid with hold | hlast
      · exact Nat.lt_succ_of_lt (h.known id hold)
      · rw [List.mem_singleton.mp hlast]
        exact Nat.lt_succ_self _

theorem Represents.dispatchReader (h : x.Represents t) (r : Reader) :
    (x.dispatchReader w r).Represents (t.dispatchReader w r) := by
  have haborted : x.rest.aborted = t.aborted := by rw [h.rest]
  unfold LinkedTask.dispatchReader MsTask.dispatchReader
  rw [haborted, h.view]
  split
  · exact h
  · cases t.dispatchOf w r with
    | abort => exact h.abort
    | done => exact h
    | openPipe pos len => exact h.createPipeFor pos len

theorem Represents.dispatchReaders (h : x.Represents t) :
    (x.dispatchReaders w).Represents (t.dispatchReaders w) := by
  have hreaders : x.rest.readers = t.readers := by rw [h.rest]
  unfold LinkedTask.dispatchReaders MsTask.dispatchReaders
  rw [hreaders]
  exact h.foldl (fun _ _ r hs => hs.dispatchReader r) _

theorem Represents.dispatchPipe (h : x.Represents t) (hid : id ∈ t.pipes) :
    (x.dispatchPipe id).Represents (t.dispatchPipe id) := by
  unfold LinkedTask.dispatchPipe MsTask.dispatchPipe
  rw [h.view]
  split
  · exact h.closePipe hid
  · cases t.nearestReader (t.currentPos id) (-1) with
    | none => exact h.closePipe hid
    | some r =>
      dsimp only
      split
      · exact h.closePipe hid
      · split
        · exact h.closePipe hid
        · exact h

/-! ## Readers -/

theorem Represents.addReader (h : x.Represents t) (r : Reader) :
    (x.addReader w r).Represents (t.addReader w r) :=
  Represents.dispatchReader
    (h.within (f := fun t => { t with readers := t.readers ++ [r] })
      ⟨fun _ _ => rfl, fun _ => rfl⟩) r

theorem Represents.readerAct (h : x.Represents t) (id : Nat) (act : ReaderAct) :
    (x.readerAct w id act).Represents (t.readerAct w id act) := by
  have haborted : x.rest.aborted = t.aborted := by rw [h.rest]
  unfold LinkedTask.readerAct MsTask.readerAct
  rw [haborted]
  split
  · exact h
  · cases act with
    | move pos sending => exact h.within ⟨fun _ _ => rfl, fun _ => rfl⟩
    | read pos len =>
      have hdispatched : (x.dispatchReaders w).Represents (t.dispatchReaders w) :=
        h.dispatchReaders
      have hstorage : (x.dispatchReaders w).rest.storage = (t.dispatchReaders w).storage := by
        rw [hdispatched.rest]
      simp only [LinkedTask.taskRead, MsTask.taskRead, hstorage]
      cases (t.dispatchReaders w).storage.storageRead pos len with
      | none => exact hdispatched.abort
      | some bytes => exact hdispatched

theorem Represents.notify (h : x.Represents t) (c : PipeCall) :
    (x.notify w react c).Represents (t.notify w react c) := by
  have hreaders : x.rest.readers = t.readers := by rw [h.rest]
  unfold LinkedTask.notify MsTask.notify
  rw [hreaders]
  refine h.foldl (fun y s id hs => ?_) _
  rw [hs.view]
  exact hs.foldl (fun _ _ act hr => hr.readerAct id act) _

/-- The queue as the rules of the loops want it. -/
def Queued (nodes : List (Option Nat)) (x : LinkedTask) (t : MsTask) : Prop :=
  x.Represents t ∧ nodes = t.pipes.map some

theorem Queued.ring {nodes : List (Option Nat)} (h : Queued nodes x t) :
    x.links.IsRing none nodes := by
  rw [h.2]
  exact h.1.ring

theorem Queued.mem {before behind : List (Option Nat)}
    (h : Queued (before ++ some id :: behind) x t) : id ∈ t.pipes := by
  have hnode : some id ∈ t.pipes.map some := by
    rw [← h.2]
    exact List.mem_append_right _ List.mem_cons_self
  obtain ⟨y, hy, heq⟩ := List.mem_map.mp hnode
  rw [← Option.some.inj heq]
  exact hy

/-- The nodes that are left when a pipe is taken out. -/
theorem Queued.closePipe {before behind : List (Option Nat)}
    (h : Queued (before ++ some id :: behind) x t) :
    Queued (before ++ behind) (x.closePipe id) (t.closePipe id) := by
  have hclosed := h.1.closePipe h.mem
  refine ⟨hclosed, ?_⟩
  -- both are what the pointers hold
  have hring : (x.closePipe id).links.IsRing none (before ++ behind) := h.ring.remove
  have hlinks := Links.nodes_eq hring (Nat.le_max_left _ (t.closePipe id).pipes.length)
  have hqueue := Links.nodes_eq hclosed.ring (n := max (before ++ behind).length
    (t.closePipe id).pipes.length) (by
      rw [List.length_map]
      exact Nat.le_max_right _ _)
  exact hlinks.symm.trans hqueue

/-- What the loop of `remove_reader` does to the list. -/
def dispatchListed (t : MsTask) : Option Nat → MsTask
  | none => t
  | some id => t.dispatchPipe id

theorem Represents.removeReader (h : x.Represents t) (id : Nat) :
    (x.removeReader id).Represents (t.removeReader id) := by
  have hwithout : (x.within fun t => { t with
      readers := t.readers.filter fun r => r.id ≠ id }).Represents
        { t with readers := t.readers.filter fun r => r.id ≠ id } :=
    h.within (f := fun t => { t with readers := t.readers.filter fun r => r.id ≠ id })
      ⟨fun _ _ => rfl, fun _ => rfl⟩
  have hbody : ∀ before q behind y s, Queued (before ++ q :: behind) y s →
      Queued (before ++ q :: behind) (y.dispatchNode q) (dispatchListed s q) ∨
        Queued (before ++ behind) (y.dispatchNode q) (dispatchListed s q) := by
    intro before q behind y s hq
    cases q with
    | none => exact Or.inl hq
    | some id =>
      have hdispatched := hq.1.dispatchPipe hq.mem
      have hlist : dispatchListed s (some id) = s.dispatchPipe id := rfl
      rcases @dispatchPipe_cases s id with hstays | hcloses
      · refine Or.inl ⟨hdispatched, ?_⟩
        rw [hlist, hstays]
        exact hq.2
      · refine Or.inr ⟨hdispatched, ?_⟩
        rw [hlist, hcloses]
        exact hq.closePipe.2
  have hlength : (t.pipes.map some).length ≤ x.rest.opened := by
    rw [List.length_map, h.rest]
    exact h.length_le
  have hall : Queued ([] ++ t.pipes.map some) _ _ := ⟨hwithout, rfl⟩
  obtain ⟨nodes, hswept, -⟩ := sweep_simulates (fun _ _ _ hq => hq.ring) hbody hall hlength
    h.ring.next_head
  rw [List.foldl_map] at hswept
  exact hswept

/-! ## Callbacks -/

theorem local_setFilesize (filesize : Int) : Local fun t => t.setFilesize filesize where
  pipes t ps := by
    simp only [setFilesize]
    cases t.storage.setFilesize filesize <;> rfl
  opened t := by
    simp only [setFilesize]
    cases t.storage.setFilesize filesize <;> rfl

theorem local_setContentSize (pos size : Int) : Local fun t => t.setContentSize pos size where
  pipes t ps := by
    simp only [setContentSize]
    cases t.storage.setContentSize pos size <;> rfl
  opened t := by
    simp only [setContentSize]
    cases t.storage.setContentSize pos size <;> rfl

theorem local_onHeader (hm : HttpMessage) : Local fun t => t.onHeader hm where
  pipes t ps := by
    simp only [onHeader]
    cases mgGetHttpHeader hm "Content-Type" <;> rfl
  opened t := by
    simp only [onHeader]
    cases mgGetHttpHeader hm "Content-Type" <;> rfl

theorem local_recvStore (w : IntArith) (buf : List UInt8) (pos : Nat) :
    Local fun t => t.recvStore w buf pos where
  pipes t ps := by
    have hcleared : ({ t with pipes := ps } : MsTask).recvCleared w pos buf.length =
        t.recvCleared w pos buf.length := rfl
    simp only [recvStore, hcleared]
    cases (t.recvCleared w pos buf.length).storageWrite buf pos with
    | none => rfl
    | some written =>
      dsimp only
      split <;> rfl
  opened t := by
    simp only [recvStore]
    cases (t.recvCleared w pos buf.length).storageWrite buf pos with
    | none => rfl
    | some written =>
      dsimp only
      split <;> rfl

/-- Readers close no pipes. -/
theorem mem_readerInvariant : ReaderInvariant w fun t => id ∈ t.pipes where
  abort _ h := h
  readers _ _ h := h
  dispatch t r h := by
    rcases dispatchReader_cases w t r with hsame | habort | ⟨pos, len, _, hopen, _⟩
    · rw [hsame]
      exact h
    · rw [habort]
      exact h
    · rw [hopen]
      rcases createPipeFor_cases t pos len with hsame | ⟨url, hopened⟩
      · rw [hsame]
        exact h
      · rw [hopened.pipes]
        exact List.mem_append_left _ h

/-- What a callback does once it has set or stored something. -/
theorem Represents.unlessAborted {f : LinkedTask → LinkedTask} {g : MsTask → MsTask}
    (h : x.Represents t) (hfg : (f x).Represents (g t)) :
    (if x.rest.aborted then x else f x).Represents (if t.aborted then t else g t) := by
  have haborted : x.rest.aborted = t.aborted := by rw [h.rest]
  rw [haborted]
  split
  · exact h
  · exact hfg

/-- A pipe that makes a callback is in the queue, so it can be taken out. -/
theorem Represents.callback (h : x.Represents t) (hid : id ∈ t.pipes) (c : PipeCall) :
    (x.callback w react id c).Represents (t.callback w react id c) := by
  cases c with
  | onHeader hm => exact h.within (local_onHeader hm)
  | onFilesize filesize =>
    have hset := h.within (local_setFilesize filesize)
    exact hset.unlessAborted (hset.notify _)
  | onContentSize pos size =>
    have hreqLen : (x.rest.pipeOf id).reqLen = (t.pipeOf id).reqLen := by rw [h.rest]
    simp only [LinkedTask.callback, MsTask.callback, LinkedTask.onContentSize,
      MsTask.onContentSize, hreqLen]
    have hset : (if (t.pipeOf id).reqLen = 0 then x.within fun t => t.setFilesize (pos + size)
        else x.within fun t => t.setContentSize pos size).Represents
          (if (t.pipeOf id).reqLen = 0 then t.setFilesize (pos + size)
            else t.setContentSize pos size) := by
      split
      · exact h.within (local_setFilesize _)
      · exact h.within (local_setContentSize pos size)
    exact hset.unlessAborted (hset.notify _)
  | onRecv buf pos =>
    have hstored := h.within (local_recvStore w buf pos)
    have hnotified := hstored.unlessAborted (f := LinkedTask.notify w react (.onRecv buf pos))
      (g := MsTask.notify w react (.onRecv buf pos)) (hstored.notify _)
    refine hnotified.unlessAborted (f := fun x => x.dispatchPipe id)
      (g := fun t => t.dispatchPipe id) (hnotified.dispatchPipe ?_)
    -- the readers may open pipes in the meantime, and close none
    have hin : id ∈ (t.recvStore w buf pos).pipes := by
      rw [(local_recvStore w buf pos).pipes t t.pipes]
      exact hid
    split
    · exact hin
    · exact mem_readerInvariant.notify react _ hin
  | onRedirect location =>
    exact h.within (f := fun t => t.onRedirect location) ⟨fun _ _ => rfl, fun _ => rfl⟩
  | onComplete => exact (h.closePipe hid).dispatchReaders
  | onClose code =>
    have hcode := h.within (f := fun t => { t with code := if code ≠ 0 then code else t.code })
      ⟨fun _ _ => rfl, fun _ => rfl⟩
    have hclosed := hcode.closePipe hid
    unfold LinkedTask.callback MsTask.callback LinkedTask.onClose MsTask.onClose
    dsimp only
    generalize ({ t with code := if code ≠ 0 then code else t.code } : MsTask).closePipe id = s
      at hclosed ⊢
    generalize (x.within fun t => { t with
      code := if code ≠ 0 then code else t.code }).closePipe id = y at hclosed ⊢
    have hsame : y.rest.code = s.code := by rw [hclosed.rest]
    rw [hsame]
    split
    · exact hclosed
    · exact hclosed.notify _

/-! ## The pipe in hand -/

/-- A pipe that was in the queue still is, or is closing. -/
structure Held (id : Nat) (t : MsTask) : Prop where
  known : id < t.opened
  held : id ∈ t.pipes ∨ (t.pipeOf id).closing = true

theorem Held.same {t' : MsTask} (h : Held id t) (hpipes : t'.pipes = t.pipes)
    (hopened : t'.opened = t.opened) (hof : t'.pipeOf = t.pipeOf) : Held id t' := by
  refine ⟨?_, ?_⟩
  · rw [hopened]
    exact h.known
  · rw [hpipes, hof]
    exact h.held

theorem Held.local {f : MsTask → MsTask} (h : Held id t) (hf : Local f)
    (hof : (f t).pipeOf = t.pipeOf) : Held id (f t) :=
  h.same (by rw [hf.pipes t t.pipes]) (hf.opened t) hof

theorem held_readerInvariant : ReaderInvariant w (Held id) where
  abort _ h := h.same rfl rfl rfl
  readers _ _ h := h.same rfl rfl rfl
  dispatch t r h := by
    rcases dispatchReader_cases w t r with hsame | habort | ⟨pos, len, _, hopen, _⟩
    · rw [hsame]
      exact h
    · rw [habort]
      exact h.same rfl rfl rfl
    · rw [hopen]
      rcases createPipeFor_cases t pos len with hsame | ⟨url, hopened⟩
      · rw [hsame]
        exact h
      · refine ⟨?_, ?_⟩
        · rw [hopened.opened]
          exact Nat.lt_succ_of_lt h.known
        · rw [hopened.pipes, hopened.old id h.known]
          exact h.held.imp_left (List.mem_append_left _)

theorem Held.closePipe (hknown : id < t.opened) : Held id (t.closePipe id) where
  known := hknown
  held := by
    right
    simp only [MsTask.closePipe, MsTask.setPipe, Function.update_self]
    rfl

theorem Held.callback (h : Held id t) (c : PipeCall) : Held id (t.callback w react id c) := by
  cases hc : c.isRecv with
  | true =>
    cases c with
    | onRecv buf pos =>
      refine onRecv_preserves ?_ (fun _ c hs => held_readerInvariant.notify react c hs)
        fun s hs => ?_
      · refine h.local (local_recvStore w buf pos) ?_
        simp only [recvStore]
        cases (t.recvCleared w pos buf.length).storageWrite buf pos with
        | none => rfl
        | some written =>
          dsimp only
          split <;> rfl
      · rcases @dispatchPipe_cases s id with hstays | hclose
        · rw [hstays]
          exact hs
        · rw [hclose]
          exact Held.closePipe hs.known
    | _ => cases hc
  | false =>
    refine CallbackSteps.callback ?_ hc
    exact
      { abort := h.same rfl rfl rfl
        header := fun _ => h.same rfl rfl rfl
        redirect := fun _ => h.same rfl rfl rfl
        filesize := fun f => h.local (local_setFilesize f) (by
          simp only [setFilesize]
          cases t.storage.setFilesize f <;> rfl)
        contentSize := fun pos size _ => h.local (local_setContentSize pos size) (by
          simp only [setContentSize]
          cases t.storage.setContentSize pos size <;> rfl)
        complete := Held.closePipe h.known
        close := fun code => Held.closePipe (t := { t with code := code }) h.known
        notify := fun _ _ hs => held_readerInvariant.notify react _ hs
        dispatch := fun _ hs => held_readerInvariant.dispatchReaders hs }

/-- The queue of `t` is represented, and holds the pipe in hand if that is
    open. -/
def InHand (id : Nat) (x : LinkedTask) (t : MsTask) (closed : Bool) : Prop :=
  x.Represents t ∧ (closed = false → id ∈ t.pipes)

/-- The two tasks answer an open pipe alike. -/
theorem linkedOwner_follows :
    (linkedOwner w react id).Follows (taskOwner w react id) (InHand id) where
  filesize x t closed h := by
    show x.rest.storage.filesize = t.storage.filesize
    rw [h.1.rest]
  call x t p c h := by
    obtain ⟨h, hin⟩ := h
    have hid := hin rfl
    have haborted : x.rest.aborted = t.aborted := by rw [h.rest]
    simp only [linkedOwner, taskOwner, haborted]
    split
    · exact ⟨rfl, h, fun _ => hid⟩
    · have hset : (x.within fun t => t.setPipe id p).Represents (t.setPipe id p) :=
        h.within (f := fun t => t.setPipe id p) ⟨fun _ _ => rfl, fun _ => rfl⟩
      have hcalled : (LinkedTask.callback w react (x.within fun t => t.setPipe id p)
          id c).Represents ((t.setPipe id p).callback w react id c) := hset.callback hid c
      have hheld : Held id ((t.setPipe id p).callback w react id c) :=
        Held.callback (t := t.setPipe id p) ⟨h.known id hid, Or.inl hid⟩ c
      have hflag : ((LinkedTask.callback w react (x.within fun t => t.setPipe id p)
          id c).rest.pipeOf id).closing =
            (((t.setPipe id p).callback w react id c).pipeOf id).closing := by rw [hcalled.rest]
      refine ⟨hflag, hcalled, fun hopen => hheld.held.resolve_right fun hclosing => ?_⟩
      exact Bool.false_ne_true (hopen.symm.trans (hflag.trans hclosing))

/-! ## Runs -/

theorem Represents.pipeStep (h : x.Represents t) (hq : t.QueueOpen 0 (fun _ => False) none)
    (hid : id < t.opened) {ev : PipeEvent}
    (hlast : EventClosesLast (linkedOwner w react id) x (x.rest.pipeOf id) ev) :
    (x.pipeStep w id ev react).Represents (t.pipeStep w id ev react) := by
  have hpipe : x.rest.pipeOf id = t.pipeOf id := by rw [h.rest]
  have hhand : InHand id x t (t.pipeOf id).closing :=
    ⟨h, (hq.isOpen id hid (Option.some_ne_none id).symm).mpr⟩
  rw [hpipe] at hlast
  obtain ⟨hsame, hafter, -⟩ := pipeHandler_follows linkedOwner_follows hhand hlast
  unfold LinkedTask.pipeStep MsTask.pipeStep
  rw [hpipe]
  dsimp only
  rw [← hsame]
  exact hafter.within (f := fun s => { s.setPipe id (pipeHandler (linkedOwner w react id) ev
    (x, t.pipeOf id)).2 with aborted := s.aborted || (pipeHandler (linkedOwner w react id) ev
      (x, t.pipeOf id)).2.aborted }) ⟨fun _ _ => rfl, fun _ => rfl⟩

/-- **Step lemma.** -/
theorem Represents.step (h : x.Represents t) (hq : t.QueueOpen 0 (fun _ => False) none)
    {e : TaskEvent} (hlast : x.ClosesLast w e) : (x.step w e).Represents (t.step w e) := by
  have haborted : x.rest.aborted = t.aborted := by rw [h.rest]
  have hreaders : x.rest.readers = t.readers := by rw [h.rest]
  have hopened : x.rest.opened = t.opened := by rw [h.rest]
  have hpipes : x.rest.pipeOf = t.pipeOf := by rw [h.rest]
  unfold LinkedTask.step MsTask.step
  rw [haborted]
  split
  · exact h
  · cases e with
    | addReader r =>
      dsimp only
      rw [hreaders]
      split
      · exact h
      · exact h.addReader r
    | removeReader id => exact h.removeReader id
    | reader id act =>
      dsimp only
      rw [hreaders]
      split
      · exact h.readerAct id act
      · exact h
    | pipe id ev react =>
      dsimp only
      rw [hopened, hpipes]
      split
      · rename_i hin
        exact h.pipeStep hq hin.1 hlast
      · exact h

theorem linkedTaskOpen_represents (url : List Char) :
    (linkedTaskOpen url).Represents (msTaskOpen url) where
  rest := rfl
  ring := Links.isRing_init _ none
  known _ hid := absurd hid List.not_mem_nil

/-- **Run lemma.** -/
theorem run_represents (url : List Char) {es : List TaskEvent}
    (hes : Along (LinkedTask.step w) (LinkedTask.ClosesLast w) (linkedTaskOpen url) es) :
    (run (LinkedTask.step w) (linkedTaskOpen url) es).Represents
      (run (MsTask.step w) (msTaskOpen url) es) := by
  have hstep : ∀ (x : LinkedTask) (t : MsTask) (e : TaskEvent),
      x.Represents t ∧ t.QueueOpen 0 (fun _ => False) none → x.ClosesLast w e →
        (x.step w e).Represents (t.step w e) ∧
          (t.step w e).QueueOpen 0 (fun _ => False) none :=
    fun _ _ e hs hok => ⟨hs.1.step hs.2 hok, step_queueOpen hs.2 e⟩
  have hboth := run_simulates (f := fun e => e) hstep
    ⟨linkedTaskOpen_represents url, msTaskOpen_queueOpen url⟩ hes
  rw [List.map_id'] at hboth
  exact hboth.1

/-! ## `task_close` -/

/-- What the loop of `task_close` does to the list. -/
def closeListed (t : MsTask) : Option Nat → MsTask
  | none => t
  | some id => t.closePipe id

theorem Represents.taskClose (h : x.Represents t) : x.taskClose.Represents t.taskClose := by
  have hreaders : x.rest.readers = t.readers := by rw [h.rest]
  unfold LinkedTask.taskClose MsTask.taskClose
  rw [hreaders]
  split
  · have hbody : ∀ q behind y s, Queued (q :: behind) y s →
        Queued behind (y.closeNode q) (closeListed s q) := by
      intro q behind y s hq
      cases q with
      | none => exact absurd rfl (hq.ring.ne_head List.mem_cons_self)
      | some id =>
        have hall : Queued ([] ++ some id :: behind) y s := hq
        exact hall.closePipe
    have hlength : (t.pipes.map some).length ≤ x.rest.opened := by
      rw [List.length_map, h.rest]
      exact h.length_le
    have hdrained := drain_simulates (R := Queued) (fun _ _ _ hq => hq.ring) hbody ⟨h, rfl⟩
      hlength
    rw [List.foldl_map] at hdrained
    exact hdrained.1
  · exact h.abort

end represents

/-- **The queue of pointers is a list.** In every run of a task whose chunks
    close a pipe in no callback but the last, the pointers of the queue form
    a ring, and the task does what the task with a list does. So does
    `task_close` behind the run. -/
theorem linked_queue_refines (w : IntArith) (url : List Char) (es : List TaskEvent)
    (hes : Along (LinkedTask.step w) (LinkedTask.ClosesLast w) (linkedTaskOpen url) es) :
    let x := run (LinkedTask.step w) (linkedTaskOpen url) es
    let t := run (MsTask.step w) (msTaskOpen url) es
    x.links.IsRing none (t.pipes.map some) ∧ x.view = t ∧
      x.taskClose.links.IsRing none (t.taskClose.pipes.map some) ∧
      x.taskClose.view = t.taskClose :=
  have h := run_represents url hes
  ⟨h.ring, h.view, h.taskClose.ring, h.taskClose.view⟩

/-- A reader gets the whole file of two bytes, and goes. -/
def served : List TaskEvent :=
  [.addReader ⟨0, 0, 0⟩, .pipe 0 (.httpChunk (answer 0 1 2 [7, 8])) (fun _ _ _ => []),
    .removeReader 0]

theorem served_closesLast :
    Along (LinkedTask.step exactInt) (LinkedTask.ClosesLast exactInt) (linkedTaskOpen ['u'])
      served :=
  ⟨trivial, by decide +kernel, trivial, trivial⟩

theorem linked_queue_refines_served :
    let x := run (LinkedTask.step exactInt) (linkedTaskOpen ['u']) served
    let t := run (MsTask.step exactInt) (msTaskOpen ['u']) served
    x.links.IsRing none (t.pipes.map some) ∧ x.view = t ∧
      x.taskClose.links.IsRing none (t.taskClose.pipes.map some) ∧
      x.taskClose.view = t.taskClose :=
  linked_queue_refines exactInt ['u'] served served_closesLast

/-- A pipe runs into another one in the middle of a chunk. It is taken out,
    and taken out again for the rest of the chunk; by then a pipe has been
    linked in behind it. -/
def overrun : List TaskEvent :=
  [.addReader ⟨0, 16384, 0⟩, .addReader ⟨1, 0, 0⟩,
    .pipe 1 (.httpChunk (answer 0 49151 49152 [1])) (fun _ _ _ => []),
    .pipe 1 (.httpChunk (answer 0 49151 49152 (List.replicate 32767 2)))
      (fun _ id _ => if id = 0 then [.read 16384 1] else [])]

/-- The second `QUEUE_REMOVE` takes the new pipe with it: it is open, but the
    task does not know it any more. -/
theorem overrun_loses_pipe :
    let x := run (LinkedTask.step exactInt) (linkedTaskOpen ['u']) overrun
    x.rest.opened = 3 ∧ (x.rest.pipeOf 2).closing = false ∧ x.queue = [0] := by
  decide +kernel

/-- **A closed task is left alone.** In such a run the queue holds exactly
    the pipes that are not closing. So once the last reader of the task has
    left and `task_close` has freed it, no event of any of its pipes makes a
    callback, whatever would answer it. -/
theorem closed_task_left_alone (w : IntArith) (url : List Char) (es : List TaskEvent)
    (hes : Along (LinkedTask.step w) (LinkedTask.ClosesLast w) (linkedTaskOpen url) es)
    {σ : Type*} (o : PipeOwner σ) (s : σ) :
    let x := run (LinkedTask.step w) (linkedTaskOpen url) es
    ∀ id < x.rest.opened, (id ∈ x.queue ↔ (x.rest.pipeOf id).closing = false) ∧
      (x.rest.readers = [] → ∀ evs : List PipeEvent,
        (evs.foldl (fun y ev => pipeHandler o ev y) (s, x.taskClose.rest.pipeOf id)).1 = s) := by
  have h := run_represents url hes
  have hq := run_queueOpen w url es
  generalize run (LinkedTask.step w) (linkedTaskOpen url) es = x at h
  generalize run (MsTask.step w) (msTaskOpen url) es = t at h hq
  intro x id hid
  have hqueue : x.queue = t.pipes := congrArg MsTask.pipes h.view
  have hopened : x.rest.opened = t.opened := by rw [h.rest]
  have hpipe : x.rest.pipeOf id = t.pipeOf id := by rw [h.rest]
  have hreaders : x.rest.readers = t.readers := by rw [h.rest]
  rw [hopened] at hid
  refine ⟨?_, fun hleft evs => ?_⟩
  · rw [hqueue, hpipe]
    exact hq.isOpen id hid (Option.some_ne_none id).symm
  · rw [hreaders] at hleft
    have hclosed : (x.taskClose.rest.pipeOf id).closing = true := by
      rw [h.taskClose.rest]
      exact taskClose_closing hq hleft hid
    exact pipeHandlers_of_closing o evs hclosed

/-- An owner that counts the callbacks made to it. -/
def counting : PipeOwner Nat := ⟨fun _ => 0, fun n _ _ => (n + 1, false)⟩

/-- A chunk and the end of the connection come after the last reader has
    left. -/
theorem closed_task_left_alone_served :
    let x := run (LinkedTask.step exactInt) (linkedTaskOpen ['u']) served
    (0 ∈ x.queue ↔ (x.rest.pipeOf 0).closing = false) ∧
      ([PipeEvent.httpChunk (answer 0 1 2 [7, 8]), .close].foldl
        (fun y ev => pipeHandler counting ev y) (0, x.taskClose.rest.pipeOf 0)).1 = 0 := by
  intro x
  have h := closed_task_left_alone exactInt ['u'] served served_closesLast counting 0 0
    (by decide +kernel)
  exact ⟨h.1, h.2 (by decide +kernel) _⟩

end LinkedTask

end Libms
