import Mathlib
import Libms.Framework.Ring
import Libms.Pipe.Follows
import Libms.Task.MsTask

/-! # The task with the pointers of its queue

    `MsTask` keeps the queue of its pipes as a list. Here it is what the macros
    of `queue.h` make of it: `t->pipes` is a head, each pipe has a node, and
    `QUEUE_REMOVE` writes through the pointers of the node that it is given,
    whether this node is linked in or not.

    * `LinkedTask`: a task with these pointers.
    * `queue`: the pipes that `QUEUE_FOREACH` visits; `view` is the task with
      this list for its queue.
    * The functions of `ms_task.c` once more. What does not touch the queue is
      taken over (`within`).

    The queue of the readers stays a list: a reader leaves it once, when its
    session is removed. -/

namespace Libms

open Ring Runs MsTask

/-- `struct ms_task`, with the memory of the nodes of `pipes`: the head is
    `none`, and `some id` is the node of pipe `id`. `rest` holds all that is
    not in the queue, and its own queue is empty. -/
structure LinkedTask where
  rest : MsTask
  links : Links (Option Nat)

namespace LinkedTask

/-- `ms_task_open` -/
def linkedTaskOpen (url : List Char) : LinkedTask where
  rest := msTaskOpen url
  links := Links.init ⟨fun q => q, fun q => q⟩ none

/-- The pipes of the queue. It cannot hold more than were opened. -/
def queue (x : LinkedTask) : List Nat := (x.links.nodes x.rest.opened none).filterMap id

/-- The task as its loops see it. -/
def view (x : LinkedTask) : MsTask := { x.rest with pipes := x.queue }

/-- Something changes that is not in the queue. -/
def within (x : LinkedTask) (f : MsTask → MsTask) : LinkedTask := { x with rest := f x.rest }

/-- `QUEUE_REMOVE(&pipe->node)` and `pipe->close` -/
def closePipe (x : LinkedTask) (id : Nat) : LinkedTask where
  rest := x.rest.setPipe id (x.rest.pipeOf id).pipeClose
  links := x.links.remove (some id)

/-- `create_pipe_for`, with the `QUEUE_INIT` of `ms_http_pipe_create`. -/
def createPipeFor (x : LinkedTask) (pos : Nat) (len : Int) : LinkedTask :=
  if x.rest.code ≠ 0 then x
  else
    let url := if 0 < x.rest.redirectUrl.length then x.rest.redirectUrl else x.rest.url
    let node := some x.rest.opened
    { rest := { x.rest.setPipe x.rest.opened (msHttpPipeCreate url pos len).pipeConnect with
        opened := x.rest.opened + 1 }
      links := (x.links.init node).insertTail none node }

/-- `dispatch_reader` -/
def dispatchReader (w : IntArith) (x : LinkedTask) (r : Reader) : LinkedTask :=
  if x.rest.aborted then x
  else
    match x.view.dispatchOf w r with
    | .abort => x.within abort
    | .done => x
    | .openPipe pos len => x.createPipeFor pos len

/-- `dispatch_reader` for each reader of the queue. -/
def dispatchReaders (w : IntArith) (x : LinkedTask) : LinkedTask :=
  x.rest.readers.foldl (dispatchReader w) x

/-- `dispatch_pipe` -/
def dispatchPipe (x : LinkedTask) (id : Nat) : LinkedTask :=
  if x.view.twin id then x.closePipe id
  else
    match x.view.nearestReader (x.view.currentPos id) (-1) with
    | none => x.closePipe id
    | some r =>
      if r.next + maxCacheLen ≤ x.view.currentPos id then x.closePipe id
      else if x.view.shadowed r id then x.closePipe id
      else x

/-! ## The interface of the readers -/

/-- `add_reader` -/
def addReader (w : IntArith) (x : LinkedTask) (r : Reader) : LinkedTask :=
  (x.within fun t => { t with readers := t.readers ++ [r] }).dispatchReader w r

/-- `task_read` -/
def taskRead (w : IntArith) (x : LinkedTask) (pos : Int) (len : Nat) :
    LinkedTask × Option (List (Option UInt8)) :=
  let x := x.dispatchReaders w
  match x.rest.storage.storageRead pos len with
  | none => (x.within abort, none)
  | some bytes => (x, some bytes)

/-- A node of the queue is dispatched. -/
def dispatchNode (x : LinkedTask) : Option Nat → LinkedTask
  | none => x
  | some id => x.dispatchPipe id

/-- `remove_reader`; its loop reads the next node before a pipe is looked at. -/
def removeReader (x : LinkedTask) (id : Nat) : LinkedTask :=
  let x := x.within fun t => { t with readers := t.readers.filter fun r => r.id ≠ id }
  sweep LinkedTask.links dispatchNode none x.rest.opened (x.links.next none) x

/-- A reader acts. -/
def readerAct (w : IntArith) (id : Nat) (x : LinkedTask) (act : ReaderAct) : LinkedTask :=
  if x.rest.aborted then x
  else
    match act with
    | .move pos sending =>
      x.within fun t => { t with
        readers := t.readers.map fun r =>
          if r.id = id then { r with pos := pos, sending := sending } else r }
    | .read pos len => (x.taskRead w pos len).1

/-- The callback of each reader of the queue. -/
def notify (w : IntArith) (react : React) (c : PipeCall) (x : LinkedTask) : LinkedTask :=
  (x.rest.readers.map Reader.id).foldl
    (fun x id => (react c id x.view).foldl (readerAct w id) x) x

/-! ## The callbacks of the pipes -/

/-- `on_recv` -/
def onRecv (w : IntArith) (react : React) (x : LinkedTask) (id : Nat) (buf : List UInt8)
    (pos : Nat) : LinkedTask :=
  let x := x.within fun t => t.recvStore w buf pos
  let x := if x.rest.aborted then x else x.notify w react (.onRecv buf pos)
  if x.rest.aborted then x else x.dispatchPipe id

/-- `on_filesize` -/
def onFilesize (w : IntArith) (react : React) (x : LinkedTask) (filesize : Int) : LinkedTask :=
  let x := x.within fun t => t.setFilesize filesize
  if x.rest.aborted then x else x.notify w react (.onFilesize filesize)

/-- `on_content_size` -/
def onContentSize (w : IntArith) (react : React) (x : LinkedTask) (id : Nat) (pos : Nat)
    (size : Int) : LinkedTask :=
  let x :=
    if (x.rest.pipeOf id).reqLen = 0 then x.within fun t => t.setFilesize (pos + size)
    else x.within fun t => t.setContentSize pos size
  if x.rest.aborted then x else x.notify w react (.onContentSize pos size)

/-- `on_pipe_complete` -/
def onPipeComplete (w : IntArith) (x : LinkedTask) (id : Nat) : LinkedTask :=
  (x.closePipe id).dispatchReaders w

/-- `on_close` -/
def onClose (w : IntArith) (react : React) (x : LinkedTask) (id : Nat) (code : Int) :
    LinkedTask :=
  let x := (x.within fun t => { t with code := if code ≠ 0 then code else t.code }).closePipe id
  if x.rest.code = 0 then x else x.notify w react (.onClose code)

/-- The callback a pipe makes. -/
def callback (w : IntArith) (react : React) (x : LinkedTask) (id : Nat) : PipeCall → LinkedTask
  | .onHeader hm => x.within fun t => t.onHeader hm
  | .onFilesize filesize => x.onFilesize w react filesize
  | .onContentSize pos size => x.onContentSize w react id pos size
  | .onRecv buf pos => x.onRecv w react id buf pos
  | .onRedirect location => x.within fun t => t.onRedirect location
  | .onComplete => x.onPipeComplete w id
  | .onClose code => x.onClose w react id code

/-- The task behind the callbacks of pipe `id`. -/
def linkedOwner (w : IntArith) (react : React) (id : Nat) : PipeOwner LinkedTask where
  getFilesize x := x.rest.storage.filesize
  call x p c :=
    if x.rest.aborted then (x, false)
    else
      let x := (x.within fun t => t.setPipe id p).callback w react id c
      (x, (x.rest.pipeOf id).closing)

/-! ## The system -/

/-- An event of the connection of pipe `id`. -/
def pipeStep (w : IntArith) (x : LinkedTask) (id : Nat) (ev : PipeEvent) (react : React) :
    LinkedTask :=
  let y := pipeHandler (linkedOwner w react id) ev (x, x.rest.pipeOf id)
  y.1.within fun t => { t.setPipe id y.2 with aborted := t.aborted || y.2.aborted }

/-- One event. -/
def step (w : IntArith) (x : LinkedTask) (e : TaskEvent) : LinkedTask :=
  if x.rest.aborted then x
  else
    match e with
    | .addReader r => if r.id ∈ x.rest.readers.map Reader.id then x else x.addReader w r
    | .removeReader id => x.removeReader id
    | .reader id act =>
      if id ∈ x.rest.readers.map Reader.id then x.readerAct w id act else x
    | .pipe id ev react =>
      if id < x.rest.opened ∧ (x.rest.pipeOf id).freed = 0 then x.pipeStep w id ev react else x

/-- A node of the queue is closed. -/
def closeNode (x : LinkedTask) : Option Nat → LinkedTask
  | none => x
  | some id => x.closePipe id

/-- `task_close`: while the queue is not empty, the pipe at its head is taken
    out and closed. What is freed after that is not of interest here. -/
def taskClose (x : LinkedTask) : LinkedTask :=
  if x.rest.readers = [] then drain LinkedTask.links closeNode none x.rest.opened x
  else x.within abort

/-- The condition on an event: the task closes a pipe in the last callback of
    a chunk, if it does. -/
def ClosesLast (w : IntArith) (x : LinkedTask) : TaskEvent → Prop
  | .pipe id ev react => EventClosesLast (linkedOwner w react id) x (x.rest.pipeOf id) ev
  | _ => True

instance (w : IntArith) (x : LinkedTask) : (e : TaskEvent) → Decidable (x.ClosesLast w e)
  | .pipe _ _ _ => inferInstanceAs (Decidable (EventClosesLast _ _ _ _))
  | .addReader _ => isTrue trivial
  | .removeReader _ => isTrue trivial
  | .reader _ _ => isTrue trivial

end LinkedTask

end Libms
