import Mathlib
import Libms.Framework.Nearest
import Libms.Framework.Runs
import Libms.Pipe.HttpPipe

/-! # The task

    `ms_task.c`: a resource, the readers that want bytes of it, and the pipes
    that fetch them into the storage.

    * `dispatchReader` opens a pipe for a reader that has none to wait for.
    * `dispatchPipe` closes a pipe that serves no reader of its own.
    * `TaskCall` handlers (`onFilesize`, `onRecv`, ...) are what a pipe calls
      back; `taskOwner` puts them behind the callbacks of `pipe_handler`.
    * `step`: one event of a task. A pipe stays known after it left the
      queue, since its connection still has events.

    A reader is the code of a session. All that a task sees of it is its
    offset, and the `task->read` calls it makes from its callbacks: these are
    given by the event (`React`). A node that is removed from a queue it is
    not in is read as left alone. -/

namespace Libms

open Nearest Runs

/-! ## Readers and pipes -/

/-- The part of `struct ms_ireader` that a task reads; `id` is its address. -/
structure Reader where
  id : Nat
  pos : Nat
  sending : Nat
  deriving DecidableEq

/-- `reader->pos + reader->sending`: the next byte the reader asks for. -/
def Reader.next (r : Reader) : Nat := r.pos + r.sending

/-- A call of `set_filesize`: the size before it, and its argument. -/
structure SizeCall where
  before : Int
  filesize : Int
  deriving DecidableEq

/-- `struct ms_task` over the memory storage, with the pipes it has opened
    (`pipes` is the queue, an id is an address) and the `set_filesize` calls
    it has made. -/
structure MsTask where
  url : List Char
  redirectUrl : List Char
  contentType : List Char
  storage : MemStorage
  readers : List Reader
  pipes : List Nat
  pipeOf : Nat → HttpPipe
  opened : Nat
  code : Int
  sizeCalls : List SizeCall
  aborted : Bool

/-- `ms_task_open` -/
def msTaskOpen (url : List Char) : MsTask where
  url := url
  redirectUrl := []
  contentType := []
  storage := msMemStorageOpen
  readers := []
  pipes := []
  pipeOf := fun _ => msHttpPipeCreate [] 0 0
  opened := 0
  code := 0
  sizeCalls := []
  aborted := false

namespace MsTask

/-- A failed assert. -/
def abort (t : MsTask) : MsTask := { t with aborted := true }

/-- The pipe behind an id changes. -/
def setPipe (t : MsTask) (id : Nat) (p : HttpPipe) : MsTask :=
  { t with pipeOf := Function.update t.pipeOf id p }

/-- `pipe->get_current_pos` -/
def currentPos (t : MsTask) (id : Nat) : Nat := (t.pipeOf id).pos

/-- `nearest_pipe` -/
def nearestPipe (t : MsTask) (pos direction : Int) : Option Nat :=
  nearest (fun id => (t.currentPos id : Int)) direction pos t.pipes

/-- `nearest_reader` -/
def nearestReader (t : MsTask) (pos direction : Int) : Option Reader :=
  nearest (fun r => (r.next : Int)) direction pos t.readers

/-- `QUEUE_REMOVE(&pipe->node)` and `pipe->close` -/
def closePipe (t : MsTask) (id : Nat) : MsTask :=
  { t.setPipe id (t.pipeOf id).pipeClose with pipes := t.pipes.filter (· ≠ id) }

/-! ## `dispatch_reader` -/

/-- `create_pipe_for` -/
def createPipeFor (t : MsTask) (pos : Nat) (len : Int) : MsTask :=
  if t.code ≠ 0 then t
  else
    -- once a pipe was redirected, the next ones start from there
    let url := if 0 < t.redirectUrl.length then t.redirectUrl else t.url
    { t.setPipe t.opened (msHttpPipeCreate url pos len).pipeConnect with
      pipes := t.pipes ++ [t.opened]
      opened := t.opened + 1 }

/-- What a reader needs: nothing, or the bytes up to `stop` from the piece
    at `pos` on. -/
inductive Wanted where
  | abort
  | covered
  | range (pos : Nat) (stop : Int)

/-- The bytes up to `stop` from `pos` on, in whole pieces. -/
def wantedFrom (pos stop : Int) : Wanted :=
  if 0 < pos ∧ pos = stop then .covered
  else .range (pos - pos % msPieceUnitSize).toNat stop

/-- The first part of `dispatch_reader`: the range that follows what is
    cached at the reader's offset. -/
def wantedRange (w : IntArith) (t : MsTask) (r : Reader) : Wanted :=
  let pos : Int := r.next
  -- the estimate is zero while nothing is known, and then so is the stop
  let stop :=
    if pos + maxCacheLen > t.storage.estimateSize then t.storage.estimateSize
    else pos + maxCacheLen
  if 0 < t.storage.estimateSize then
    match t.storage.cachedFrom w pos with
    | none => .abort
    | some (cachedNextPos, cachedNextLen) =>
      if cachedNextPos = pos ∧ maxCacheLen / 2 ≤ cachedNextLen then .covered
      -- less than half of a cache length is there: go on behind it
      else if cachedNextPos = pos ∧ 0 < cachedNextLen then wantedFrom (pos + cachedNextLen) stop
      else wantedFrom pos stop
  else wantedFrom pos stop

/-- How `dispatch_reader` ends. -/
inductive Dispatch where
  | abort
  | done
  | openPipe (pos : Nat) (len : Int)

/-- The decision of `dispatch_reader`. -/
def dispatchOf (w : IntArith) (t : MsTask) (r : Reader) : Dispatch :=
  match t.wantedRange w r with
  | .abort => .abort
  | .covered => .done
  | .range pos stop =>
    if (t.nearestPipe pos 1).any fun id => (t.currentPos id : Int) = pos then .done
    else if stop ≤ pos ∧ stop ≠ 0 then .done
    else .openPipe pos (if 0 < stop then stop - pos else 0)

/-- `dispatch_reader` -/
def dispatchReader (w : IntArith) (t : MsTask) (r : Reader) : MsTask :=
  if t.aborted then t
  else
    match t.dispatchOf w r with
    | .abort => t.abort
    | .done => t
    | .openPipe pos len => t.createPipeFor pos len

/-- `dispatch_reader` for each reader of the queue. -/
def dispatchReaders (w : IntArith) (t : MsTask) : MsTask :=
  t.readers.foldl (dispatchReader w) t

/-! ## `dispatch_pipe` -/

/-- Another pipe of the queue stands where this one does. -/
def twin (t : MsTask) (id : Nat) : Bool :=
  t.pipes.any fun other => other ≠ id && t.currentPos other = t.currentPos id

/-- The nearest pipe before this one stands at or behind the reader. -/
def shadowed (t : MsTask) (r : Reader) (id : Nat) : Bool :=
  0 < t.currentPos id &&
    (t.nearestPipe (t.currentPos id - 1) (-1)).any fun near => r.next ≤ t.currentPos near

/-- `dispatch_pipe`: the pipe is closed for one of four reasons. -/
def dispatchPipe (t : MsTask) (id : Nat) : MsTask :=
  if t.twin id then t.closePipe id
  else
    match t.nearestReader (t.currentPos id) (-1) with
    | none => t.closePipe id
    | some r =>
      if r.next + maxCacheLen ≤ t.currentPos id then t.closePipe id
      else if t.shadowed r id then t.closePipe id
      else t

/-! ## The interface of the readers -/

/-- `add_reader` -/
def addReader (w : IntArith) (t : MsTask) (r : Reader) : MsTask :=
  dispatchReader w { t with readers := t.readers ++ [r] } r

/-- `task_read`: what is read, `none` when an assert fails. -/
def taskRead (w : IntArith) (t : MsTask) (pos : Int) (len : Nat) :
    MsTask × Option (List (Option UInt8)) :=
  let t := t.dispatchReaders w
  match t.storage.storageRead pos len with
  | none => (t.abort, none)
  | some bytes => (t, some bytes)

/-- `remove_reader` -/
def removeReader (t : MsTask) (id : Nat) : MsTask :=
  t.pipes.foldl dispatchPipe { t with readers := t.readers.filter fun r => r.id ≠ id }

/-! ## What readers do -/

/-- An act of a reader that the task notices: its offset changes, or it
    calls `task->read`. -/
inductive ReaderAct where
  | move (pos sending : Nat)
  | read (pos : Int) (len : Nat)

/-- What each reader does in a callback made in a state of the task. -/
abbrev React : Type := PipeCall → Nat → MsTask → List ReaderAct

/-- A reader acts. -/
def readerAct (w : IntArith) (id : Nat) (t : MsTask) (act : ReaderAct) : MsTask :=
  if t.aborted then t
  else
    match act with
    | .move pos sending =>
      { t with
        readers := t.readers.map fun r =>
          if r.id = id then { r with pos := pos, sending := sending } else r }
    | .read pos len => (t.taskRead w pos len).1

/-- The callback of each reader of the queue. -/
def notify (w : IntArith) (react : React) (c : PipeCall) (t : MsTask) : MsTask :=
  (t.readers.map Reader.id).foldl
    (fun t id => (react c id t).foldl (readerAct w id) t) t

/-! ## The callbacks of the pipes -/

/-- `storage->set_filesize` -/
def setFilesize (t : MsTask) (filesize : Int) : MsTask :=
  let t : MsTask := { t with sizeCalls := t.sizeCalls ++ [⟨t.storage.filesize, filesize⟩] }
  match t.storage.setFilesize filesize with
  | none => t.abort
  | some st => { t with storage := st }

/-- `storage->set_content_size` -/
def setContentSize (t : MsTask) (pos size : Int) : MsTask :=
  match t.storage.setContentSize pos size with
  | none => t.abort
  | some st => { t with storage := st }

/-- `on_header`; the type is asserted to be there. -/
def onHeader (t : MsTask) (hm : HttpMessage) : MsTask :=
  match mgGetHttpHeader hm "Content-Type" with
  | none => t.abort
  | some type => { t with contentType := type }

/-- The positions that `on_recv` passes to `clear_buffer_for`: an array of
    zeros with one entry for each reader, whose `index` stays zero. -/
def holdPositions (t : MsTask) : List Int :=
  t.readers.foldl (fun holdPos r => holdPos.set 0 (r.next : Int))
    (List.replicate t.readers.length 0)

/-- The `clear_buffer_for` step of `on_recv`. -/
def recvCleared (w : IntArith) (t : MsTask) (pos : Nat) (len : Nat) : MemStorage :=
  t.storage.clearBufferFor w t.holdPositions pos len

/-- `on_recv` up to the `write`: room is made and the data is stored. -/
def recvStore (w : IntArith) (t : MsTask) (buf : List UInt8) (pos : Nat) : MsTask :=
  -- what `write` takes is asserted to be all of it
  match (t.recvCleared w pos buf.length).storageWrite buf pos with
  | none => t.abort
  | some (st, write) =>
    if write = buf.length then { t with storage := st } else { t with storage := st }.abort

/-- `on_recv` -/
def onRecv (w : IntArith) (react : React) (t : MsTask) (id : Nat) (buf : List UInt8) (pos : Nat) :
    MsTask :=
  let t := t.recvStore w buf pos
  let t := if t.aborted then t else t.notify w react (.onRecv buf pos)
  if t.aborted then t else t.dispatchPipe id

/-- `on_filesize` -/
def onFilesize (w : IntArith) (react : React) (t : MsTask) (filesize : Int) : MsTask :=
  let t := t.setFilesize filesize
  if t.aborted then t else t.notify w react (.onFilesize filesize)

/-- `on_content_size` -/
def onContentSize (w : IntArith) (react : React) (t : MsTask) (id : Nat) (pos : Nat) (size : Int) :
    MsTask :=
  let t :=
    -- the end of an open-ended answer is taken for the end of the file
    if (t.pipeOf id).reqLen = 0 then t.setFilesize (pos + size) else t.setContentSize pos size
  if t.aborted then t else t.notify w react (.onContentSize pos size)

/-- `on_redirect` -/
def onRedirect (t : MsTask) (location : List Char) : MsTask :=
  { t with redirectUrl := location }

/-- `on_pipe_complete` -/
def onPipeComplete (w : IntArith) (t : MsTask) (id : Nat) : MsTask :=
  (t.closePipe id).dispatchReaders w

/-- `on_close` -/
def onClose (w : IntArith) (react : React) (t : MsTask) (id : Nat) (code : Int) : MsTask :=
  -- a close without an error keeps an earlier one
  let t := { t with code := if code ≠ 0 then code else t.code }.closePipe id
  if t.code = 0 then t else t.notify w react (.onClose code)

/-- The callback a pipe makes. -/
def callback (w : IntArith) (react : React) (t : MsTask) (id : Nat) : PipeCall → MsTask
  | .onHeader hm => t.onHeader hm
  | .onFilesize filesize => t.onFilesize w react filesize
  | .onContentSize pos size => t.onContentSize w react id pos size
  | .onRecv buf pos => t.onRecv w react id buf pos
  | .onRedirect location => t.onRedirect location
  | .onComplete => t.onPipeComplete w id
  | .onClose code => t.onClose w react id code

/-- The task behind the callbacks of pipe `id`. The pipe is in the hands of
    its handler, so it is put back before the task looks at it. -/
def taskOwner (w : IntArith) (react : React) (id : Nat) : PipeOwner MsTask where
  getFilesize t := t.storage.filesize
  call t p c :=
    if t.aborted then (t, false)
    else
      let t := (t.setPipe id p).callback w react id c
      (t, (t.pipeOf id).closing)

/-! ## The system -/

/-- An event of a task: a request or the end of a session, an act of a
    reader outside of callbacks, or an event of a pipe's connection. -/
inductive TaskEvent where
  | addReader (r : Reader)
  | removeReader (id : Nat)
  | reader (id : Nat) (act : ReaderAct)
  | pipe (id : Nat) (ev : PipeEvent) (react : React)

/-- An event of the connection of pipe `id`. -/
def pipeStep (w : IntArith) (t : MsTask) (id : Nat) (ev : PipeEvent) (react : React) : MsTask :=
  let x := pipeHandler (taskOwner w react id) ev (t, t.pipeOf id)
  { x.1.setPipe id x.2 with aborted := x.1.aborted || x.2.aborted }

/-- One event. A freed pipe has no more events, and an added reader is new. -/
def step (w : IntArith) (t : MsTask) (e : TaskEvent) : MsTask :=
  if t.aborted then t
  else
    match e with
    | .addReader r => if r.id ∈ t.readers.map Reader.id then t else t.addReader w r
    | .removeReader id => t.removeReader id
    | .reader id act => if id ∈ t.readers.map Reader.id then readerAct w id t act else t
    | .pipe id ev react =>
      if id < t.opened ∧ (t.pipeOf id).freed = 0 then t.pipeStep w id ev react else t

/-- A state of the task of some url. -/
def Reachable (w : IntArith) (t : MsTask) : Prop :=
  ∃ url es, run (step w) (msTaskOpen url) es = t

end MsTask

end Libms
