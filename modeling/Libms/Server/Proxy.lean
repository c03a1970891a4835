import Mathlib
import Libms.Server.Registry

/-! # The server with its tasks

    `MsServer.step` leaves open what a session sees of its task, and takes
    the callbacks of a task as events of their own. Here both are closed: a
    session reads the task it is in, and an event of a pipe goes through the
    task to each of its readers.

    * `viewOf`: the task as its sessions see it.
    * `callReaders`, `proxyCallback`: a callback of a pipe, with the sessions.
    * `Proxy`: the server, and what was asked for on each connection.
    * `Proxy.step`: one event.

    What a reader does to the pipes of its task is still given by the event. -/

namespace Libms

open Text

/-! ## What sessions see -/

/-- `ms_itask` as a session sees it. -/
def MsTask.view (t : MsTask) : TaskView := TaskView.ofStorage t.storage t.contentType t.code

/-- `on_close` up to its readers. -/
def MsTask.closeWith (t : MsTask) (id : Nat) (code : Int) : MsTask :=
  { t with code := if code ≠ 0 then code else t.code }.closePipe id

namespace MsServer

/-- The task at an address. -/
def taskAt (id : Nat) (x : MsServer) : Option MsTask :=
  (x.tasks.find? fun t => t.id = id).map ServerTask.task

/-- The task at an address, as a session sees it. Where there is none nothing
    can be read. -/
def viewOf (id : Nat) (x : MsServer) : TaskView :=
  match x.taskAt id with
  | some t => t.view
  | none => ⟨0, [], 0, fun _ _ => none⟩

/-! ## Callbacks -/

/-- What the readers do to the task in a callback, by their addresses and in
    the state they are called in. -/
abbrev ProxyReact : Type := PipeCall → Nat → MsServer → List MsTask.ReaderAct

/-- A reader is called. If it is a session, this handles the callback; a
    preloader has nothing to do. -/
def callReader (w : IntArith) (limit : Nat) (call : ReaderCall) (acts : List MsTask.ReaderAct)
    (id : Nat) (x : MsServer) : MsServer :=
  if x.aborted then x
  else
    match x.sessions.find? fun s => s.id = id with
    | none => x
    | some s =>
      x.callback w limit s.connection call ⟨0, fun _ => 0, x.viewOf s.task, acts, []⟩

/-- The readers of a task are called one after the other. -/
def callReaders (w : IntArith) (limit task : Nat) (call : ReaderCall) (react : ProxyReact)
    (c : PipeCall) (x : MsServer) : MsServer :=
  match x.taskAt task with
  | none => x
  | some t =>
    (t.readers.map Reader.id).foldl (fun x id => x.callReader w limit call (react c id x) id) x

/-- A callback of pipe `id` of a task. The task does its own part before its
    readers are called; of `on_filesize` they take no notice. -/
def proxyCallback (w : IntArith) (limit task id : Nat) (react : ProxyReact) (x : MsServer)
    (c : PipeCall) : MsServer :=
  match c with
  | .onHeader hm => x.updateTask task fun t => t.onHeader hm
  | .onFilesize filesize => x.updateTask task fun t => t.setFilesize filesize
  | .onContentSize pos size =>
    let x := x.updateTask task fun t =>
      if (t.pipeOf id).reqLen = 0 then t.setFilesize (pos + size) else t.setContentSize pos size
    x.callReaders w limit task .onContentSize react c
  | .onRecv buf pos =>
    let x := x.updateTask task fun t => t.recvStore w buf pos
    let x := x.callReaders w limit task .onRecv react c
    if x.aborted then x else x.updateTask task fun t => t.dispatchPipe id
  | .onRedirect location => x.updateTask task fun t => t.onRedirect location
  | .onComplete => x.updateTask task fun t => t.onPipeComplete w id
  | .onClose code =>
    let x := x.updateTask task fun t => t.closeWith id code
    if (x.viewOf task).errno = 0 then x else x.callReaders w limit task .onError react c

/-- The server behind the callbacks of pipe `id` of a task. -/
def serverOwner (w : IntArith) (limit task id : Nat) (react : ProxyReact) :
    PipeOwner MsServer where
  getFilesize x := (x.viewOf task).filesize
  call x p c :=
    if x.aborted then (x, false)
    else
      let x := (x.updateTask task fun t => t.setPipe id p).proxyCallback w limit task id react c
      (x, (x.taskAt task).any fun t => (t.pipeOf id).closing)

/-- An event of the connection of pipe `id` of a task. A freed pipe has none. -/
def proxyPipe (w : IntArith) (limit task id : Nat) (ev : PipeEvent) (react : ProxyReact)
    (x : MsServer) : MsServer :=
  match x.taskAt task with
  | none => x
  | some t =>
    if id < t.opened ∧ (t.pipeOf id).freed = 0 then
      let y := pipeHandler (serverOwner w limit task id react) ev (x, t.pipeOf id)
      y.1.updateTask task fun t =>
        { t.setPipe id y.2 with aborted := t.aborted || y.2.aborted }
    else x

end MsServer

/-! ## The system -/

/-- What an event finds outside: `mg_time`, what a session does to the pipes
    of its task, and what Mongoose replies itself. -/
structure Outside where
  now : ℚ
  clock : Nat → ℚ
  acts : List MsTask.ReaderAct
  reply : List UInt8

/-- With what the session sees of its task. -/
def Outside.ambient (o : Outside) (v : TaskView) : Ambient :=
  ⟨o.now, o.clock, v, o.acts, o.reply⟩

@[simp] theorem Outside.ambient_now (o : Outside) (v : TaskView) : (o.ambient v).now = o.now := rfl

@[simp] theorem Outside.ambient_clock (o : Outside) (v : TaskView) :
    (o.ambient v).clock = o.clock := rfl

@[simp] theorem Outside.ambient_view (o : Outside) (v : TaskView) : (o.ambient v).view = v := rfl

/-- The url and the range of a stream request. -/
structure Asked where
  url : List Char
  r1 : Int
  r2 : Int
  deriving DecidableEq

/-- The server, with the last stream request of each connection. -/
structure Proxy where
  server : MsServer
  asked : Nat → Option Asked

/-- What happens to the server: an event of a client's connection, one of a
    pipe of a task, a call of the application, or the clean-up as it stops. -/
inductive ProxyEvent where
  | request (nc : Nat) (hm : HttpRequest) (o : Outside)
  | send (nc n : Nat) (o : Outside)
  | close (nc : Nat) (o : Outside)
  | pipe (task id : Nat) (ev : PipeEvent) (react : MsServer.ProxyReact)
  | generate (url : List Char)
  | remove (id : Int)
  | stop (o : Outside)

namespace Proxy

/-- The request is for `ms_stream_handler`. -/
def streams (hm : HttpRequest) : Bool := MsServer.hasPrefix hm.uri "/stream/".toList

/-- The task that a stream request finds or makes, as its session sees it. -/
def requestView (nc : Nat) (hm : HttpRequest) (o : Outside) (x : MsServer) : TaskView :=
  let found := (x.dropSession o.now nc).findOrCreateTask o.clock (x.streamUrl hm)
  found.1.viewOf found.2

/-- The task of the session on a connection. -/
def sessionView (nc : Nat) (x : MsServer) : TaskView :=
  match x.findSession nc with
  | some s => x.viewOf s.task
  | none => ⟨0, [], 0, fun _ _ => none⟩

/-- What a stream request asks for. -/
def askedBy (hm : HttpRequest) (x : MsServer) : Option Asked :=
  (requestedRange hm.rangeHdr).map fun r => ⟨x.streamUrl hm, r.1, r.2⟩

/-- `init_media_server` -/
def init : Proxy := ⟨initMediaServer, fun _ => none⟩

/-- One event. -/
def step (w : IntArith) (limit : Nat) (p : Proxy) (event : ProxyEvent) : Proxy :=
  if p.server.aborted then p
  else
    match event with
    | .request nc hm o =>
      { server := p.server.requestHandler w limit nc hm (o.ambient (requestView nc hm o p.server))
        asked := if streams hm then Function.update p.asked nc (askedBy hm p.server) else p.asked }
    | .send nc n o =>
      { p with server := p.server.sendHandler w limit nc n (o.ambient (sessionView nc p.server)) }
    | .close nc o =>
      { server := p.server.closeHandler nc (o.ambient (sessionView nc p.server))
        asked := Function.update p.asked nc none }
    | .pipe task id ev react => { p with server := p.server.proxyPipe w limit task id ev react }
    | .generate url => { p with server := p.server.generateResource url }
    | .remove id => { p with server := p.server.removeResource id }
    | .stop o => { p with server := p.server.removeTaskIfNeed o.clock 0 }

end Proxy

end Libms
