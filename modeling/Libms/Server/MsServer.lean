import Mathlib
import Libms.Framework.Buckets
import Libms.Session.OneResponse
import Libms.Task.MsTask

/-! # The server

    `ms_server.c`, `ms_stream_handler.c`, `ms_server_handler.c` and
    `ms_task_manager.c`: the lists of the server, and the handlers that enter
    and remove what is in them.

    * `findOrCreateTask`: the task of a url. A new one is made after idle
      tasks were closed.
    * `streamHandler`, `sendHandler`, `closeHandler`: the events of a client's
      connection. The session itself is a `Client`.
    * `taskHandler`: the API.
    * `step`: one event.

    Tasks, sessions and preloaders are known by their addresses, which are
    counted up here. A session and a preloader begin with their reader, so
    this has the same address. What a reader does to the pipes of its task,
    and what a session sees of its task, is given by the event, as in
    `MsTask` and `Client`. -/

namespace Libms

open Buckets CInt Text

/-! ## What the server lists -/

/-- `struct ms_task` in `server->tasks`. -/
structure ServerTask where
  id : Nat
  task : MsTask
  closeTs : ℚ

/-- `struct ms_session` in `server->sessions`. What it does is in the client
    of its connection. -/
structure SessionEntry where
  id : Nat
  connection : Nat
  task : Nat
  deriving DecidableEq

/-- `struct ms_preloader` in `server->preloaders`. -/
structure Preloader where
  id : Nat
  task : Nat
  deriving DecidableEq

/-- `struct ms_resource` in `server->resources`. -/
structure Resource where
  originUrl : List Char
  id : Int
  ref : Int
  deriving DecidableEq

/-- `struct ms_server`, with the clients by their connections, `s_base_url_id`,
    the next address, and the tasks whose `close` was called, as they were. -/
structure MsServer where
  tasks : List ServerTask
  sessions : List SessionEntry
  preloaders : List Preloader
  resources : List Resource
  clients : Nat → Client
  baseUrlId : Int
  next : Nat
  closed : List ServerTask
  aborted : Bool

/-- `init_media_server` -/
def initMediaServer : MsServer where
  tasks := []
  sessions := []
  preloaders := []
  resources := []
  clients := fun _ => acceptedClient
  baseUrlId := 0
  next := 0
  closed := []
  aborted := false

/-- The methods that the handlers tell apart. -/
inductive RequestMethod where
  | get
  | head
  | post
  | delete
  | other
  deriving DecidableEq

/-- The parts of `struct http_message` that the handlers read. `url` is the
    variable in the query string and `resourceId` the one in the body, as
    `mg_get_http_var` leaves them in their buffers. -/
structure HttpRequest where
  method : RequestMethod
  uri : List Char
  url : List Char
  resourceId : List Char
  rangeHdr : Option (List Char)

/-- What an event finds outside of the lists: `mg_time` as a reader is
    removed and as each task is looked at, what the session sees of its task,
    what it does to it, and what Mongoose itself replies. -/
structure Ambient where
  now : ℚ
  clock : Nat → ℚ
  view : TaskView
  acts : List MsTask.ReaderAct
  reply : List UInt8

namespace ServerTask

/-- `remove_reader` of the task, which keeps the time when it was left. -/
def removeReader (now : ℚ) (id : Nat) (t : ServerTask) : ServerTask :=
  let task := t.task.removeReader id
  { t with
    task := task
    closeTs := if task.readers.isEmpty then now else t.closeTs }

/-- The task has no readers, and had none for `ts` seconds. -/
def idle (clock : Nat → ℚ) (ts : ℚ) (t : ServerTask) : Bool :=
  t.task.readers.isEmpty && ts ≤ clock t.id - t.closeTs

end ServerTask

namespace MsServer

/-- A failed assert, or a null pointer that is read through. -/
def abort (x : MsServer) : MsServer := { x with aborted := true }

/-- The client of a connection changes. -/
def setClient (nc : Nat) (c : Client) (x : MsServer) : MsServer :=
  { x with
    clients := Function.update x.clients nc c
    aborted := x.aborted || c.fault.isSome }

/-- The task at an address changes. -/
def updateTask (id : Nat) (f : MsTask → MsTask) (x : MsServer) : MsServer :=
  let tasks := modify ServerTask.id id (fun t => { t with task := f t.task }) x.tasks
  { x with
    tasks := tasks
    aborted := x.aborted || tasks.any fun t => t.task.aborted }

/-- The reader at an address acts on its task. -/
def readerActs (w : IntArith) (task id : Nat) (e : Ambient) (x : MsServer) : MsServer :=
  x.updateTask task fun t => e.acts.foldl (MsTask.readerAct w id) t

/-! ## Resources -/

/-- `has_prefix` -/
def hasPrefix (uri start : List Char) : Bool := start.length < uri.length && start.isPrefixOf uri

/-- `atoi`, which is `strtol` cast to an `int`. -/
def atoi (t : List Char) : Int := toInt32 (strtoll t)

/-- `ms_find_resource` -/
def findResource (uri : List Char) (x : MsServer) : Option Resource :=
  x.resources.find? fun r => hasPrefix uri ("/stream/".toList ++ printInt r.id ++ ['/'])

/-- `ms_find_resource_by_id` -/
def findResourceById (id : Int) (x : MsServer) : Option Resource :=
  x.resources.find? fun r => r.id = id

/-- The first resource that is looked for changes, or goes. -/
def updateFirst (p : Resource → Bool) (f : Resource → Option Resource) :
    List Resource → List Resource
  | [] => []
  | r :: rs => if p r then (f r).toList ++ rs else r :: updateFirst p f rs

/-- `ms_generate_resource` -/
def generateResource (url : List Char) (x : MsServer) : MsServer :=
  if x.resources.any fun r => r.originUrl = url then
    { x with
      resources :=
        updateFirst (fun r => r.originUrl = url) (fun r => some { r with ref := r.ref + 1 })
          x.resources }
  else
    { x with
      resources := x.resources ++ [⟨url, x.baseUrlId + 1, 1⟩]
      baseUrlId := x.baseUrlId + 1 }

/-- `ms_remove_resource` -/
def removeResource (id : Int) (x : MsServer) : MsServer :=
  { x with
    resources :=
      updateFirst (fun r => r.id = id)
        (fun r => if r.ref - 1 = 0 then none else some { r with ref := r.ref - 1 })
        x.resources }

/-! ## Tasks -/

/-- `task->close`, which asserts that there are no readers. -/
def closeTask (x : MsServer) (t : ServerTask) : MsServer :=
  { x with
    tasks := x.tasks.filter fun t' => t'.id ≠ t.id
    closed := x.closed ++ [t]
    aborted := x.aborted || !t.task.readers.isEmpty }

/-- `ms_remove_task_if_need` -/
def removeTaskIfNeed (clock : Nat → ℚ) (ts : ℚ) (x : MsServer) : MsServer :=
  x.tasks.foldl (fun x t => if t.idle clock ts then x.closeTask t else x) x

/-- `ms_find_or_create_task`, with the address of the task. -/
def findOrCreateTask (clock : Nat → ℚ) (url : List Char) (x : MsServer) : MsServer × Nat :=
  match x.tasks.find? fun t => t.task.url = url with
  | some t => (x, t.id)
  | none =>
    -- tasks that are idle for five seconds go when another one is made
    let x := x.removeTaskIfNeed clock 5
    ({ x with
        tasks := x.tasks ++ [⟨x.next, msTaskOpen url, 0⟩]
        next := x.next + 1 }, x.next)

/-! ## Sessions -/

/-- `ms_find_session` -/
def findSession (nc : Nat) (x : MsServer) : Option SessionEntry :=
  x.sessions.find? fun s => s.connection = nc

/-- `remove_reader`, `QUEUE_REMOVE` and `ms_session_close`, as they stand
    together in three places. -/
def closeSession (now : ℚ) (x : MsServer) (s : SessionEntry) : MsServer :=
  { x with
    tasks := modify ServerTask.id s.task (ServerTask.removeReader now s.id) x.tasks
    sessions := x.sessions.filter fun s' => s'.id ≠ s.id
    clients := Function.update x.clients s.connection
      { x.clients s.connection with live := false } }

/-- The session of a connection is closed, if it has one. -/
def dropSession (now : ℚ) (nc : Nat) (x : MsServer) : MsServer :=
  match x.findSession nc with
  | some session => x.closeSession now session
  | none => x

/-- `ms_session_open` and what `ms_stream_handler` does with the session. The
    session keeps the `pos` of its range as it is; the reader that its task
    adds starts at zero where the source stores a negative one (`bytes=-500`
    gives -500). -/
def openSession (w : IntArith) (limit nc task : Nat) (method : Method)
    (rangeHdr : Option (List Char)) (e : Ambient) (x : MsServer) : MsServer :=
  match requestedRange rangeHdr with
  | none => x.abort
  | some (r1, r2) =>
    let id := x.next
    let c := (x.clients nc).openSession task method r1 r2 e.view
    let x : MsServer :=
      { x with
        sessions := x.sessions ++ [⟨id, nc, task⟩]
        next := id + 1 }
    -- the session is in the list before its reader is added
    let x := x.updateTask task fun t => t.addReader w ⟨id, r1.toNat, 0⟩
    let x := x.setClient nc ((c.tryTransfer limit e.view).closeIfNeed e.view)
    x.readerActs w task id e

/-- The url that a stream request is for: the variable, or the url of the
    resource that the path names, which is shorter than the buffer. -/
def streamUrl (hm : HttpRequest) (x : MsServer) : List Char :=
  if hm.url.length = 0 then
    match x.findResource hm.uri with
    | some resource => resource.originUrl
    | none => []
  else hm.url

/-- `ms_stream_handler` behind its assert. -/
def streamHandler (w : IntArith) (limit nc : Nat) (method : Method) (hm : HttpRequest)
    (e : Ambient) (x : MsServer) : MsServer :=
  let url := x.streamUrl hm
  let found := (x.dropSession e.now nc).findOrCreateTask e.clock url
  found.1.openSession w limit nc found.2 method hm.rangeHdr e

/-- `MG_EV_SEND`: the session is closed when `on_send` finds it complete. -/
def sendHandler (w : IntArith) (limit nc n : Nat) (e : Ambient) (x : MsServer) : MsServer :=
  if 0 < n ∧ n ≤ (x.clients nc).connection.sendMbuf.length then
    let c := (x.clients nc).sent limit e.view n
    let x := x.setClient nc c
    match x.findSession nc with
    -- an error reply or an answer of the API has left
    | none => x
    | some session =>
      if c.live then x.readerActs w session.task session.id e else x.closeSession e.now session
  else x

/-- `MG_EV_CLOSE`. A later connection at the same address starts afresh. -/
def closeHandler (nc : Nat) (e : Ambient) (x : MsServer) : MsServer :=
  (x.dropSession e.now nc).setClient nc acceptedClient

/-! ## The API -/

/-- Text that is not of a session is appended to the connection. -/
def respond (nc : Nat) (bytes : List UInt8) (x : MsServer) : MsServer :=
  let c := x.clients nc
  x.setClient nc
    { c with connection := { c.connection with sendMbuf := c.connection.sendMbuf ++ bytes } }

/-- `response_empty` -/
def responseEmpty (nc : Nat) (statusCode : Int) (x : MsServer) : MsServer :=
  x.respond nc <| bytesOf <|
    Connection.headText statusCode 2
      "Content-Type: application/json\r\nConnection: keep-alive".toList ++ "{}".toList

/-- `ms_preloader_open`, and the preloader is added to the lists. -/
def openPreloader (w : IntArith) (task : Nat) (x : MsServer) : MsServer :=
  let id := x.next
  let x : MsServer :=
    { x with
      preloaders := x.preloaders ++ [⟨id, task⟩]
      next := id + 1 }
  x.updateTask task fun t => t.addReader w ⟨id, 0, 0⟩

/-- `POST /api/tasks` -/
def postHandler (w : IntArith) (nc : Nat) (hm : HttpRequest) (e : Ambient) (x : MsServer) :
    MsServer :=
  match x.findResourceById (atoi hm.resourceId) with
  | none => x.abort
  | some resource =>
    let found := x.findOrCreateTask e.clock resource.originUrl
    (found.1.openPreloader w found.2).responseEmpty nc 200

/-- `remove_reader`, `QUEUE_REMOVE` and `ms_preloader_close`. -/
def closePreloader (now : ℚ) (x : MsServer) (p : Preloader) : MsServer :=
  { x with
    tasks := modify ServerTask.id p.task (ServerTask.removeReader now p.id) x.tasks
    preloaders := x.preloaders.filter fun p' => p'.id ≠ p.id }

/-- `DELETE /api/tasks/<id>`. The url of the resource is read once there is a
    preloader to compare it with. -/
def deleteHandler (nc : Nat) (resourceId : Int) (e : Ambient) (x : MsServer) : MsServer :=
  match x.findResourceById resourceId with
  | none => if x.preloaders.isEmpty then x.responseEmpty nc 404 else x.abort
  | some resource =>
    let found := x.preloaders.find? fun p =>
      x.tasks.any fun t => t.id = p.task && t.task.url = resource.originUrl
    match found with
    | some p => (x.closePreloader e.now p).responseEmpty nc 200
    | none => x.responseEmpty nc 404

/-- `task_handler`. The list of the tasks changes nothing. -/
def taskHandler (w : IntArith) (nc : Nat) (resourceId : Int) (hm : HttpRequest) (e : Ambient)
    (x : MsServer) : MsServer :=
  match hm.method with
  | .get => x.respond nc e.reply
  | .post => x.postHandler w nc hm e
  | .delete => x.deleteHandler nc resourceId e
  | _ => x

/-- `ms_api_handler` -/
def apiHandler (w : IntArith) (nc : Nat) (hm : HttpRequest) (e : Ambient) (x : MsServer) :
    MsServer :=
  let apiTasks := "/api/tasks".toList
  if hasPrefix hm.uri apiTasks then
    x.taskHandler w nc (atoi (hm.uri.drop (apiTasks.length + 1))) hm e
  else if hm.uri = apiTasks then x.taskHandler w nc (-1) hm e
  else x.respond nc e.reply

/-- `MG_EV_HTTP_REQUEST` -/
def requestHandler (w : IntArith) (limit nc : Nat) (hm : HttpRequest) (e : Ambient)
    (x : MsServer) : MsServer :=
  if hasPrefix hm.uri "/stream/".toList then
    match hm.method with
    | .get => x.streamHandler w limit nc .get hm e
    | .head => x.streamHandler w limit nc .head hm e
    -- the assert of `ms_stream_handler`
    | _ => x.abort
  else if hasPrefix hm.uri "/api/".toList then x.apiHandler w nc hm e
  else x.respond nc e.reply

/-! ## The system -/

/-- A callback that a task makes to a reader, and what a session does then. -/
inductive ReaderCall where
  | onRecv
  | onContentSize
  | onError

/-- The event of the client. -/
def ReaderCall.client (v : TaskView) : ReaderCall → Client.ClientEvent
  | .onRecv => .recv v
  | .onContentSize => .contentSize v
  | .onError => .error v

/-- The task calls the session of a connection back. -/
def callback (w : IntArith) (limit nc : Nat) (call : ReaderCall) (e : Ambient) (x : MsServer) :
    MsServer :=
  match x.findSession nc with
  | none => x
  | some session =>
    let x := x.setClient nc ((x.clients nc).step limit (call.client e.view))
    x.readerActs w session.task session.id e

/-- What happens to a server: an event of a client's connection, one of a pipe
    of a task, a callback to a session, a call of the application, or the
    clean-up when the server stops. -/
inductive ServerEvent where
  | request (nc : Nat) (hm : HttpRequest) (e : Ambient)
  | send (nc n : Nat) (e : Ambient)
  | close (nc : Nat) (e : Ambient)
  | pipe (task id : Nat) (ev : PipeEvent) (react : MsTask.React)
  | callback (nc : Nat) (call : ReaderCall) (e : Ambient)
  | generate (url : List Char)
  | remove (id : Int)
  | stop (e : Ambient)

/-- One event. -/
def step (w : IntArith) (limit : Nat) (x : MsServer) (event : ServerEvent) : MsServer :=
  if x.aborted then x
  else
    match event with
    | .request nc hm e => x.requestHandler w limit nc hm e
    | .send nc n e => x.sendHandler w limit nc n e
    | .close nc e => x.closeHandler nc e
    | .pipe task id ev react => x.updateTask task fun t => t.step w (.pipe id ev react)
    | .callback nc call e => x.callback w limit nc call e
    | .generate url => x.generateResource url
    | .remove id => x.removeResource id
    | .stop e => x.removeTaskIfNeed e.clock 0

end MsServer

end Libms
