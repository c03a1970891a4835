import Mathlib
import Libms.Framework.Runs
import Libms.Server.Registry

/-! # The preload requests

    `POST /api/tasks` opens a preloader for a resource and `DELETE
    /api/tasks/<id>` closes one. Both look for the resource by an id that is
    text from outside, and use what they find without a test.

    * `PreloadEvent`, `preloadStep`: the calls of the application and the two
      requests.
    * `PostHandled`, `DeleteHandled`, `Refused`: what should come of a
      request; `Expected`: the requests of which it comes.
    * `Quiet`: the invariant of a server on which nothing else happens, with
      what each request does to such a server (`post_live`, `delete_live`).
    * `preloads_handled_iff`: the condition over whole runs. -/

namespace Libms

open Buckets Runs

namespace MsServer

/-! ## The requests -/

/-- `POST /api/tasks` -/
def postRequest (hm : HttpRequest) : HttpRequest :=
  { hm with method := .post, uri := "/api/tasks".toList }

/-- `DELETE /api/tasks/<id>` -/
def deleteRequest (id : List Char) (hm : HttpRequest) : HttpRequest :=
  { hm with method := .delete, uri := "/api/tasks/".toList ++ id }

/-- A call of the application, or a request. `connected` says whether
    `mg_connect_http` gives a connection to a pipe that is opened. -/
inductive PreloadEvent where
  | generate (url : List Char)
  | remove (id : Int)
  | post (nc : Nat) (hm : HttpRequest) (connected : Bool) (e : Ambient)
  | delete (nc : Nat) (id : List Char) (hm : HttpRequest) (e : Ambient)

/-- How many pipes the task at an address has opened, zero where there is no
    task. -/
def openedBy (x : MsServer) (id : Nat) : Nat :=
  match x.tasks.find? fun t => t.id = id with
  | some t => t.task.opened
  | none => 0

/-- Some task has opened a pipe. -/
def opensPipe (x x' : MsServer) : Bool := x'.tasks.any fun t => t.task.opened ≠ x.openedBy t.id

/-- One event. -/
def preloadStep (w : IntArith) (limit : Nat) (x : MsServer) : PreloadEvent → MsServer
  | .generate url => x.step w limit (.generate url)
  | .remove id => x.step w limit (.remove id)
  | .post nc hm connected e =>
    let x' := x.step w limit (.request nc (postRequest hm) e)
    -- `pipe_connect` writes through the connection it was given
    if x.opensPipe x' && !connected then x'.abort else x'
  | .delete nc id hm e => x.step w limit (.request nc (deleteRequest id hm) e)

/-! ## What should come of them -/

/-- An answer without a body was appended to the connection. -/
def Answered (nc : Nat) (statusCode : Int) (x x' : MsServer) : Prop :=
  (x'.clients nc).connection.sendMbuf = (x.clients nc).connection.sendMbuf ++
    bytesOf (Connection.headText statusCode 2
      "Content-Type: application/json\r\nConnection: keep-alive".toList ++ "{}".toList)

/-- The preloader is of the task of a url. -/
def Preloads (x : MsServer) (url : List Char) (p : Preloader) : Prop :=
  ∃ t ∈ x.tasks, t.id = p.task ∧ t.url = url

/-- A preloader was added, and its reader is in the list of the task of that
    url and of no other. -/
structure PostHandled (url : List Char) (nc : Nat) (x x' : MsServer) : Prop where
  added : ∃ p, x'.preloaders = x.preloaders ++ [p] ∧ x'.Preloads url p ∧
    x'.tasksOf p.id = [p.task]
  answered : Answered nc 200 x x'

/-- A preloader of the task of that url was removed, with its reader, or there
    is none. -/
inductive DeleteHandled (url : List Char) (nc : Nat) (x x' : MsServer) : Prop
  | removed (p : Preloader) : p ∈ x.preloaders → x.Preloads url p →
      x.preloaders.Perm (p :: x'.preloaders) → x'.tasksOf p.id = [] → Answered nc 200 x x' →
      DeleteHandled url nc x x'
  | missing : (∀ p ∈ x.preloaders, ¬ x.Preloads url p) → x'.tasks = x.tasks →
      x'.preloaders = x.preloaders → Answered nc 404 x x' → DeleteHandled url nc x x'

/-- An error was answered, and nothing else was done. -/
structure Refused (nc : Nat) (x x' : MsServer) : Prop where
  tasks : x'.tasks = x.tasks
  preloaders : x'.preloaders = x.preloaders
  answered : ∃ statusCode, 400 ≤ statusCode ∧ Answered nc statusCode x x'

/-- What should come of an event: no null pointer is read through, and a
    request for a resource is handled, any other refused. -/
def Handled (x x' : MsServer) : PreloadEvent → Prop
  | .generate _ | .remove _ => x'.aborted = false
  | .post nc hm _ _ =>
    x'.aborted = false ∧
      match x.findResourceById (atoi hm.resourceId) with
      | some r => PostHandled r.originUrl nc x x'
      | none => Refused nc x x'
  | .delete nc id _ _ =>
    x'.aborted = false ∧
      match x.findResourceById (atoi id) with
      | some r => DeleteHandled r.originUrl nc x x'
      | none => Refused nc x x'

/-- A pipe of the task of a url stands at the start of the file. -/
def Started (x : MsServer) (url : List Char) : Prop :=
  ∃ t ∈ x.tasks, t.url = url ∧ t.task.PipeAt 0

/-- The requests that the handlers are made for. -/
def Expected (x : MsServer) : PreloadEvent → Prop
  | .generate _ | .remove _ => True
  | .post _ hm connected _ =>
    ∃ r, x.findResourceById (atoi hm.resourceId) = some r ∧
      (connected = true ∨ x.Started r.originUrl)
  | .delete _ id _ _ => (x.findResourceById (atoi id)).isSome ∨ x.preloaders = []

/-! ## Quiet tasks -/

/-- A task that no pipe has called back yet. -/
structure QuietTask (t : MsTask) : Prop where
  storage : t.storage = msMemStorageOpen
  code : t.code = 0
  aborted : t.aborted = false

/-- The reader of a preloader, as it is added. -/
def preloadReader (id : Nat) : Reader := ⟨id, 0, 0⟩

section tasks

variable {w : IntArith} {t : MsTask} {id : Nat}

theorem msTaskOpen_quiet (url : List Char) : QuietTask (msTaskOpen url) := ⟨rfl, rfl, rfl⟩

theorem QuietTask.withReaders (h : QuietTask t) (readers : List Reader) :
    QuietTask { t with readers := readers } := ⟨h.storage, h.code, h.aborted⟩

/-- While the size is not known all of the file is wanted. -/
theorem QuietTask.wantedRange (h : QuietTask t) (id : Nat) :
    t.wantedRange w (preloadReader id) = .range 0 0 := by
  have hsize : t.storage.estimateSize = 0 := by
    rw [h.storage]
    rfl
  have hnext : ((preloadReader id).next : Int) = 0 := rfl
  unfold MsTask.wantedRange
  dsimp only
  rw [hsize, hnext, if_neg (lt_irrefl _), if_pos (by decide)]
  rfl

/-- A pipe is opened at the start of the file unless one stands there. -/
theorem QuietTask.dispatchReader (h : QuietTask t) (w : IntArith) (id : Nat) :
    (t.PipeAt 0 ∧ t.dispatchReader w (preloadReader id) = t) ∨
      (¬ t.PipeAt 0 ∧ t.dispatchReader w (preloadReader id) = t.createPipeFor 0 0) := by
  rw [MsTask.dispatchReader, if_neg (by rw [h.aborted]; exact Bool.false_ne_true),
    MsTask.dispatchOf, h.wantedRange]
  dsimp only
  by_cases hat : t.PipeAt 0
  · rw [if_pos (MsTask.nearestPipe_any.mpr hat)]
    exact Or.inl ⟨hat, rfl⟩
  · rw [if_neg (fun hnear => hat (MsTask.nearestPipe_any.mp hnear)), if_neg (by decide)]
    exact Or.inr ⟨hat, rfl⟩

theorem QuietTask.createPipeFor (h : QuietTask t) (pos : Nat) (len : Int) :
    QuietTask (t.createPipeFor pos len) := by
  rw [MsTask.createPipeFor, if_neg (fun hne => hne h.code)]
  exact ⟨h.storage, h.code, h.aborted⟩

theorem QuietTask.addReader (h : QuietTask t) (w : IntArith) (id : Nat) :
    QuietTask (t.addReader w (preloadReader id)) := by
  have hquiet := h.withReaders (t.readers ++ [preloadReader id])
  rw [MsTask.addReader]
  rcases hquiet.dispatchReader w id with ⟨-, hsame⟩ | ⟨-, hopen⟩
  · rw [hsame]
    exact hquiet
  · rw [hopen]
    exact hquiet.createPipeFor 0 0

theorem QuietTask.addReader_opened (h : QuietTask t) (w : IntArith) (id : Nat) :
    (t.addReader w (preloadReader id)).opened = t.opened ↔ t.PipeAt 0 := by
  have hquiet := h.withReaders (t.readers ++ [preloadReader id])
  rw [MsTask.addReader]
  rcases hquiet.dispatchReader w id with ⟨hat, hsame⟩ | ⟨hat, hopen⟩
  · rw [hsame]
    exact iff_of_true rfl hat
  · obtain ⟨url, hpipe⟩ := MsTask.createPipeFor_opened hquiet.code 0 0
    rw [hopen, hpipe.opened]
    exact iff_of_false (Nat.succ_ne_self _) hat

/-- A pipe may be closed, and nothing else is done. -/
theorem QuietTask.removeReader (h : QuietTask t) (id : Nat) : QuietTask (t.removeReader id) := by
  have hquiet := h.withReaders (t.readers.filter fun r => r.id ≠ id)
  have hpruned := MsTask.dispatchPipes_pruned
    (t := { t with readers := t.readers.filter fun r => r.id ≠ id }) t.pipes
  exact ⟨hpruned.storage.trans hquiet.storage, hpruned.code.trans hquiet.code,
    hpruned.aborted.trans hquiet.aborted⟩

end tasks

/-! ## Quiet servers -/

/-- The invariant: no task was called back, and no client has a fault. -/
structure Quiet (x : MsServer) : Prop where
  registered : Registered x
  tasks : ∀ t ∈ x.tasks, QuietTask t.task
  clients : ∀ nc, (x.clients nc).fault = none
  aborted : x.aborted = false

section quiet

variable {w : IntArith} {nc task : Nat} {x x' : MsServer} {url : List Char}

theorem initMediaServer_quiet : Quiet initMediaServer where
  registered := initMediaServer_registered
  tasks _ ht := absurd ht List.not_mem_nil
  clients _ := rfl
  aborted := rfl

theorem Quiet.responseEmpty (h : Quiet x) (nc : Nat) (statusCode : Int) :
    Quiet (x.responseEmpty nc statusCode) where
  registered := h.registered.respond _
  tasks := h.tasks
  clients nc' := by
    show (Function.update x.clients nc _ nc').fault = none
    by_cases hnc : nc' = nc
    · rw [hnc, Function.update_self]
      exact h.clients nc
    · rw [Function.update_of_ne hnc]
      exact h.clients nc'
  aborted := by
    show (x.aborted || (x.clients nc).fault.isSome) = false
    rw [h.aborted, h.clients nc]
    rfl

/-- The answer comes behind what the connection has to send. -/
theorem answered_responseEmpty (hclients : x'.clients = x.clients) (nc : Nat) (statusCode : Int) :
    Answered nc statusCode x (x'.responseEmpty nc statusCode) := by
  rw [Answered, MsServer.responseEmpty, respond, setClient, hclients]
  dsimp only
  rw [Function.update_self]

/-- A task does something that leaves it quiet. -/
theorem updateTask_quiet (task : Nat) (htasks : ∀ t ∈ x.tasks, QuietTask t.task)
    (hlive : x.aborted = false) {f : MsTask → MsTask} (hf : ∀ t, QuietTask t → QuietTask (f t)) :
    (∀ t ∈ (x.updateTask task f).tasks, QuietTask t.task) ∧
      (x.updateTask task f).aborted = false := by
  have hquiet : ∀ t ∈ (x.updateTask task f).tasks, QuietTask t.task := by
    intro t ht
    rcases mem_modify.mp ht with ⟨t₀, ht₀, -, hsame⟩ | ⟨hold, -⟩
    · rw [← hsame]
      exact hf _ (htasks t₀ ht₀)
    · exact htasks t hold
  refine ⟨hquiet, ?_⟩
  show (x.aborted || (x.updateTask task f).tasks.any fun t => t.task.aborted) = false
  rw [hlive, Bool.false_or, List.any_eq_false]
  intro t ht
  rw [(hquiet t ht).aborted]
  exact Bool.false_ne_true

theorem Quiet.openPreloader (h : Quiet x) (w : IntArith)
    (htask : task ∈ x.tasks.map ServerTask.id) : Quiet (x.openPreloader w task) := by
  obtain ⟨htasks, hlive⟩ := updateTask_quiet
    (x := { x with preloaders := x.preloaders ++ [⟨x.next, task⟩], next := x.next + 1 }) task
    h.tasks h.aborted fun t ht => ht.addReader w x.next
  exact ⟨h.registered.openPreloader htask, htasks, h.clients, hlive⟩

theorem Quiet.closePreloader (h : Quiet x) (now : ℚ) {p : Preloader} (hp : p ∈ x.preloaders) :
    Quiet (x.closePreloader now p) where
  registered := h.registered.closePreloader now hp
  tasks t ht := by
    rcases mem_modify.mp ht with ⟨t₀, ht₀, -, hsame⟩ | ⟨hold, -⟩
    · rw [← hsame]
      exact (h.tasks t₀ ht₀).removeReader p.id
    · exact h.tasks t hold
  clients := h.clients
  aborted := h.aborted

/-! ## The task of a url -/

/-- The task that is found is the one of the url, or a new one if there was
    none. -/
theorem findOrCreateTask_entry (h : Registered x) (clock : Nat → ℚ) (url : List Char) :
    ∃ t ∈ (x.findOrCreateTask clock url).1.tasks, t.id = (x.findOrCreateTask clock url).2 ∧
      t.url = url ∧
      (t ∈ x.tasks ∨ t = ⟨x.next, msTaskOpen url, 0⟩ ∧ url ∉ x.tasks.map ServerTask.url) := by
  unfold findOrCreateTask
  split
  · rename_i t hfind
    have ht := List.mem_of_find?_eq_some hfind
    have hurl : t.task.url = url := by simpa using List.find?_some hfind
    exact ⟨t, ht, rfl, hurl, Or.inl ht⟩
  · rename_i hnone
    have hnext := (removeTaskIfNeed_cleaned h clock 5).next
    refine ⟨⟨x.next, msTaskOpen url, 0⟩, ?_, hnext.symm, rfl, Or.inr ⟨rfl, ?_⟩⟩
    · rw [← hnext]
      exact List.mem_append_right _ List.mem_cons_self
    · intro hmem
      obtain ⟨t, ht, hurl⟩ := List.mem_map.mp hmem
      exact List.find?_eq_none.mp hnone t ht (decide_eq_true hurl)

/-- The other tasks were there before. -/
theorem findOrCreateTask_others (h : Registered x) (clock : Nat → ℚ) (url : List Char) :
    ∀ t ∈ (x.findOrCreateTask clock url).1.tasks, t.id ≠ (x.findOrCreateTask clock url).2 →
      t ∈ x.tasks := by
  unfold findOrCreateTask
  split
  · exact fun t ht _ => ht
  · intro t ht hother
    rcases List.mem_append.mp ht with hold | hnew
    · exact (removeTaskIfNeed_cleaned h clock 5).tasks.subset hold
    · rw [List.mem_singleton.mp hnew] at hother
      exact absurd rfl hother

theorem Quiet.findOrCreateTask (h : Quiet x) (clock : Nat → ℚ) (url : List Char) :
    Quiet (x.findOrCreateTask clock url).1 := by
  have hfound := findOrCreateTask_found h.registered clock url
  refine ⟨hfound.registered, ?_, hfound.clients ▸ h.clients, hfound.aborted.trans h.aborted⟩
  intro t ht
  obtain ⟨t₀, ht₀, hid, -, hwhich⟩ := findOrCreateTask_entry h.registered clock url
  by_cases hother : t.id = (x.findOrCreateTask clock url).2
  · rw [List.inj_on_of_nodup_map hfound.registered.ids ht ht₀ (hother.trans hid.symm)]
    rcases hwhich with hold | ⟨hnew, -⟩
    · exact h.tasks t₀ hold
    · rw [hnew]
      exact msTaskOpen_quiet url
  · exact h.tasks t (findOrCreateTask_others h.registered clock url t ht hother)

/-- A task keeps its count while the others come and go. -/
theorem Registered.openedBy (h : Registered x) {t : ServerTask} (ht : t ∈ x.tasks) :
    x.openedBy t.id = t.task.opened := by
  unfold MsServer.openedBy
  split
  · rename_i t' hfind
    have hid : t'.id = t.id := by simpa using List.find?_some hfind
    rw [List.inj_on_of_nodup_map h.ids (List.mem_of_find?_eq_some hfind) ht hid]
  · rename_i hnone
    exact absurd (decide_eq_true rfl) (List.find?_eq_none.mp hnone t ht)

theorem Registered.openedBy_next (h : Registered x) : x.openedBy x.next = 0 := by
  unfold MsServer.openedBy
  split
  · rename_i t hfind
    have hid : t.id = x.next := by simpa using List.find?_some hfind
    exact absurd (h.tasksBelow t (List.mem_of_find?_eq_some hfind)) (by omega)
  · rfl

theorem Registered.started (h : Registered x) {t : ServerTask} (ht : t ∈ x.tasks)
    (hurl : t.url = url) : x.Started url ↔ t.task.PipeAt 0 := by
  constructor
  · intro ⟨t', ht', hurl', hat⟩
    rw [List.inj_on_of_nodup_map h.urls ht ht' (hurl.trans hurl'.symm)]
    exact hat
  · exact fun hat => ⟨t, ht, hurl, hat⟩

/-- What is known of the task that was found. -/
theorem Registered.entry (h : Registered x) {t : ServerTask} (hurl : t.url = url)
    (hwhich : t ∈ x.tasks ∨ t = ⟨x.next, msTaskOpen url, 0⟩ ∧ url ∉ x.tasks.map ServerTask.url) :
    x.openedBy t.id = t.task.opened ∧ (x.Started url ↔ t.task.PipeAt 0) := by
  rcases hwhich with hold | ⟨hnew, hnone⟩
  · exact ⟨h.openedBy hold, h.started hold hurl⟩
  · rw [hnew]
    refine ⟨h.openedBy_next, iff_of_false ?_ ?_⟩
    · intro ⟨t', ht', hurl', _⟩
      exact hnone (hurl' ▸ List.mem_map_of_mem ht')
    · intro ⟨id, hid, _⟩
      exact absurd hid List.not_mem_nil

/-- A preloader opens a pipe of its task unless one stands at the start of the
    file. -/
theorem Quiet.opensPipe (h : Quiet x) (w : IntArith) (clock : Nat → ℚ) (url : List Char)
    (nc : Nat) (statusCode : Int) :
    x.opensPipe (((x.findOrCreateTask clock url).1.openPreloader w
      (x.findOrCreateTask clock url).2).responseEmpty nc statusCode) = true ↔
      ¬ x.Started url := by
  have hquiet := h.findOrCreateTask clock url
  have hothers := findOrCreateTask_others h.registered clock url
  obtain ⟨t, ht, hid, hurl, hwhich⟩ := findOrCreateTask_entry h.registered clock url
  obtain ⟨hopened, hstarted⟩ := h.registered.entry hurl hwhich
  generalize x.findOrCreateTask clock url = found at hquiet hothers ht hid ⊢
  have hadd := (hquiet.tasks t ht).addReader_opened w found.1.next
  rw [MsServer.opensPipe, List.any_eq_true, hstarted]
  constructor
  · intro ⟨t', ht', hmore⟩ hat
    have hmore : t'.task.opened ≠ x.openedBy t'.id := of_decide_eq_true hmore
    rcases mem_modify.mp ht' with ⟨t₁, ht₁, hid₁, rfl⟩ | ⟨hold, hother⟩
    · rw [List.inj_on_of_nodup_map hquiet.registered.ids ht₁ ht (hid₁.trans hid.symm)] at hmore
      exact hmore ((hadd.mpr hat).trans hopened.symm)
    · exact hmore (h.registered.openedBy (hothers t' hold hother)).symm
  · intro hat
    refine ⟨_, mem_modify.mpr (Or.inl ⟨t, ht, hid, rfl⟩), decide_eq_true fun hsame => ?_⟩
    exact hat (hadd.mp (hsame.trans hopened))

end quiet

/-! ## The requests, one at a time -/

section requests

variable {w : IntArith} {limit nc : Nat} {x : MsServer} {hm : HttpRequest} {e : Ambient}

theorem step_post (hlive : x.aborted = false) :
    x.step w limit (.request nc (postRequest hm) e) = x.postHandler w nc (postRequest hm) e := by
  rw [step, if_neg (by rw [hlive]; exact Bool.false_ne_true)]
  rfl

/-- The path of the request is told apart by its start, and the id is all of
    the rest. -/
theorem step_delete (hlive : x.aborted = false) (id : List Char) :
    x.step w limit (.request nc (deleteRequest id hm) e) = x.deleteHandler nc (atoi id) e := by
  have hstream : hasPrefix ("/api/tasks/".toList ++ id) "/stream/".toList = false := by
    simp [hasPrefix, List.isPrefixOf]
  have hapi : hasPrefix ("/api/tasks/".toList ++ id) "/api/".toList = true := by
    simp [hasPrefix]
  have htasks : hasPrefix ("/api/tasks/".toList ++ id) "/api/tasks".toList = true := by
    simp [hasPrefix]
  rw [step, if_neg (by rw [hlive]; exact Bool.false_ne_true), deleteRequest, requestHandler]
  dsimp only
  rw [if_neg (by rw [hstream]; exact Bool.false_ne_true), if_pos hapi, apiHandler]
  dsimp only
  rw [if_pos htasks]
  rfl

/-- A preloader is added for a resource that is there. -/
theorem Quiet.post_live (h : Quiet x) (w : IntArith) (nc : Nat) (e : Ambient) {r : Resource}
    (hr : x.findResourceById (atoi hm.resourceId) = some r) :
    Quiet (x.postHandler w nc (postRequest hm) e) ∧
      PostHandled r.originUrl nc x (x.postHandler w nc (postRequest hm) e) ∧
      (x.opensPipe (x.postHandler w nc (postRequest hm) e) = true ↔ ¬ x.Started r.originUrl) := by
  have hr' : x.findResourceById (atoi (postRequest hm).resourceId) = some r := hr
  have hopens := h.opensPipe w e.clock r.originUrl nc 200
  have hfound := findOrCreateTask_found h.registered e.clock r.originUrl
  obtain ⟨t, ht, hid, hurl, -⟩ := findOrCreateTask_entry h.registered e.clock r.originUrl
  have hquiet := h.findOrCreateTask e.clock r.originUrl
  rw [MsServer.postHandler, hr']
  dsimp only
  generalize x.findOrCreateTask e.clock r.originUrl = found at hopens hfound ht hid hquiet ⊢
  have hopen := (hquiet.openPreloader w hfound.task).responseEmpty nc 200
  refine ⟨hopen, ⟨⟨⟨found.1.next, found.2⟩, ?_, ?_, ?_⟩, ?_⟩, hopens⟩
  · rw [← hfound.preloaders]
    rfl
  · exact ⟨_, mem_modify.mpr (Or.inl ⟨t, ht, hid, rfl⟩), hid,
      (MsTask.addReader_url _).trans hurl⟩
  · exact hopen.registered.tasksOf
      (preloader_owner (p := ⟨found.1.next, found.2⟩) (List.mem_append_right _ List.mem_cons_self))
  · exact answered_responseEmpty hfound.clients nc 200

/-- The reader of a preloader goes with it. -/
theorem Registered.tasksOf_closePreloader (h : Registered x) (now : ℚ) {p : Preloader}
    (hp : p ∈ x.preloaders) : (x.closePreloader now p).tasksOf p.id = [] := by
  have hclosed := h.closePreloader now hp
  rw [MsServer.tasksOf, places, List.map_eq_nil_iff, List.filter_eq_nil_iff]
  intro o hplaced hid
  have hid : o.1 = p.id := of_decide_eq_true hid
  rcases List.mem_append.mp (hclosed.placed.mem_iff.mp hplaced) with ho | ho
  · obtain ⟨s, hs, hsame⟩ := List.mem_map.mp ho
    exact h.apart hs hp ((congrArg Prod.fst hsame).trans hid)
  · obtain ⟨p', hp', hsame⟩ := List.mem_map.mp ho
    have hother := of_decide_eq_true (List.mem_filter.mp hp').2
    exact hother ((congrArg Prod.fst hsame).trans hid)

/-- It is the only one with this address. -/
theorem Registered.perm_closePreloader (h : Registered x) (now : ℚ) {p : Preloader}
    (hp : p ∈ x.preloaders) :
    x.preloaders.Perm (p :: (x.closePreloader now p).preloaders) := by
  have hnodup := h.owners
  rw [MsServer.owners, List.map_append, List.nodup_append, List.map_map, List.map_map] at hnodup
  have hids : (x.preloaders.map Preloader.id).Nodup := hnodup.2.1
  have hgone : x.preloaders.erase p = (x.closePreloader now p).preloaders := by
    rw [hids.of_map.erase_eq_filter]
    apply List.filter_congr
    intro p' hp'
    have hiff : p' = p ↔ p'.id = p.id :=
      ⟨congrArg Preloader.id, List.inj_on_of_nodup_map hids hp' hp⟩
    rw [Bool.eq_iff_iff, bne_iff_ne, decide_eq_true_eq]
    exact not_congr hiff
  rw [← hgone]
  exact List.perm_cons_erase hp

/-- A preloader is removed for a resource that is there. -/
theorem Quiet.delete_live (h : Quiet x) (nc : Nat) (e : Ambient) {resourceId : Int} {r : Resource}
    (hr : x.findResourceById resourceId = some r) :
    Quiet (x.deleteHandler nc resourceId e) ∧
      DeleteHandled r.originUrl nc x (x.deleteHandler nc resourceId e) := by
  rw [MsServer.deleteHandler, hr]
  dsimp only
  split
  · rename_i p hfind
    have hp := List.mem_of_find?_eq_some hfind
    have hclosed := (h.closePreloader e.now hp).responseEmpty nc 200
    have hurl : x.Preloads r.originUrl p := by
      simpa [Preloads, ServerTask.url] using List.find?_some hfind
    exact ⟨hclosed, .removed p hp hurl (h.registered.perm_closePreloader e.now hp)
      (h.registered.tasksOf_closePreloader e.now hp) (answered_responseEmpty rfl nc 200)⟩
  · rename_i hnone
    refine ⟨h.responseEmpty nc 404, .missing ?_ rfl rfl (answered_responseEmpty rfl nc 404)⟩
    intro p hp hurl
    refine List.find?_eq_none.mp hnone p hp ?_
    simpa [Preloads, ServerTask.url] using hurl

/-- Without a resource the list is left alone if it is empty. -/
theorem Quiet.delete_missing (h : Quiet x) (nc : Nat) (e : Ambient) {resourceId : Int}
    (hr : x.findResourceById resourceId = none) (hempty : x.preloaders = []) :
    Quiet (x.deleteHandler nc resourceId e) ∧
      Refused nc x (x.deleteHandler nc resourceId e) := by
  rw [MsServer.deleteHandler, hr]
  dsimp only
  rw [if_pos (List.isEmpty_iff.mpr hempty)]
  exact ⟨h.responseEmpty nc 404,
    ⟨rfl, rfl, 404, by decide, answered_responseEmpty rfl nc 404⟩⟩

end requests

/-! ## Runs -/

section runs

variable {w : IntArith} {limit : Nat} {x x' : MsServer} {ev : PreloadEvent}

theorem Quiet.generateResource (h : Quiet x) (url : List Char) :
    Quiet (x.generateResource url) := by
  unfold MsServer.generateResource
  split
  · exact ⟨{ h.registered with }, h.tasks, h.clients, h.aborted⟩
  · exact ⟨{ h.registered with }, h.tasks, h.clients, h.aborted⟩

theorem step_generate (hlive : x.aborted = false) (url : List Char) :
    x.preloadStep w limit (.generate url) = x.generateResource url := by
  rw [preloadStep, step, if_neg (by rw [hlive]; exact Bool.false_ne_true)]

theorem step_remove (hlive : x.aborted = false) (id : Int) :
    x.preloadStep w limit (.remove id) = x.removeResource id := by
  rw [preloadStep, step, if_neg (by rw [hlive]; exact Bool.false_ne_true)]

/-- **Step lemma.** An event that is expected is handled, and the server stays
    quiet. -/
theorem Quiet.preloadStep (h : Quiet x) (hexpected : x.Expected ev) :
    Quiet (x.preloadStep w limit ev) ∧ x.Handled (x.preloadStep w limit ev) ev := by
  cases ev with
  | generate url =>
    rw [step_generate h.aborted]
    have hquiet := h.generateResource url
    exact ⟨hquiet, hquiet.aborted⟩
  | remove id =>
    rw [step_remove h.aborted]
    exact ⟨⟨{ h.registered with }, h.tasks, h.clients, h.aborted⟩, h.aborted⟩
  | post nc hm connected e =>
    obtain ⟨r, hr, hconnects⟩ := hexpected
    obtain ⟨hquiet, hhandled, hopens⟩ := h.post_live w nc e hr
    rw [MsServer.preloadStep, Handled, hr, step_post h.aborted]
    dsimp only
    rw [if_neg]
    · exact ⟨hquiet, hquiet.aborted, hhandled⟩
    · intro hboth
      obtain ⟨hopened, hfailed⟩ := Bool.and_eq_true_iff.mp hboth
      rcases hconnects with hconnected | hstarted
      · rw [hconnected] at hfailed
        cases hfailed
      · exact hopens.mp hopened hstarted
  | delete nc id hm e =>
    rw [MsServer.preloadStep, Handled, step_delete h.aborted]
    cases hr : x.findResourceById (atoi id) with
    | some r =>
      obtain ⟨hquiet, hhandled⟩ := h.delete_live nc e hr
      exact ⟨hquiet, hquiet.aborted, hhandled⟩
    | none =>
      have hempty : x.preloaders = [] := by
        rcases hexpected with hsome | hempty
        · rw [hr] at hsome
          cases hsome
        · exact hempty
      obtain ⟨hquiet, hrefused⟩ := h.delete_missing nc e hr hempty
      exact ⟨hquiet, hquiet.aborted, hrefused⟩

theorem Handled.live (h : x.Handled x' ev) : x'.aborted = false := by
  cases ev with
  | generate url => exact h
  | remove id => exact h
  | post nc hm connected e => exact h.1
  | delete nc id hm e => exact h.1

/-- Any other event reads through a null pointer. -/
theorem Quiet.aborts (h : Quiet x) (w : IntArith) (limit : Nat) (hother : ¬ x.Expected ev) :
    (x.preloadStep w limit ev).aborted = true := by
  cases ev with
  | generate url => exact absurd trivial hother
  | remove id => exact absurd trivial hother
  | post nc hm connected e =>
    rw [MsServer.preloadStep, step_post h.aborted]
    cases hr : x.findResourceById (atoi hm.resourceId) with
    | some r =>
      obtain ⟨-, -, hopens⟩ := h.post_live w nc e hr
      have hfailed : connected = false ∧ ¬ x.Started r.originUrl := by
        constructor
        · rw [← Bool.not_eq_true]
          exact fun hconnected => hother ⟨r, hr, Or.inl hconnected⟩
        · exact fun hstarted => hother ⟨r, hr, Or.inr hstarted⟩
      rw [if_pos]
      · rfl
      · rw [hopens.mpr hfailed.2, hfailed.1]
        rfl
    | none =>
      have hr' : x.findResourceById (atoi (postRequest hm).resourceId) = none := hr
      rw [MsServer.postHandler, hr']
      dsimp only
      split
      · rfl
      · rfl
  | delete nc id hm e =>
    rw [MsServer.preloadStep, step_delete h.aborted, MsServer.deleteHandler]
    cases hr : x.findResourceById (atoi id) with
    | some r =>
      refine absurd (Or.inl ?_) hother
      rw [hr]
      rfl
    | none =>
      have hmore : ¬ x.preloaders.isEmpty :=
        fun hempty => hother (Or.inr (List.isEmpty_iff.mp hempty))
      dsimp only
      rw [if_neg hmore]
      rfl

theorem Quiet.handled_iff (h : Quiet x) :
    x.Handled (x.preloadStep w limit ev) ev ↔ x.Expected ev := by
  constructor
  · intro hhandled
    by_contra hother
    have haborts := h.aborts w limit hother
    rw [hhandled.live] at haborts
    cases haborts
  · exact fun hexpected => (h.preloadStep hexpected).2

end runs

end MsServer

open MsServer in
/-- **The preload requests.** In every run all events are handled iff every
    request is for a resource that is there when it comes, a deletion at least
    where there is a preloader, and the pipe that is opened for a preloader
    gets its connection. -/
theorem preloads_handled_iff (w : IntArith) (p : Platform) (events : List PreloadEvent) :
    Along (preloadStep w p.sendBufLimit)
        (fun x ev => x.Handled (x.preloadStep w p.sendBufLimit ev) ev) initMediaServer events ↔
      Along (preloadStep w p.sendBufLimit) Expected initMediaServer events := by
  constructor
  · exact along_of_invariant (P := MsServer.Quiet)
      (fun _ _ h hhandled => (h.preloadStep (h.handled_iff.mp hhandled)).1)
      (fun _ _ h => h.handled_iff.mp) initMediaServer_quiet
  · exact along_of_invariant (P := MsServer.Quiet)
      (fun _ _ h hexpected => (h.preloadStep hexpected).1)
      (fun _ _ h => h.handled_iff.mpr) initMediaServer_quiet

/-- A request of the API without a range. -/
def apiRequest (resourceId : List Char) : HttpRequest := ⟨.other, [], [], resourceId, none⟩

/-- A resource is preloaded, and goes before its preloader is deleted. -/
def orphaned : List MsServer.PreloadEvent :=
  [.generate ['u'], .post 8 (apiRequest ['1']) true (atTime 1), .remove 1,
    .delete 8 ['1'] (apiRequest []) (atTime 2)]

open MsServer in
/-- A resource that is not there is read, of a request to preload it and of
    one to delete what it had. -/
theorem preloads_unhandled :
    ¬ Along (preloadStep exactInt 4096)
        (fun x ev => x.Handled (x.preloadStep exactInt 4096 ev) ev) initMediaServer
        [.post 8 (apiRequest ['1']) true (atTime 1)] ∧
      ¬ Along (preloadStep exactInt 4096)
        (fun x ev => x.Handled (x.preloadStep exactInt 4096 ev) ev) initMediaServer orphaned := by
  constructor
  · intro h
    have hlive := h.1.live
    have haborted : (run (preloadStep exactInt 4096) initMediaServer
      [.post 8 (apiRequest ['1']) true (atTime 1)]).aborted = true := by decide +kernel
    exact absurd (hlive.symm.trans haborted) Bool.false_ne_true
  · intro h
    have hlive := h.2.2.2.1.live
    have haborted : (run (preloadStep exactInt 4096) initMediaServer orphaned).aborted = true := by
      decide +kernel
    exact absurd (hlive.symm.trans haborted) Bool.false_ne_true

end Libms
