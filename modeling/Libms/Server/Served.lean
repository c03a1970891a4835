import Mathlib
import Libms.Server.Clients
import Libms.Server.Proxy
import Libms.Session.Delivers
import Libms.Task.Intact

/-! # Pipes and sessions

    An event of a pipe, from the bytes of the origin to what the sessions of
    the task append to their connections.

    * `Served`: the invariant. The tasks carry the files of their urls, and
      each client gets what it has asked for.
    * `callReaders_served`: the sessions of a task handle a callback, one
      after the other, each in the state that the last one leaves.
    * `proxyPipe_served`: an event of a pipe of an honest origin. -/

namespace Libms

open Buckets

namespace MsServer

/-! ## The invariant -/

/-- The task carries the file of its url. -/
def Whole (origin : List Char → List UInt8) (t : ServerTask) : Prop :=
  t.task.Intact (origin t.task.url) none

/-- The same while pipe `id` of one task is in the hands of its handler. -/
def HeldBy (origin : List Char → List UInt8) (url : List Char) (task id : Nat) (reqLen : Int)
    (t : ServerTask) : Prop :=
  if t.id = task then t.task.url = url ∧ t.task.InHand (origin url) id reqLen
  else Whole origin t

/-- The sessions, as long as no assert has failed. -/
structure Running (limit : Nat) (origin : List Char → List UInt8) (asked : Nat → Option Asked)
    (x : MsServer) : Prop where
  linked : Linked x
  url : ∀ s ∈ x.sessions, ∀ t ∈ x.tasks, t.id = s.task →
    (asked s.connection).map Asked.url = some t.task.url
  delivers : ∀ nc a, asked nc = some a →
    (x.clients nc).Delivers limit (origin a.url) a.r1 a.r2

/-- **The invariant**, for tasks of which `K` holds. -/
structure Served (limit : Nat) (origin : List Char → List UInt8) (K : ServerTask → Prop)
    (asked : Nat → Option Asked) (x : MsServer) : Prop where
  registered : Registered x
  carried : ∀ t ∈ x.tasks, K t
  running : x.aborted = false → Running limit origin asked x

/-- Sessions can read a task of which `K` holds, and act on it. -/
structure Readable (w : IntArith) (origin : List Char → List UInt8) (K : ServerTask → Prop) :
    Prop where
  storage : ∀ t, K t → t.task.storage.Intact (origin t.task.url)
  act : ∀ t id act, K t → K { t with task := t.task.readerAct w id act }

section served

variable {w : IntArith} {limit task id : Nat} {origin : List Char → List UInt8}
  {K K' : ServerTask → Prop} {asked : Nat → Option Asked} {x : MsServer} {url : List Char}
  {reqLen : Int} {f : MsTask → MsTask} {react : ProxyReact}

theorem whole_readable : Readable w origin (Whole origin) where
  storage _ h := h.storage
  act t id act h := by
    have hurl := (@MsTask.readerAct_sameReaders w t.task t.task id act .refl).url
    show MsTask.Intact (origin (MsTask.readerAct w id t.task act).url) none _
    rw [hurl]
    exact MsTask.intact_readerInvariant.readerAct id act h

theorem heldBy_readable : Readable w origin (HeldBy origin url task id reqLen) where
  storage t h := by
    unfold HeldBy at h
    split at h
    · rw [h.1]
      exact h.2.intact.storage
    · exact h.storage
  act t reader act h := by
    unfold HeldBy at h ⊢
    dsimp only
    split at h
    · rename_i hid
      rw [if_pos hid]
      have hsame := @MsTask.readerAct_sameReaders w t.task t.task reader act .refl
      refine ⟨hsame.url.trans h.1, h.2.of_sizeKept ?_ (MsTask.readerAct_sizeKept w reader _ act)⟩
      exact MsTask.intact_readerInvariant.readerAct reader act h.2.intact
    · rename_i hid
      rw [if_neg hid]
      exact whole_readable.act t reader act h

/-- What readers do one after the other. -/
theorem Readable.acts (h : Readable w origin K) (reader : Nat) (acts : List MsTask.ReaderAct)
    {t : ServerTask} (ht : K t) :
    K { t with task := acts.foldl (MsTask.readerAct w reader) t.task } := by
  induction acts generalizing t with
  | nil => exact ht
  | cons act acts ih => exact ih (h.act t reader act ht)

/-! ## Tasks change -/

theorem Running.updateTask (h : Running limit origin asked x)
    (hf : ∀ t, MsTask.SameReaders t (f t)) : Running limit origin asked (x.updateTask task f) where
  linked := h.linked.of_eq rfl rfl
  url s hs t ht hid := by
    rcases mem_modify.mp ht with ⟨t₀, ht₀, -, rfl⟩ | ⟨hold, -⟩
    · rw [(hf t₀.task).url]
      exact h.url s hs t₀ ht₀ hid
    · exact h.url s hs t hold hid
  delivers := h.delivers

/-- A task does something that leaves its readers in its list. -/
theorem Served.updateTask (h : Served limit origin K asked x)
    (hf : ∀ t, MsTask.SameReaders t (f t))
    (hK : ∀ t ∈ x.tasks, t.id = task → K t → K' { t with task := f t.task })
    (hother : ∀ t, t.id ≠ task → K t → K' t) :
    Served limit origin K' asked (x.updateTask task f) where
  registered := h.registered.updateTask task hf
  carried t ht := by
    rcases mem_modify.mp ht with ⟨t₀, ht₀, hid, rfl⟩ | ⟨hold, hid⟩
    · exact hK t₀ ht₀ hid (h.carried t₀ ht₀)
    · exact hother t hid (h.carried t hold)
  running hnone := (h.running (updateTask_running hnone)).updateTask hf

/-! ## A session is called -/

/-- The task with an address is the one that is found. -/
theorem Registered.taskAt (h : Registered x) {t : ServerTask} (ht : t ∈ x.tasks) :
    x.taskAt t.id = some t.task := by
  have hfind : x.tasks.find? (fun t' => t'.id = t.id) = some t := by
    cases hfound : x.tasks.find? (fun t' => t'.id = t.id) with
    | none =>
      have := List.find?_eq_none.mp hfound t ht
      simp at this
    | some t' =>
      have hid : t'.id = t.id := by simpa using List.find?_some hfound
      rw [List.inj_on_of_nodup_map h.ids (List.mem_of_find?_eq_some hfound) ht hid]
  unfold MsServer.taskAt
  rw [hfind]
  rfl

theorem Registered.viewOf (h : Registered x) {t : ServerTask} (ht : t ∈ x.tasks) :
    x.viewOf t.id = t.task.view := by
  unfold MsServer.viewOf
  rw [h.taskAt ht]

/-- A storage with bytes of the file serves it. -/
theorem MsTask.view_serves {t : MsTask} {file : List UInt8} (h : t.storage.Intact file) :
    t.view.Serves file :=
  TaskView.ofStorage_serves h.size (h.estimate ▸ h.filled) h.bytes

/-- A session finds its connection. -/
theorem Registered.findSession (h : Registered x) {s : SessionEntry} (hs : s ∈ x.sessions) :
    x.findSession s.connection = some s := by
  unfold MsServer.findSession
  cases hfound : x.sessions.find? (fun s' => s'.connection = s.connection) with
  | none =>
    have := List.find?_eq_none.mp hfound s hs
    simp at this
  | some s' =>
    have hconnection : s'.connection = s.connection := by simpa using List.find?_some hfound
    rw [List.inj_on_of_nodup_map h.connections (List.mem_of_find?_eq_some hfound) hs hconnection]

/-- What a session sees is the file that its connection asked for. -/
theorem Served.sees (h : Served limit origin K asked x) (hK : Readable w origin K)
    (hrun : Running limit origin asked x) {s : SessionEntry} (hs : s ∈ x.sessions) :
    ∃ a, asked s.connection = some a ∧ (x.viewOf s.task).Serves (origin a.url) := by
  obtain ⟨t, ht, hid⟩ := List.mem_map.mp (h.registered.mem_task (session_owner hs))
  obtain ⟨a, ha, hurl⟩ := Option.map_eq_some_iff.mp (hrun.url s hs t ht hid)
  refine ⟨a, ha, ?_⟩
  rw [← hid, h.registered.viewOf ht, hurl]
  exact MsTask.view_serves (hK.storage t (h.carried t ht))

/-- The event of a session that is called back. -/
def ReaderCall.event (v : TaskView) : ReaderCall → SessionEvent
  | .onRecv => .recv v
  | .onContentSize => .contentSize v
  | .onError => .error v

theorem ReaderCall.event_client (v : TaskView) (call : ReaderCall) :
    (call.event v).client = call.client v := by
  cases call <;> rfl

/-- **One session.** -/
theorem callReader_served (hlimit : limit ≤ 4096) (hsize : ∀ url, (origin url).length < 2 ^ 63)
    (hK : Readable w origin K) (call : ReaderCall) (acts : List MsTask.ReaderAct) (reader : Nat)
    (h : Served limit origin K asked x) :
    Served limit origin K asked (x.callReader w limit call acts reader) := by
  unfold callReader
  split
  · exact h
  · rename_i hrunning
    split
    · exact h
    · rename_i s hfind
      have hs := List.mem_of_find?_eq_some hfind
      have hrun := h.running (by simpa using hrunning)
      obtain ⟨a, ha, hserves⟩ := h.sees hK hrun hs
      refine ⟨h.registered.callback call _, ?_, fun hnone => ⟨?_, ?_, ?_⟩⟩
      · -- the task changes as the readers act on it
        intro t ht
        unfold MsServer.callback at ht
        rw [h.registered.findSession hs] at ht
        rcases mem_modify.mp ht with ⟨t₀, ht₀, -, rfl⟩ | ⟨hold, -⟩
        · exact hK.acts s.id acts (h.carried t₀ ht₀)
        · exact h.carried t hold
      · exact hrun.linked.callback call _ hnone
      · intro s' hs' t ht hid
        unfold MsServer.callback at hs' ht
        rw [h.registered.findSession hs] at hs' ht
        rcases mem_modify.mp ht with ⟨t₀, ht₀, -, rfl⟩ | ⟨hold, -⟩
        · rw [(MsTask.readerActs_sameReaders acts).url]
          exact hrun.url s' hs' t₀ ht₀ hid
        · exact hrun.url s' hs' t hold hid
      · intro nc b hb
        unfold MsServer.callback
        rw [h.registered.findSession hs]
        show Client.Delivers limit (origin b.url) b.r1 b.r2 (Function.update x.clients s.connection
          ((x.clients s.connection).step limit (call.client (x.viewOf s.task))) nc)
        by_cases hnc : nc = s.connection
        · -- the client of the session takes its step
          rw [hnc] at hb
          rw [← Option.some.inj (hb.symm.trans ha)] at hserves
          rw [hnc, Function.update_self, ← ReaderCall.event_client]
          refine (hrun.delivers s.connection b hb).step hlimit (hsize b.url) ?_ ?_
          · cases call <;> exact SessionEvent.noConfusion
          · intro v hv
            cases call <;> (cases hv; exact hserves)
        · rw [Function.update_of_ne hnc]
          exact hrun.delivers nc b hb

/-- **All sessions of a task.** -/
theorem callReaders_served (hlimit : limit ≤ 4096) (hsize : ∀ url, (origin url).length < 2 ^ 63)
    (hK : Readable w origin K) (call : ReaderCall) (react : ProxyReact) (c : PipeCall)
    (h : Served limit origin K asked x) :
    Served limit origin K asked (x.callReaders w limit task call react c) := by
  have hloop : ∀ (ids : List Nat) (x : MsServer), Served limit origin K asked x →
      Served limit origin K asked
        (ids.foldl (fun x id => x.callReader w limit call (react c id x) id) x) := by
    intro ids
    induction ids with
    | nil => exact fun _ h => h
    | cons reader ids ih =>
      exact fun x h => ih _ (callReader_served hlimit hsize hK call _ reader h)
  unfold callReaders
  split
  · exact h
  · exact hloop _ x h

/-! ## A callback of a pipe -/

/-- What the task with the pipe in hand does, behind which it still carries
    its file. -/
theorem Served.updateHeld (h : Served limit origin (HeldBy origin url task id reqLen) asked x)
    (hf : ∀ t, MsTask.SameReaders t (f t))
    (hin : ∀ t, t.InHand (origin url) id reqLen → (f t).InHand (origin url) id reqLen) :
    Served limit origin (HeldBy origin url task id reqLen) asked (x.updateTask task f) := by
  refine h.updateTask hf (fun t _ hid ht => ?_) fun _ _ ht => ht
  unfold HeldBy at ht ⊢
  rw [if_pos hid] at ht ⊢
  exact ⟨(hf t.task).url.trans ht.1, hin t.task ht.2⟩

theorem Served.putPipe (h : Served limit origin (HeldBy origin url task id reqLen) asked x)
    (p : HttpPipe) : Served limit origin (HeldBy origin url task id reqLen) asked
      (x.updateTask task fun t => t.setPipe id p) :=
  h.updateHeld (fun _ => ⟨rfl, rfl⟩) fun _ ht => ht.setPipe p

/-- What a callback without data and sizes does, if no reader reacts. -/
theorem Served.updateCallback (h : Served limit origin (HeldBy origin url task id reqLen) asked x)
    (c : PipeCall) (hrecv : c.isRecv = false) (hc : c.isSize = false) :
    Served limit origin (HeldBy origin url task id reqLen) asked
      (x.updateTask task fun t => t.callback w (fun _ _ _ => []) id c) :=
  h.updateHeld (fun _ => MsTask.callback_sameReaders c) fun _ ht => ht.callback hrecv hc

theorem closeWith_inHand {t : MsTask} {file : List UInt8} (h : t.InHand file id reqLen)
    (code : Int) : (t.closeWith id code).InHand file id reqLen :=
  MsTask.InHand.closePipe (t := { t with code := if code ≠ 0 then code else t.code })
    ⟨h.intact.same rfl rfl rfl, h.sized⟩

theorem proxyCallback_served (hlimit : limit ≤ 4096) (hsize : ∀ url, (origin url).length < 2 ^ 63)
    (h : Served limit origin (HeldBy origin url task id reqLen) asked x) {c : PipeCall}
    (hrecv : ∀ buf pos, c = .onRecv buf pos → buf <+: (origin url).drop pos)
    (hc : c.isSize = false) :
    Served limit origin (HeldBy origin url task id reqLen) asked
      (x.proxyCallback w limit task id react c) := by
  cases c with
  | onHeader hm => exact h.updateCallback (w := w) (.onHeader hm) rfl rfl
  | onFilesize filesize => cases hc
  | onContentSize pos size => cases hc
  | onRecv buf pos =>
    have hstored := h.updateHeld (fun _ => MsTask.recvStore_sameReaders (w := w) buf pos)
      fun _ ht => ht.recvStore (hrecv buf pos rfl)
    have hcalled := @callReaders_served w limit task _ _ _ _ hlimit hsize heldBy_readable .onRecv
      react (.onRecv buf pos) hstored
    simp only [proxyCallback]
    split
    · exact hcalled
    · exact hcalled.updateHeld (fun _ => MsTask.dispatchPipe_sameReaders) fun _ ht =>
        ht.dispatchPipe
  | onRedirect location => exact h.updateCallback (w := w) (.onRedirect location) rfl rfl
  | onComplete => exact h.updateCallback (w := w) .onComplete rfl rfl
  | onClose code =>
    have hclosed := h.updateHeld (f := fun t => t.closeWith id code) (fun _ => ⟨rfl, rfl⟩)
      fun _ ht => closeWith_inHand ht code
    simp only [proxyCallback]
    split
    · exact hclosed
    · exact callReaders_served hlimit hsize heldBy_readable .onError react _ hclosed

/-- The server takes data of the file from the pipe in hand. -/
theorem serverOwner_takesFile (hlimit : limit ≤ 4096)
    (hsize : ∀ url, (origin url).length < 2 ^ 63) :
    (serverOwner w limit task id react).TakesFile
      (Served limit origin (HeldBy origin url task id reqLen) asked) (origin url) where
  recv x p buf pos hbuf h := by
    simp only [serverOwner]
    split
    · exact h
    · dsimp only
      apply proxyCallback_served hlimit hsize (h.putPipe p)
      · intro buf' pos' heq
        cases heq
        exact hbuf
      · rfl
  other c hrecv hc x p h := by
    simp only [serverOwner]
    split
    · exact h
    · dsimp only
      apply proxyCallback_served hlimit hsize (h.putPipe p)
      · rintro buf pos rfl
        cases hrecv
      · exact hc

/-- The task learns the size, from a response to what the pipe asked for. -/
theorem Served.updateSize (h : Served limit origin (HeldBy origin url task id reqLen) asked x)
    {p : HttpPipe} {reqPos : Nat} {b : Int} (hpos : 0 < (origin url).length)
    (hlen : p.reqLen = reqLen) (hend : reqLen = 0 → b + 1 = (origin url).length) :
    Served limit origin (HeldBy origin url task id reqLen) asked
      ((x.updateTask task fun t => t.setPipe id p).updateTask task fun t =>
        if (t.pipeOf id).reqLen = 0 then t.setFilesize (reqPos + (b - reqPos + 1))
        else t.setContentSize reqPos (b - reqPos + 1)) := by
  refine (h.putPipe p).updateTask (fun t => ?_) (fun t ht hid hheld => ?_) fun _ _ ht => ht
  · split
    · exact MsTask.setFilesize_sameReaders _
    · exact MsTask.setContentSize_sameReaders _ _
  · -- the pipe was put back just now, with the length that it asked for
    have hreq : (t.task.pipeOf id).reqLen = reqLen := by
      rcases mem_modify.mp ht with ⟨t₀, -, -, rfl⟩ | ⟨-, hother⟩
      · simp only [MsTask.setPipe, Function.update_self]
        exact hlen
      · exact absurd hid hother
    unfold HeldBy at hheld ⊢
    rw [if_pos hid] at hheld ⊢
    refine ⟨?_, MsTask.contentSize_inHand hheld.2 hpos hreq hend⟩
    rw [← hheld.1]
    dsimp only
    split
    · exact (MsTask.setFilesize_sameReaders _).url
    · exact (MsTask.setContentSize_sameReaders _ _).url

/-- The sizes of a response of the file. -/
theorem serverOwner_sizes (hlimit : limit ≤ 4096) (hsize : ∀ url, (origin url).length < 2 ^ 63)
    {reqPos : Nat} {b : Int} {hm : HttpMessage}
    (hresponse : MsTask.OriginResponse (origin url).length reqPos b hm)
    (hend : reqLen = 0 → b + 1 = (origin url).length) :
    (serverOwner w limit task id react).PreservesSizes
      (Served limit origin (HeldBy origin url task id reqLen) asked) reqPos reqLen hm := by
  have hfirst := hresponse.nonempty
  have hlast := hresponse.inside
  have hpos : 0 < (origin url).length := by omega
  constructor
  · intro range hrange x p h
    rw [hresponse.total (hsize url) hrange]
    simp only [serverOwner]
    split
    · exact h
    · exact (h.putPipe p).updateHeld (fun _ => MsTask.setFilesize_sameReaders _) fun _ ht =>
        MsTask.setFilesize_inHand ht hpos
  · intro v hv x p hlen h
    rw [hresponse.size (hsize url) hv]
    simp only [serverOwner]
    split
    · exact h
    · exact callReaders_served hlimit hsize heldBy_readable .onContentSize react _
        (h.updateSize hpos hlen hend)

/-! ## Events of pipes -/

/-- What is taken of the origin: a chunk that a pipe in use accepts is one of
    the file of its task. -/
def HonestPipe (origin : List Char → List UInt8) (x : MsServer) (task id : Nat) :
    PipeEvent → Prop
  | .httpChunk hm => ∀ t ∈ x.tasks, t.id = task → (t.task.pipeOf id).closing = false →
      hm.respCode = 200 ∨ hm.respCode = 206 →
        MsTask.HonestResponse (origin t.task.url) (t.task.pipeOf id) hm
  | _ => True

/-- A pipe is taken in hand. -/
theorem Served.inHand (h : Served limit origin (Whole origin) asked x) {t : ServerTask}
    (ht : t ∈ x.tasks) (hid : id < t.task.opened) :
    Served limit origin (HeldBy origin t.task.url t.id id (t.task.pipeOf id).reqLen) asked x := by
  have hwhole : t.task.Intact (origin t.task.url) none := h.carried t ht
  refine { h with carried := fun t' ht' => ?_ }
  unfold HeldBy
  split
  · rename_i hid'
    rw [List.inj_on_of_nodup_map h.registered.ids ht' ht hid']
    exact ⟨rfl, hwhole.take id, hwhole.ranged id hid (by simp)⟩
  · exact h.carried t' ht'

/-- The handler of a pipe of an honest origin keeps what data of the file and
    the sizes of its responses keep. -/
theorem pipeHandler_honest {P : MsServer → Prop} {ev : PipeEvent} {t : ServerTask}
    (h : Served limit origin (Whole origin) asked x) (ht : t ∈ x.tasks)
    (hin : id < t.task.opened) (hev : HonestPipe origin x t.id id ev)
    (htakes : (serverOwner w limit t.id id react).TakesFile P (origin t.task.url))
    (hhands : ∀ reqPos b hm,
      MsTask.OriginResponse (origin t.task.url).length ((reqPos : Nat) : Int) b hm →
        ((t.task.pipeOf id).reqLen = 0 → b + 1 = (origin t.task.url).length) →
          (serverOwner w limit t.id id react).HandsSizes P reqPos (t.task.pipeOf id).reqLen hm)
    (hx : P x) :
    Taken P (origin t.task.url) (t.task.pipeOf id).reqLen
      (pipeHandler (serverOwner w limit t.id id react) ev (x, t.task.pipeOf id)) := by
  have hwhole : t.task.Intact (origin t.task.url) none := h.carried t ht
  apply pipeHandler_onFile ev htakes
  · exact ⟨hx, hwhole.carried id hin (by simp), rfl⟩
  · rintro hm rfl hopen hcode
    have hhonest := hev t ht rfl hopen hcode
    refine ⟨hhonest.body, fun hfirst => ?_⟩
    obtain ⟨b, hresponse, hend⟩ := hhonest.header hfirst
    exact hhands _ b hm hresponse hend

/-- **An event of a pipe.** -/
theorem proxyPipe_served (hlimit : limit ≤ 4096) (hsize : ∀ url, (origin url).length < 2 ^ 63)
    (h : Served limit origin (Whole origin) asked x) {ev : PipeEvent}
    (hev : HonestPipe origin x task id ev) :
    Served limit origin (Whole origin) asked (x.proxyPipe w limit task id ev react) := by
  unfold proxyPipe
  split
  · exact h
  · rename_i mt htask
    split
    · rename_i hin
      obtain ⟨t, hfind, rfl⟩ := Option.map_eq_some_iff.mp htask
      have ht := List.mem_of_find?_eq_some hfind
      obtain rfl : t.id = task := by simpa using List.find?_some hfind
      have htaken := @pipeHandler_honest w limit id origin asked x react _ ev t h ht hin.1 hev
        (serverOwner_takesFile hlimit hsize)
        (fun _ _ _ hresponse hend => (serverOwner_sizes hlimit hsize hresponse hend).hands)
        (h.inHand ht hin.1)
      -- the pipe is given back
      refine htaken.owner.updateTask (fun _ => ⟨rfl, rfl⟩) (fun t' _ hid' ht' => ?_)
        fun t' hid' ht' => ?_
      · unfold HeldBy at ht'
        rw [if_pos hid'] at ht'
        show MsTask.Intact (origin t'.task.url) none _
        rw [ht'.1]
        exact (ht'.2.back htaken.pipe htaken.reqLen).same rfl rfl rfl
      · unfold HeldBy at ht'
        rwa [if_neg hid'] at ht'
    · exact h

end served

end MsServer

end Libms
