import Mathlib
import Libms.Server.Delivery
import Libms.Session.Awake

/-! # No session waits for a cached byte

    Sessions are only called: at their request, when data or a size comes,
    and when bytes have left. This is enough. In every state of the server a
    session with an empty send buffer waits for a byte that its task has not
    got.

    * `Settled`: a session and its task between two events.
    * `HoldsBut`: a property of all sessions, and another one of those of one
      task, which are about to be called.
    * `callReaders_holds`: after the loop over the readers they all have it.
    * `waits_for_uncached`: every run. -/

namespace Libms

open Buckets Runs Text

namespace MsServer

/-! ## Properties of sessions with their tasks -/

/-- The session waits for a byte that is not there, and knows its length. -/
structure Settled (origin : List Char → List UInt8) (t : MsTask) (c : Client) : Prop where
  waiting : c.Waiting t.storage.byteAt
  sized : c.Sized (origin t.url).length t.storage.filesize

/-- As long as no assert has failed the sessions of `task` have the property
    `R`, and all others have `Q`. -/
def HoldsBut (task : Nat) (R Q : MsTask → Client → Prop) (x : MsServer) : Prop :=
  x.aborted = false → ∀ s ∈ x.sessions, ∀ t ∈ x.tasks, t.id = s.task →
    (s.task = task → R t.task (x.clients s.connection)) ∧
      (s.task ≠ task → Q t.task (x.clients s.connection))

/-- All sessions have the property. -/
def Holds (Q : MsTask → Client → Prop) (x : MsServer) : Prop :=
  x.aborted = false → ∀ s ∈ x.sessions, ∀ t ∈ x.tasks, t.id = s.task →
    Q t.task (x.clients s.connection)

/-- The property looks at the url and the storage of the task. -/
def Stored (Q : MsTask → Client → Prop) : Prop :=
  ∀ t t' c, t'.url = t.url → t'.storage = t.storage → Q t c → Q t' c

section holds

variable {w : IntArith} {limit task id : Nat} {origin : List Char → List UInt8}
  {K : ServerTask → Prop} {R R' Q : MsTask → Client → Prop} {asked : Nat → Option Asked}
  {x x' : MsServer} {f : MsTask → MsTask} {url : List Char} {reqLen : Int} {react : ProxyReact}

theorem Holds.but (h : Holds Q x) (task : Nat) : HoldsBut task Q Q x :=
  fun hnone s hs t ht hid => ⟨fun _ => h hnone s hs t ht hid, fun _ => h hnone s hs t ht hid⟩

theorem HoldsBut.holds (h : HoldsBut task Q Q x) : Holds Q x := by
  intro hnone s hs t ht hid
  by_cases htask : s.task = task
  · exact (h hnone s hs t ht hid).1 htask
  · exact (h hnone s hs t ht hid).2 htask

theorem HoldsBut.of_aborted (h : x.aborted = true) : HoldsBut task R Q x := by
  intro hnone
  rw [h] at hnone
  cases hnone

theorem settled_stored : Stored (Settled origin) := by
  intro t t' c hurl hst h
  constructor
  · rw [hst]
    exact h.waiting
  · rw [hurl, hst]
    exact h.sized

/-- The task does its part. -/
theorem HoldsBut.updateTask (h : HoldsBut task R Q x) (hf : ∀ t c, R t c → R' (f t) c) :
    HoldsBut task R' Q (x.updateTask task f) := by
  intro hnone s hs t ht hid
  have hbefore := h (updateTask_running hnone) s hs
  rcases mem_modify.mp ht with ⟨t₀, ht₀, htask, rfl⟩ | ⟨hold, hother⟩
  · exact ⟨fun heq => hf _ _ ((hbefore t₀ ht₀ hid).1 heq),
      fun hne => absurd (hid.symm.trans htask) hne⟩
  · exact ⟨fun heq => absurd (hid.trans heq) hother, fun hne => (hbefore t hold hid).2 hne⟩

theorem HoldsBut.updateSame (h : HoldsBut task R Q x) (hR : Stored R)
    (hf : ∀ t, (f t).url = t.url ∧ (f t).storage = t.storage) :
    HoldsBut task R Q (x.updateTask task f) :=
  h.updateTask fun t c ht => hR t (f t) c (hf t).1 (hf t).2 ht

/-! ## The loop over the readers -/

/-- A reader is called: nobody, as no session has this address, or one
    session. -/
theorem callReader_cases (h : Registered x) (call : ReaderCall) (acts : List MsTask.ReaderAct)
    (reader : Nat) :
    (x.callReader w limit call acts reader = x ∧
        (x.aborted = true ∨ ∀ s ∈ x.sessions, s.id ≠ reader)) ∨
      ∃ s ∈ x.sessions, s.id = reader ∧ x.callReader w limit call acts reader =
        (x.setClient s.connection
          ((x.clients s.connection).step limit (call.client (x.viewOf s.task)))).readerActs w
            s.task s.id ⟨0, fun _ => 0, x.viewOf s.task, acts, []⟩ := by
  unfold callReader
  split
  · rename_i haborted
    exact Or.inl ⟨rfl, Or.inl haborted⟩
  · split
    · rename_i hfind
      refine Or.inl ⟨rfl, Or.inr fun s hs hid => ?_⟩
      exact List.find?_eq_none.mp hfind s hs (decide_eq_true hid)
    · rename_i s hfind
      have hs := List.mem_of_find?_eq_some hfind
      refine Or.inr ⟨s, hs, by simpa using List.find?_some hfind, ?_⟩
      unfold MsServer.callback
      rw [h.findSession hs]

/-- What is left to do of the loop: the sessions that are still to be called
    have `R`, the others have `Q` already. -/
def Pending (R Q : MsTask → Client → Prop) (ids : List Nat) (x : MsServer) : Prop :=
  x.aborted = false → ∀ s ∈ x.sessions, ∀ t ∈ x.tasks, t.id = s.task →
    R t.task (x.clients s.connection) ∧ (s.id ∉ ids → Q t.task (x.clients s.connection))

/-- **One session is called.** -/
theorem Pending.callReader {call : ReaderCall} {reader : Nat} {ids : List Nat}
    {acts : List MsTask.ReaderAct} (hp : Pending R Q (reader :: ids) x)
    (hK : Readable w origin K) (hR : Stored R) (hQ : Stored Q) (hQR : ∀ t c, Q t c → R t c)
    (hcall : ∀ t c r1 r2, t.storage.Intact (origin t.url) →
      Client.Delivers limit (origin t.url) r1 r2 c → R t c →
        Q t (c.step limit (call.client t.view)))
    (h : Served limit origin K asked x) :
    Pending R Q ids (x.callReader w limit call acts reader) := by
  rcases @callReader_cases w limit x h.registered call acts reader with
    ⟨hsame, hnobody⟩ | ⟨s₀, hs₀, hreader, heq⟩
  · rw [hsame]
    intro hnone s hs t ht hid
    have hbefore := hp hnone s hs t ht hid
    rcases hnobody with haborted | hothers
    · rw [haborted] at hnone
      cases hnone
    · refine ⟨hbefore.1, fun hnot => hbefore.2 fun hmem => ?_⟩
      rcases List.mem_cons.mp hmem with hself | hrest
      · exact hothers s hs hself
      · exact hnot hrest
  · rw [heq]
    intro hnone s hs t ht hid
    have hx : x.aborted = false := (Bool.or_eq_false_iff.mp (updateTask_running hnone)).1
    -- the readers' acts leave url and storage as they are
    obtain ⟨t₀, ht₀, hid₀, hurl, hst⟩ : ∃ t₀ ∈ x.tasks, t₀.id = t.id ∧
        t.task.url = t₀.task.url ∧ t.task.storage = t₀.task.storage := by
      rcases mem_modify.mp ht with ⟨t₀, ht₀, -, rfl⟩ | ⟨hold, -⟩
      · exact ⟨t₀, ht₀, rfl, (MsTask.readerActs_sameReaders acts).url,
          MsTask.readerActs_storage acts⟩
      · exact ⟨t, hold, rfl, rfl, rfl⟩
    have hbefore := hp hx s hs t₀ ht₀ (hid₀.trans hid)
    show R t.task (Function.update x.clients s₀.connection _ s.connection) ∧
      (s.id ∉ ids → Q t.task (Function.update x.clients s₀.connection _ s.connection))
    by_cases hself : s.connection = s₀.connection
    · have hss : s = s₀ := List.inj_on_of_nodup_map h.registered.connections hs hs₀ hself
      rw [hself, Function.update_self]
      have hrun := h.running hx
      obtain ⟨a, ha, hurl₀⟩ := Option.map_eq_some_iff.mp
        (hrun.url s hs t₀ ht₀ (hid₀.trans hid))
      have hdelivers := hrun.delivers s.connection a ha
      rw [hurl₀] at hdelivers
      have hcalled := hcall t₀.task (x.clients s.connection) a.r1 a.r2
        (hK.storage t₀ (h.carried t₀ ht₀)) hdelivers hbefore.1
      have hview : x.viewOf s₀.task = t₀.task.view := by
        rw [← hss, ← hid, ← hid₀]
        exact h.registered.viewOf ht₀
      rw [hview, ← hself]
      have hgot := hQ t₀.task t.task _ hurl hst hcalled
      exact ⟨hQR _ _ hgot, fun _ => hgot⟩
    · rw [Function.update_of_ne hself]
      refine ⟨hR _ _ _ hurl hst hbefore.1, fun hnot => hQ _ _ _ hurl hst (hbefore.2 ?_)⟩
      intro hmem
      rcases List.mem_cons.mp hmem with heq | hrest
      · rw [← hreader] at heq
        exact hself (congrArg SessionEntry.connection (h.registered.session_ext hs₀ hs heq))
      · exact hnot hrest

/-- **All sessions of a task are called**, and then they have the property. -/
theorem callReaders_holds {call : ReaderCall} {c : PipeCall} (hlimit : limit ≤ 4096)
    (hsize : ∀ url, (origin url).length < 2 ^ 63) (hK : Readable w origin K) (hR : Stored R)
    (hQ : Stored Q) (hQR : ∀ t c, Q t c → R t c)
    (hcall : ∀ t c r1 r2, t.storage.Intact (origin t.url) →
      Client.Delivers limit (origin t.url) r1 r2 c → R t c →
        Q t (c.step limit (call.client t.view)))
    (h : Served limit origin K asked x) (hbut : HoldsBut task R Q x) :
    Holds Q (x.callReaders w limit task call react c) := by
  have hloop : ∀ (ids : List Nat) (x : MsServer), Served limit origin K asked x →
      Pending R Q ids x → Holds Q
        (ids.foldl (fun x id => x.callReader w limit call (react c id x) id) x) := by
    intro ids
    induction ids with
    | nil => exact fun x _ hp hnone s hs t ht hid => (hp hnone s hs t ht hid).2 List.not_mem_nil
    | cons reader ids ih =>
      exact fun x h hp => ih _ (callReader_served hlimit hsize hK call _ reader h)
        (hp.callReader hK hR hQ hQR hcall h)
  unfold callReaders
  split
  · rename_i hnotask
    intro hnone s hs t ht hid
    refine (hbut hnone s hs t ht hid).2 fun htask => ?_
    have hfound := h.registered.taskAt ht
    rw [hid, htask, hnotask] at hfound
    cases hfound
  · rename_i mt htask
    apply hloop _ x h
    intro hnone s hs t ht hid
    obtain ⟨hown, hothers⟩ := hbut hnone s hs t ht hid
    by_cases hmine : s.task = task
    · refine ⟨hown hmine, fun hnot => absurd ?_ hnot⟩
      -- the session's reader is in the list of the task
      obtain ⟨t₁, ht₁, hid₁, hmem⟩ := mem_placed.mp
        (h.registered.placed.mem_iff.mpr (session_owner hs))
      have hfound := h.registered.taskAt ht₁
      rw [hid₁, hmine, htask] at hfound
      cases hfound
      exact hmem
    · exact ⟨hQR _ _ (hothers hmine), fun _ => hothers hmine⟩

/-! ## Callbacks of a pipe -/

/-- The task does something that its sessions do not notice. -/
theorem Holds.updateSame (h : Holds Q x) (hQ : Stored Q)
    (hf : ∀ t, (f t).url = t.url ∧ (f t).storage = t.storage) : Holds Q (x.updateTask task f) :=
  ((h.but task).updateSame hQ hf).holds

theorem onHeader_same (t : MsTask) (hm : HttpMessage) :
    (t.onHeader hm).url = t.url ∧ (t.onHeader hm).storage = t.storage := by
  unfold MsTask.onHeader
  split
  · exact ⟨rfl, rfl⟩
  · exact ⟨rfl, rfl⟩

theorem onPipeComplete_same (t : MsTask) :
    (t.onPipeComplete w id).url = t.url ∧ (t.onPipeComplete w id).storage = t.storage :=
  ⟨(MsTask.dispatchReaders_sameReaders (t := t.closePipe id) ⟨rfl, rfl⟩).url,
    (MsTask.storage_readerInvariant fun st => st = t.storage).dispatchReaders (t := t.closePipe id)
      rfl⟩

theorem dispatchPipe_same (t : MsTask) :
    (t.dispatchPipe id).url = t.url ∧ (t.dispatchPipe id).storage = t.storage :=
  ⟨MsTask.dispatchPipe_sameReaders.url, MsTask.dispatchPipe_pruned.storage⟩

/-- No byte comes or goes with the size of a response. -/
theorem setFilesize_byteAt (t : MsTask) (filesize : Int) :
    (t.setFilesize filesize).storage.byteAt = t.storage.byteAt := by
  simp only [MsTask.setFilesize]
  split
  · rfl
  · rename_i st hst
    exact MemStorage.byteAt_of_pieces (MemStorage.setFilesize_spec hst).2.2.2

theorem setContentSize_byteAt (t : MsTask) (pos size : Int) :
    (t.setContentSize pos size).storage.byteAt = t.storage.byteAt := by
  unfold MsTask.setContentSize
  split
  · rfl
  · rename_i st hst
    exact MemStorage.setContentSize_byteAt hst

/-- With data a session that knows its length settles. -/
theorem recv_settled (hlimit : limit ≤ 4096) (hpos : 0 < limit)
    (hsize : ∀ url, (origin url).length < 2 ^ 63) {t : MsTask} {c : Client} {r1 r2 : Int}
    (hst : t.storage.Intact (origin t.url)) (h : Client.Delivers limit (origin t.url) r1 r2 c)
    (hsized : c.Sized (origin t.url).length t.storage.filesize) :
    Settled origin t (c.step limit (ReaderCall.client t.view .onRecv)) := by
  rw [← ReaderCall.event_client]
  exact ⟨h.recv_waiting (MsTask.view_serves hst) (TaskView.ofStorage_shows hst) hpos hlimit
    (hsize t.url) hsized, hsized.step (v := t.view) (Or.inl rfl)⟩

/-- With a size a session that waits settles. -/
theorem contentSize_settled {t : MsTask} {c : Client} (hst : t.storage.Intact (origin t.url))
    (h : c.Waiting t.storage.byteAt) :
    Settled origin t (c.step limit (ReaderCall.client t.view .onContentSize)) := by
  rw [← ReaderCall.event_client]
  exact ⟨h.step (Or.inl rfl), Client.contentSize_sized hst.size⟩

/-- An error leaves it settled. -/
theorem error_settled {t : MsTask} {c : Client} (h : Settled origin t c) :
    Settled origin t (c.step limit (ReaderCall.client t.view .onError)) := by
  rw [← ReaderCall.event_client]
  exact ⟨h.waiting.step (v := t.view) (Or.inr rfl), h.sized.step (v := t.view) (Or.inr rfl)⟩

/-- The invariant while a pipe is in the hands of its handler. -/
structure Attended (limit : Nat) (origin : List Char → List UInt8) (url : List Char)
    (task id : Nat) (reqLen : Int) (asked : Nat → Option Asked) (x : MsServer) : Prop where
  served : Served limit origin (HeldBy origin url task id reqLen) asked x
  settled : Holds (Settled origin) x

theorem proxyCallback_attended (hlimit : limit ≤ 4096) (hpos : 0 < limit)
    (hsize : ∀ url, (origin url).length < 2 ^ 63)
    (h : Attended limit origin url task id reqLen asked x) {c : PipeCall}
    (hrecv : ∀ buf pos, c = .onRecv buf pos → buf <+: (origin url).drop pos)
    (hc : c.isSize = false) :
    Attended limit origin url task id reqLen asked (x.proxyCallback w limit task id react c) := by
  refine ⟨proxyCallback_served hlimit hsize h.served hrecv hc, ?_⟩
  cases c with
  | onHeader hm => exact h.settled.updateSame settled_stored fun t => onHeader_same t hm
  | onFilesize filesize => cases hc
  | onContentSize pos size => cases hc
  | onRecv buf pos =>
    have hstored := h.served.updateHeld (fun _ => MsTask.recvStore_sameReaders (w := w) buf pos)
      fun _ ht => ht.recvStore (hrecv buf pos rfl)
    -- the sessions of this task know their lengths, but may now be behind
    have hbut : HoldsBut task (fun t c => c.Sized (origin t.url).length t.storage.filesize)
        (Settled origin) (x.updateTask task fun t => t.recvStore w buf pos) := by
      refine (h.settled.but task).updateTask fun t c hts => ?_
      rw [(MsTask.recvStore_sameReaders buf pos).url,
        (MsTask.recvStore_sizeKept w t buf pos).filesize]
      exact hts.sized
    have hcalled : Holds (Settled origin)
        ((x.updateTask task fun t => t.recvStore w buf pos).callReaders w limit task .onRecv react
          (.onRecv buf pos)) := by
      refine callReaders_holds hlimit hsize heldBy_readable ?_ settled_stored
        (fun _ _ hts => hts.sized)
        (fun _ _ _ _ hst hd hs => recv_settled hlimit hpos hsize hst hd hs) hstored hbut
      intro t t' c hurl hst hs
      rw [hurl, hst]
      exact hs
    simp only [proxyCallback]
    split
    · exact hcalled
    · exact hcalled.updateSame settled_stored dispatchPipe_same
  | onRedirect location => exact h.settled.updateSame settled_stored fun _ => ⟨rfl, rfl⟩
  | onComplete => exact h.settled.updateSame settled_stored onPipeComplete_same
  | onClose code =>
    have hclosed : Holds (Settled origin) (x.updateTask task fun t => t.closeWith id code) :=
      h.settled.updateSame settled_stored fun _ => ⟨rfl, rfl⟩
    have hheld := h.served.updateHeld (f := fun t => t.closeWith id code) (fun _ => ⟨rfl, rfl⟩)
      fun _ ht => closeWith_inHand ht code
    simp only [proxyCallback]
    split
    · exact hclosed
    · exact callReaders_holds hlimit hsize heldBy_readable settled_stored settled_stored
        (fun _ _ hts => hts) (fun _ _ _ _ _ _ hts => error_settled hts) hheld (hclosed.but task)

/-- The pipe is put back, and the server handles its callback. -/
theorem Attended.putPipe (h : Attended limit origin url task id reqLen asked x) (p : HttpPipe) :
    Attended limit origin url task id reqLen asked (x.updateTask task fun t => t.setPipe id p) :=
  ⟨h.served.putPipe p, h.settled.updateSame settled_stored fun _ => ⟨rfl, rfl⟩⟩

theorem serverOwner_attended (hlimit : limit ≤ 4096) (hpos : 0 < limit)
    (hsize : ∀ url, (origin url).length < 2 ^ 63) :
    (serverOwner w limit task id react).TakesFile
      (Attended limit origin url task id reqLen asked) (origin url) where
  recv x p buf pos hbuf h := by
    simp only [serverOwner]
    split
    · exact h
    · dsimp only
      apply proxyCallback_attended hlimit hpos hsize (h.putPipe p)
      · intro buf' pos' heq
        cases heq
        exact hbuf
      · rfl
  other c hrecv hc x p h := by
    simp only [serverOwner]
    split
    · exact h
    · dsimp only
      apply proxyCallback_attended hlimit hpos hsize (h.putPipe p)
      · rintro buf pos rfl
        cases hrecv
      · exact hc

/-- **The sizes** come in two callbacks. In between the sessions wait, but do
    not know their lengths yet. -/
theorem serverOwner_hands (hlimit : limit ≤ 4096) (hsize : ∀ url, (origin url).length < 2 ^ 63)
    {reqPos : Nat} {b : Int} {hm : HttpMessage}
    (hresponse : MsTask.OriginResponse (origin url).length reqPos b hm)
    (hend : reqLen = 0 → b + 1 = (origin url).length) :
    (serverOwner w limit task id react).HandsSizes
      (Attended limit origin url task id reqLen asked) reqPos reqLen hm := by
  have hfirst := hresponse.nonempty
  have hlast := hresponse.inside
  have hfile : 0 < (origin url).length := by omega
  have hsizes : (serverOwner w limit task id react).PreservesSizes
      (Served limit origin (HeldBy origin url task id reqLen) asked) reqPos reqLen hm :=
    serverOwner_sizes hlimit hsize hresponse hend
  rintro ⟨x, p⟩ hreqPos hreqLen h
  refine ⟨hsizes.hands _ hreqPos hreqLen h.served, ?_⟩
  have hrange := hresponse.total (hsize url) hresponse.range
  have hlength := hresponse.size (hsize url) hresponse.length
  simp only [contentSizes, hresponse.range, hresponse.length, hrange, hlength]
  rw [if_pos (by exact_mod_cast hfile)]
  -- the size of the file
  have hsized : Served limit origin (HeldBy origin url task id reqLen) asked
      (deliver (serverOwner w limit task id react) (.onFilesize (origin url).length) (x, p)).1 := by
    have hfilesize := hsizes.filesize _ hresponse.range x p h.served
    rw [hrange] at hfilesize
    exact hfilesize
  have hwaiting : HoldsBut task (fun t c => c.Waiting t.storage.byteAt) (Settled origin)
      (deliver (serverOwner w limit task id react) (.onFilesize (origin url).length) (x, p)).1 := by
    simp only [deliver, serverOwner]
    split
    · rename_i haborted
      exact .of_aborted haborted
    · show HoldsBut task _ _ ((x.updateTask task fun t => t.setPipe id p).updateTask task
        fun t => t.setFilesize (origin url).length)
      refine ((h.putPipe p).settled.but task).updateTask fun t c hts => ?_
      rw [setFilesize_byteAt]
      exact hts.waiting
  generalize hdeliver : deliver (serverOwner w limit task id react)
    (.onFilesize (origin url).length) (x, p) = y at hsized hwaiting ⊢
  have hlen : y.2.reqLen = reqLen := by
    rw [← hdeliver, deliver_reqLen]
    exact hreqLen
  have hpos : y.2.reqPos = reqPos := by
    rw [← hdeliver, deliver_reqPos]
    exact hreqPos
  -- and the length of the response
  simp only [deliver, serverOwner, hpos]
  split
  · rename_i haborted
    exact HoldsBut.holds (HoldsBut.of_aborted haborted : HoldsBut task _ _ _)
  · simp only [proxyCallback]
    refine callReaders_holds (R := fun t c => c.Waiting t.storage.byteAt) hlimit hsize
      heldBy_readable ?_ settled_stored (fun _ _ hts => hts.waiting)
      (fun _ _ _ _ hst _ hs => contentSize_settled hst hs) (hsized.updateSize hfile hlen hend) ?_
    · intro t t' c _ hst hs
      rw [hst]
      exact hs
    · refine HoldsBut.updateTask (R := fun t c => c.Waiting t.storage.byteAt)
        (hwaiting.updateTask fun t c hs => hs) fun t c hs => ?_
      split
      · rw [setFilesize_byteAt]
        exact hs
      · rw [setContentSize_byteAt]
        exact hs

/-- **An event of a pipe.** -/
theorem proxyPipe_holds (hlimit : limit ≤ 4096) (hpos : 0 < limit)
    (hsize : ∀ url, (origin url).length < 2 ^ 63)
    (h : Served limit origin (Whole origin) asked x) (hsettled : Holds (Settled origin) x)
    {ev : PipeEvent} (hev : HonestPipe origin x task id ev) :
    Holds (Settled origin) (x.proxyPipe w limit task id ev react) := by
  unfold proxyPipe
  split
  · exact hsettled
  · rename_i mt htask
    split
    · rename_i hin
      obtain ⟨t, hfind, rfl⟩ := Option.map_eq_some_iff.mp htask
      have ht := List.mem_of_find?_eq_some hfind
      obtain rfl : t.id = task := by simpa using List.find?_some hfind
      have htaken := @pipeHandler_honest w limit id origin asked x react _ ev t h ht hin.1 hev
        (serverOwner_attended hlimit hpos hsize)
        (fun _ _ _ hresponse hend => serverOwner_hands hlimit hsize hresponse hend)
        ⟨h.inHand ht hin.1, hsettled⟩
      exact htaken.owner.settled.updateSame settled_stored fun _ => ⟨rfl, rfl⟩
    · exact hsettled

/-! ## Events of the server -/

/-- A client without a session has nothing to wait for. -/
theorem settled_over {t : MsTask} {c : Client} (h : c.live = false) : Settled origin t c where
  waiting := .of_over h
  sized _ hlive := by
    rw [h] at hlive
    cases hlive

/-- A task that was there still has what its sessions wait for. -/
theorem Carried.settled (h : Carried origin x x') (hx : Registered x) {s : SessionEntry}
    (hs : s ∈ x.sessions) {c : Client}
    (hc : ∀ t ∈ x.tasks, t.id = s.task → Settled origin t.task c) :
    ∀ t' ∈ x'.tasks, t'.id = s.task → Settled origin t'.task c := by
  intro t' ht' hid
  obtain ⟨t, ht, hid₀⟩ := List.mem_map.mp (hx.mem_task (session_owner hs))
  obtain ⟨hurl, hst⟩ := h.same hx ht ht' (hid.trans hid₀.symm)
  exact settled_stored _ _ c hurl hst (hc t ht hid₀)

/-- The sessions that are left settle, if those that have moved do. -/
theorem Holds.carried (h : Holds (Settled origin) x) (hlive : x.aborted = false)
    (hx : Registered x) (hcarried : Carried origin x x') (hsub : x'.sessions ⊆ x.sessions)
    (hmoved : ∀ s ∈ x.sessions, ∀ t ∈ x.tasks, t.id = s.task →
      Settled origin t.task (x.clients s.connection) →
        Settled origin t.task (x'.clients s.connection)) : Holds (Settled origin) x' :=
  fun _ s hs => hcarried.settled hx (hsub hs) fun t ht hid =>
    hmoved s (hsub hs) t ht hid (h hlive s (hsub hs) t ht hid)

/-- **A stream request.** -/
theorem streamHandler_holds (hlimit : limit ≤ 4096) (hpos : 0 < limit)
    (hsize : ∀ url, (origin url).length < 2 ^ 63)
    (h : Served limit origin (Whole origin) asked x) (hsettled : Holds (Settled origin) x)
    (hlive : x.aborted = false) {nc : Nat} (method : Method) (hm : HttpRequest) (o : Outside)
    (hopen : (x.clients nc).connection.sendAndClose = false)
    (hstart : ∀ r1 r2, requestedRange hm.rangeHdr = some (r1, r2) → 0 ≤ r1) :
    Holds (Settled origin)
      (x.streamHandler w limit nc method hm (o.ambient (Proxy.requestView nc hm o x))) := by
  intro hnone
  have hx := h.registered
  obtain ⟨hdropped, hfree⟩ := hx.dropSession o.now nc
  obtain ⟨hothers, hconnection, hsub, -⟩ := @dropSession_clients x o.now nc
  have hfound := findOrCreateTask_found hdropped o.clock (x.streamUrl hm)
  obtain ⟨t₀, ht₀, hid₀, -, hst₀, hview⟩ := h.requested nc hm o
  obtain ⟨r1, r2, id, hrange, hsessions, hclients⟩ := streamHandler_parts hx hnone
  simp only [Outside.ambient_now, Outside.ambient_clock, Outside.ambient_view] at hsessions hclients
  intro s hs t ht hid
  rw [hsessions] at hs
  rw [hclients]
  rcases List.mem_append.mp hs with hold | hnew
  · -- a session of another connection
    have hne : s.connection ≠ nc := fun heq => hfree (List.mem_map.mpr ⟨s, hold, heq⟩)
    rw [Function.update_of_ne hne, hothers _ hne]
    exact (streamHandler_carried h.carried hx method hm _).settled hx (hsub hold)
      (fun t' ht' hid' => hsettled hlive s (hsub hold) t' ht' hid') t ht hid
  · -- the new session, after its first transfer
    obtain rfl := List.mem_singleton.mp hnew
    have hkept : Carried origin
        ((x.dropSession o.now nc).findOrCreateTask o.clock (x.streamUrl hm)).1
        (x.streamHandler w limit nc method hm (o.ambient (Proxy.requestView nc hm o x))) :=
      openSession_carried (findOrCreateTask_carried (dropSession_carried h.carried o.now nc).whole
        hdropped o.clock (x.streamUrl hm)).whole method hm.rangeHdr _
    obtain ⟨hurl, hst⟩ := hkept.same hfound.registered ht₀ ht (hid.trans hid₀.symm)
    apply settled_stored t₀.task t.task _ hurl hst
    rw [Function.update_self, hview]
    suffices hopened : Client.Waiting t₀.task.storage.byteAt _ ∧ Client.Sized _ _ _ from
      ⟨hopened.1, hopened.2⟩
    exact Client.openSession_waiting (MsTask.view_serves hst₀) (TaskView.ofStorage_shows hst₀) hpos
      hlimit (hsize _) (hconnection ▸ hopen) hrange (hstart r1 r2 hrange)

/-- **Bytes leave.** -/
theorem sendHandler_holds (hlimit : limit ≤ 4096) (hpos : 0 < limit)
    (hsize : ∀ url, (origin url).length < 2 ^ 63)
    (h : Served limit origin (Whole origin) asked x) (hsettled : Holds (Settled origin) x)
    (hlive : x.aborted = false) {nc : Nat} (n : Nat) (o : Outside) :
    Holds (Settled origin)
      (x.sendHandler w limit nc n (o.ambient (Proxy.sessionView nc x))) := by
  by_cases hn : 0 < n ∧ n ≤ (x.clients nc).connection.sendMbuf.length
  · obtain ⟨hsub, hothers, hclient⟩ := @sendHandler_parts w limit nc x n
      (o.ambient (Proxy.sessionView nc x)) hn
    refine hsettled.carried hlive h.registered (sendHandler_carried h.carried n _) hsub ?_
    intro s hs t ht hid hbefore
    by_cases hnc : s.connection = nc
    · have hrun := h.running hlive
      rw [hnc] at hbefore ⊢
      rcases hclient with hset | ⟨-, hset⟩
      · obtain ⟨a, ha, hurl⟩ := Option.map_eq_some_iff.mp (hrun.url s hs t ht hid)
        have hst := whole_readable.storage (w := w) t (h.carried t ht)
        have hdelivers := hrun.delivers nc a (hnc ▸ ha)
        rw [hurl] at hdelivers
        have hview : Proxy.sessionView nc x = t.task.view := by
          unfold Proxy.sessionView
          rw [← hnc, h.registered.findSession hs]
          dsimp only
          rw [← hid]
          exact h.registered.viewOf ht
        have hopen : (x.clients nc).live = true :=
          (hrun.linked.live nc).mpr (List.mem_map.mpr ⟨s, hs, hnc⟩)
        have hfault := hrun.linked.fault nc
        rw [hset, Outside.ambient_view, hview]
        exact ⟨hdelivers.sent_waiting (MsTask.view_serves hst) (TaskView.ofStorage_shows hst) hpos
          hlimit (hsize _) hbefore.sized hn hfault hopen,
          hdelivers.sent_sized hbefore.sized hn.2 hn.1 hfault hopen⟩
      · rw [hset]
        exact settled_over rfl
    · rw [hothers _ hnc]
      exact hbefore
  · have hsame : x.sendHandler w limit nc n (o.ambient (Proxy.sessionView nc x)) = x := if_neg hn
    rw [hsame]
    exact hsettled

end holds

/-! ## Runs -/

section runs

variable {w : IntArith} {limit : Nat} {origin : List Char → List UInt8} {p : Proxy}

/-- **Step lemma.** -/
theorem step_holds (hlimit : limit ≤ 4096) (hpos : 0 < limit)
    (hsize : ∀ url, (origin url).length < 2 ^ 63)
    (h : Served limit origin (Whole origin) p.asked p.server)
    (hsettled : Holds (Settled origin) p.server) {e : ProxyEvent} (hfair : Fair origin p e) :
    Holds (Settled origin) (p.step w limit e).server := by
  unfold Proxy.step
  split
  · exact hsettled
  · rename_i haborted
    have hlive : p.server.aborted = false := by simpa using haborted
    have hx := h.registered
    cases e with
    | request nc hm o =>
      cases hstream : Proxy.streams hm with
      | false =>
        simp only [Fair, hstream, Bool.false_eq_true, if_false] at hfair
        have haside := @requestHandler_aside w limit nc origin p.server h.carried hx hm hstream
          (o.ambient (Proxy.requestView nc hm o p.server))
        refine hsettled.carried hlive hx haside.carried (fun _ hs => haside.beside.sessions ▸ hs) ?_
        intro s _ t _ _ hbefore
        by_cases hnc : s.connection = nc
        · rw [hnc]
          exact settled_over (haside.beside.live.trans hfair)
        · rw [haside.beside.others _ hnc]
          exact hbefore
      | true =>
        simp only [Fair, hstream, if_true] at hfair
        have hpath : hasPrefix hm.uri "/stream/".toList = true := hstream
        have habort : Holds (Settled origin) p.server.abort := fun hnone => by cases hnone
        have hmethod : ∀ method, Holds (Settled origin)
            (p.server.streamHandler w limit nc method hm
              (o.ambient (Proxy.requestView nc hm o p.server))) := fun method =>
          streamHandler_holds hlimit hpos hsize h hsettled hlive method hm o hfair.1 hfair.2
        show Holds (Settled origin) (p.server.requestHandler w limit nc hm _)
        unfold MsServer.requestHandler
        rw [if_pos hpath]
        cases hm.method with
        | get => exact hmethod .get
        | head => exact hmethod .head
        | post => exact habort
        | delete => exact habort
        | other => exact habort
    | send nc n o => exact sendHandler_holds hlimit hpos hsize h hsettled hlive n o
    | close nc o =>
      obtain ⟨hothers, -, hsub, -⟩ := @dropSession_clients p.server o.now nc
      refine hsettled.carried hlive hx (closeHandler_carried h.carried _) hsub ?_
      intro s _ t _ _ hbefore
      show Settled origin t.task
        (Function.update (p.server.dropSession o.now nc).clients nc acceptedClient s.connection)
      by_cases hnc : s.connection = nc
      · rw [hnc, Function.update_self]
        exact settled_over rfl
      · rw [Function.update_of_ne hnc]
        rw [hothers _ hnc]
        exact hbefore
    | pipe task id ev react => exact proxyPipe_holds hlimit hpos hsize h hsettled hfair
    | generate url =>
      show Holds (Settled origin) (p.server.generateResource url)
      unfold generateResource
      split
      · exact hsettled
      · exact hsettled
    | remove id => exact hsettled
    | stop o =>
      have hclean := removeTaskIfNeed_cleaned hx o.clock 0
      refine hsettled.carried hlive hx (removeTaskIfNeed_carried h.carried hx o.clock 0)
        (fun s hs => hclean.sessions ▸ hs) ?_
      intro s _ t _ _ hbefore
      show Settled origin t.task ((p.server.removeTaskIfNeed o.clock 0).clients s.connection)
      rw [hclean.clients]
      exact hbefore

end runs

end MsServer

open MsServer in
/-- **No session waits for a cached byte.** In every fair run of a server (its
    pipes bring the files of their urls, ranges start at an offset, and no
    connection is used for another request beside its session, or for a
    stream while it is about to be closed), as long as no assert has failed:
    a session that got no error reply, is not closing and has nothing in its
    send buffer needs a byte that its task has not got. Every other session
    moves on when its bytes have left. -/
theorem waits_for_uncached (w : IntArith) (platform : Platform)
    (origin : List Char → List UInt8) (hsize : ∀ url, (origin url).length < 2 ^ 63)
    (events : List ProxyEvent)
    (hrun : Along (Proxy.step w platform.sendBufLimit) (Fair origin) Proxy.init events) :
    let p := run (Proxy.step w platform.sendBufLimit) Proxy.init events
    p.server.aborted = false → ∀ s ∈ p.server.sessions, ∀ t ∈ p.server.tasks, t.id = s.task →
      let c := p.server.clients s.connection
      c.log.errorBytes = 0 → c.connection.sendAndClose = false → c.connection.sendMbuf = [] →
        t.task.storage.byteAt (Client.nextOffset c.session).toNat = none := by
  intro p hnone s hs t ht hid c herror hopen hempty
  have hawake := run_invariant
    (P := fun p : Proxy => Served platform.sendBufLimit origin (MsServer.Whole origin)
      p.asked p.server ∧ Holds (Settled origin) p.server)
    (fun _ _ h hfair => ⟨step_served platform.sendBufLimit_le hsize h.1 hfair,
      step_holds platform.sendBufLimit_le platform.sendBufLimit_pos hsize h.1 h.2 hfair⟩)
    ⟨init_served platform.sendBufLimit origin, fun _ _ hs => absurd hs List.not_mem_nil⟩ hrun
  have hlinked := (hawake.1.running hnone).linked
  have hlive : c.live = true := (hlinked.live s.connection).mpr (List.mem_map.mpr ⟨s, hs, rfl⟩)
  exact (hawake.2 hnone s hs t ht hid).waiting (hlinked.fault s.connection) hlive herror hopen
    hempty

/-- Two clients ask for a file of 16 KiB and one byte, the first one for the
    last byte, and this byte comes. Then the head of the second answer leaves. -/
def lastByteFirst : List ProxyEvent :=
  [.request 7 ⟨.get, "/stream/a".toList, ['v'], [], some "bytes=16384-".toList⟩ quiet,
    .request 8 ⟨.get, "/stream/a".toList, ['v'], [], none⟩ quiet,
    .pipe 0 0 (.httpChunk (MsTask.answer 16384 16384 16385 [9])) fun _ _ _ => [],
    .send 8 185 quiet]

/-- That file. -/
def lastByteFile : List UInt8 := List.replicate 16384 0 ++ [9]

theorem lastByteFile_length : lastByteFile.length = 16385 := by
  rw [lastByteFile, List.length_append, List.length_replicate, List.length_singleton]

theorem lastByteFile_drop : lastByteFile.drop 16384 = [9] := List.drop_left' List.length_replicate

theorem lastByteFirst_fair :
    Along (Proxy.step exactInt Platform.desktop.sendBufLimit) (MsServer.Fair fun _ => lastByteFile)
      Proxy.init lastByteFirst := by
  refine ⟨⟨rfl, fun r1 r2 h => ?_⟩, ⟨by decide +kernel, fun r1 r2 h => ?_⟩,
    fun t ht hid hopen hcode => ?_, trivial, trivial⟩
  · cases h
    decide
  · cases h
    decide
  · -- the pipe as the byte comes
    have hpipe : ∀ t ∈ (run (Proxy.step exactInt Platform.desktop.sendBufLimit) Proxy.init
        (lastByteFirst.take 2)).server.tasks, (t.task.pipeOf 0).pos = 16384 ∧
          (t.task.pipeOf 0).buf = [] ∧ (t.task.pipeOf 0).reqPos = 16384 := by decide +kernel
    obtain ⟨hpos, hbuf, hreq⟩ := hpipe t ht
    constructor
    · unfold HttpPipe.Continues
      rw [hpos, hbuf]
      show [9] <+: lastByteFile.drop 16384
      rw [lastByteFile_drop]
    · intro _
      rw [hreq, lastByteFile_length]
      exact ⟨16384, ⟨rfl, rfl, rfl, by decide, by decide⟩, fun _ => rfl⟩

/-- The second client waits for the first byte, while the last one is there. -/
theorem waits_for_uncached_last :
    let p := run (Proxy.step exactInt Platform.desktop.sendBufLimit) Proxy.init lastByteFirst
    ∃ t ∈ p.server.tasks, t.task.storage.byteAt 16384 = some 9 ∧
      t.task.storage.byteAt (Client.nextOffset (p.server.clients 8).session).toNat = none := by
  dsimp only
  have hcached : (run (Proxy.step exactInt Platform.desktop.sendBufLimit) Proxy.init
      lastByteFirst).server.tasks.map (fun t => (t.id, t.task.storage.byteAt 16384)) =
        [(0, some 9)] := by decide +kernel
  obtain ⟨t, ht, hseen⟩ := List.mem_map.mp (hcached ▸ List.mem_singleton_self (0, some 9))
  obtain ⟨hid, hlast⟩ := Prod.mk.inj hseen
  refine ⟨t, ht, hlast, ?_⟩
  have huncached := waits_for_uncached exactInt .desktop (fun _ => lastByteFile)
    (fun _ => lastByteFile_length.trans_lt (by decide)) _ lastByteFirst_fair (by decide +kernel)
    ⟨2, 8, 0⟩ (by decide +kernel) t ht hid (by decide +kernel) (by decide +kernel)
    (by decide +kernel)
  dsimp only at huncached
  exact huncached

end Libms
