import Mathlib
import Libms.Server.Carried

/-! # From the origin to the clients

    The whole server: requests come and go on any number of connections,
    tasks are shared, evicted, closed and made again, and the pipes of all
    tasks bring their chunks in any order.

    * `Fair`: what is taken of the outside. Chunks are those of the origin,
      a range begins at an offset, and a connection is not used for something
      else while it is being answered.
    * `step_served`: one event.
    * `served_from_origin`: over every run, each client that was not refused
      gets the bytes that it has asked for, and all of them once its session
      has closed itself. -/

namespace Libms

open Buckets Runs

namespace MsServer

section delivery

variable {w : IntArith} {limit nc task : Nat} {origin : List Char → List UInt8}
  {asked : Nat → Option Asked} {x x' : MsServer}

/-! ## A stream request -/

/-- What is left of a connection whose session is dropped. -/
theorem dropSession_clients (now : ℚ) (nc : Nat) :
    (∀ nc', nc' ≠ nc → (x.dropSession now nc).clients nc' = x.clients nc') ∧
      ((x.dropSession now nc).clients nc).connection = (x.clients nc).connection ∧
      (x.dropSession now nc).sessions ⊆ x.sessions ∧
      (x.dropSession now nc).next = x.next := by
  unfold dropSession
  split
  · rename_i s hfind
    obtain ⟨-, rfl⟩ := findSession_mem hfind
    refine ⟨fun nc' hne => Function.update_of_ne hne _ _, ?_, fun s' hs' => ?_, rfl⟩
    · show (Function.update x.clients s.connection _ s.connection).connection = _
      rw [Function.update_self]
    · exact List.mem_of_mem_filter hs'
  · exact ⟨fun _ _ => rfl, rfl, fun _ hs => hs, rfl⟩

/-- A session is opened, unless the assert of `ms_session_open` fails. -/
theorem openSession_parts {method : Method} {rangeHdr : Option (List Char)} {e : Ambient}
    (hrunning : (x.openSession w limit nc task method rangeHdr e).aborted = false) :
    ∃ r1 r2, requestedRange rangeHdr = some (r1, r2) ∧
      (x.openSession w limit nc task method rangeHdr e).sessions =
        x.sessions ++ [⟨x.next, nc, task⟩] ∧
      (x.openSession w limit nc task method rangeHdr e).clients =
        Function.update x.clients nc
          ((((x.clients nc).openSession task method r1 r2 e.view).tryTransfer limit
            e.view).closeIfNeed e.view) := by
  unfold MsServer.openSession at hrunning ⊢
  split at hrunning
  · cases hrunning
  · rename_i r1 r2 hrange
    exact ⟨r1, r2, hrange, rfl, rfl⟩

theorem openSession_carried (hx : ∀ t ∈ x.tasks, Whole origin t) (method : Method)
    (rangeHdr : Option (List Char)) (e : Ambient) :
    Carried origin x (x.openSession w limit nc task method rangeHdr e) := by
  unfold MsServer.openSession
  split
  · exact .of_tasks hx rfl (Nat.le_refl _)
  · rename_i r1 r2 _
    have hentered : Carried origin x (({ x with
        sessions := x.sessions ++ [⟨x.next, nc, task⟩]
        next := x.next + 1 } : MsServer).updateTask task fun t =>
          t.addReader w ⟨x.next, r1.toNat, 0⟩) := addReader_carried hx rfl (Nat.le_succ _)
    exact (hentered.setClient nc _).readerActs x.next e

/-- The same for the task of the url that is asked for. -/
theorem streamHandler_parts (h : Registered x) {method : Method} {hm : HttpRequest} {e : Ambient}
    (hrunning : (x.streamHandler w limit nc method hm e).aborted = false) :
    ∃ r1 r2 id, requestedRange hm.rangeHdr = some (r1, r2) ∧
      (x.streamHandler w limit nc method hm e).sessions = (x.dropSession e.now nc).sessions ++
        [⟨id, nc, ((x.dropSession e.now nc).findOrCreateTask e.clock (x.streamUrl hm)).2⟩] ∧
      (x.streamHandler w limit nc method hm e).clients =
        Function.update (x.dropSession e.now nc).clients nc
          (((((x.dropSession e.now nc).clients nc).openSession
            ((x.dropSession e.now nc).findOrCreateTask e.clock (x.streamUrl hm)).2 method r1 r2
              e.view).tryTransfer limit e.view).closeIfNeed e.view) := by
  have hfound := findOrCreateTask_found (h.dropSession e.now nc).1 e.clock (x.streamUrl hm)
  obtain ⟨r1, r2, hrange, hsessions, hclients⟩ := openSession_parts hrunning
  rw [hfound.sessions] at hsessions
  rw [hfound.clients] at hclients
  exact ⟨r1, r2, _, hrange, hsessions, hclients⟩

theorem streamHandler_carried (hx : ∀ t ∈ x.tasks, Whole origin t) (h : Registered x)
    (method : Method) (hm : HttpRequest) (e : Ambient) :
    Carried origin x (x.streamHandler w limit nc method hm e) := by
  have hdropped := dropSession_carried hx e.now nc
  have hfound := findOrCreateTask_carried hdropped.whole (h.dropSession e.now nc).1 e.clock
    (x.streamUrl hm)
  exact (hdropped.trans hfound).trans (openSession_carried hfound.whole method hm.rangeHdr e)

/-- What a stream request finds: the task of its url, with what the storage
    has of the file. -/
theorem Served.requested (h : Served limit origin (Whole origin) asked x) (nc : Nat)
    (hm : HttpRequest) (o : Outside) :
    let found := (x.dropSession o.now nc).findOrCreateTask o.clock (x.streamUrl hm)
    ∃ t ∈ found.1.tasks, t.id = found.2 ∧ t.task.url = x.streamUrl hm ∧
      t.task.storage.Intact (origin t.task.url) ∧
      Proxy.requestView nc hm o x = t.task.view := by
  have hdropped := (h.registered.dropSession o.now nc).1
  have hfound := findOrCreateTask_found hdropped o.clock (x.streamUrl hm)
  obtain ⟨t₀, ht₀, hid₀, hurl₀, -⟩ := findOrCreateTask_entry hdropped o.clock (x.streamUrl hm)
  have hwhole := (findOrCreateTask_carried (dropSession_carried h.carried o.now nc).whole hdropped
    o.clock (x.streamUrl hm)).whole
  refine ⟨t₀, ht₀, hid₀, hurl₀, (hwhole t₀ ht₀).storage, ?_⟩
  unfold Proxy.requestView
  dsimp only
  rw [← hid₀]
  exact hfound.registered.viewOf ht₀

/-- **A stream request**: the older session goes, and the new one is for the
    url and the range that are asked for now. -/
theorem streamHandler_running (hlimit : limit ≤ 4096)
    (hsize : ∀ url, (origin url).length < 2 ^ 63) (h : Served limit origin (Whole origin) asked x)
    (hrun : Running limit origin asked x) (method : Method) (hm : HttpRequest) (o : Outside)
    (hopen : (x.clients nc).connection.sendAndClose = false)
    (hstart : ∀ r1 r2, requestedRange hm.rangeHdr = some (r1, r2) → 0 ≤ r1)
    (hnone : (x.streamHandler w limit nc method hm
      (o.ambient (Proxy.requestView nc hm o x))).aborted = false) :
    Running limit origin (Function.update asked nc (Proxy.askedBy hm x))
      (x.streamHandler w limit nc method hm (o.ambient (Proxy.requestView nc hm o x))) := by
  have hx := h.registered
  obtain ⟨hdropped, hfree⟩ := hx.dropSession o.now nc
  obtain ⟨hothers, hconnection, hsub, -⟩ := @dropSession_clients x o.now nc
  have hfound := findOrCreateTask_found hdropped o.clock (x.streamUrl hm)
  have hwhole := (findOrCreateTask_carried (dropSession_carried h.carried o.now nc).whole hdropped
    o.clock (x.streamUrl hm)).whole
  obtain ⟨t₀, ht₀, hid₀, hurl₀, hst₀, hview₀⟩ := h.requested nc hm o
  -- what the new session sees is the file of the url
  have hview : (Proxy.requestView nc hm o x).Serves (origin (x.streamUrl hm)) := by
    rw [hview₀, ← hurl₀]
    exact MsTask.view_serves hst₀
  obtain ⟨r1, r2, id, hrange, hsessions, hclients⟩ := streamHandler_parts hx hnone
  simp only [Outside.ambient_now, Outside.ambient_clock, Outside.ambient_view] at hsessions hclients
  have hasked : Proxy.askedBy hm x = some ⟨x.streamUrl hm, r1, r2⟩ := by
    unfold Proxy.askedBy
    rw [hrange]
    rfl
  have hcarried := @streamHandler_carried w limit nc origin x h.carried hx method hm
    (o.ambient (Proxy.requestView nc hm o x))
  refine ⟨hrun.linked.streamHandler hx method hm _ hnone, fun s hs t ht hid => ?_,
    fun nc' a ha => ?_⟩
  · rw [hsessions] at hs
    rcases List.mem_append.mp hs with hold | hnew
    · -- a session of another connection
      have hne : s.connection ≠ nc := fun heq => hfree (List.mem_map.mpr ⟨s, hold, heq⟩)
      obtain ⟨t', ht', hid'⟩ := List.mem_map.mp (hx.mem_task (session_owner (hsub hold)))
      rw [Function.update_of_ne hne, (hcarried.same hx ht' ht (hid.trans hid'.symm)).1]
      exact hrun.url s (hsub hold) t' ht' hid'
    · rw [List.mem_singleton.mp hnew] at hid ⊢
      have hkept : Carried origin
          ((x.dropSession o.now nc).findOrCreateTask o.clock (x.streamUrl hm)).1
          (x.streamHandler w limit nc method hm (o.ambient (Proxy.requestView nc hm o x))) :=
        openSession_carried hwhole method hm.rangeHdr _
      rw [Function.update_self, hasked,
        (hkept.same hfound.registered ht₀ ht (hid.trans hid₀.symm)).1]
      exact congrArg some hurl₀.symm
  · rw [hclients]
    by_cases hnc : nc' = nc
    · rw [hnc, Function.update_self, hasked] at ha
      cases ha
      rw [hnc, Function.update_self]
      apply Client.openSession_delivers hview hlimit (hsize _) _ hrange (hstart r1 r2 hrange)
      rw [hconnection]
      exact hopen
    · rw [Function.update_of_ne hnc] at ha ⊢
      rw [hothers nc' hnc]
      exact hrun.delivers nc' a ha

/-! ## Sends and closes -/

/-- While there is a session `MG_EV_SEND` is an event of it. -/
theorem sent_eq_step {n : Nat} {v : TaskView} {c : Client} (hfault : c.fault = none)
    (hn : 0 < n ∧ n ≤ c.connection.sendMbuf.length) :
    c.sent limit v n = c.step limit (SessionEvent.client (.sent n v)) := by
  have hrunning : ¬ c.fault.isSome = true := by
    rw [hfault]
    exact Bool.false_ne_true
  unfold Client.step
  rw [if_neg hrunning]
  exact (if_pos hn).symm

/-- The client of the connection counts what has left, and a session that has
    closed itself is gone. -/
theorem sendHandler_parts {n : Nat} {e : Ambient}
    (hn : 0 < n ∧ n ≤ (x.clients nc).connection.sendMbuf.length) :
    (x.sendHandler w limit nc n e).sessions ⊆ x.sessions ∧
      (∀ nc', nc' ≠ nc → (x.sendHandler w limit nc n e).clients nc' = x.clients nc') ∧
      ((x.sendHandler w limit nc n e).clients nc = (x.clients nc).sent limit e.view n ∨
        ((x.clients nc).sent limit e.view n).live = false ∧
          (x.sendHandler w limit nc n e).clients nc =
            { (x.clients nc).sent limit e.view n with live := false }) := by
  have hset : (x.setClient nc ((x.clients nc).sent limit e.view n)).clients nc =
      (x.clients nc).sent limit e.view n := Function.update_self ..
  have hothers : ∀ nc', nc' ≠ nc →
      (x.setClient nc ((x.clients nc).sent limit e.view n)).clients nc' = x.clients nc' :=
    fun nc' hne => Function.update_of_ne hne _ _
  unfold MsServer.sendHandler
  rw [if_pos hn]
  dsimp only
  split
  · exact ⟨fun _ hs => hs, hothers, Or.inl hset⟩
  · rename_i s hfind
    obtain ⟨-, hconnection⟩ := findSession_mem hfind
    split
    · exact ⟨fun _ hs => hs, hothers, Or.inl hset⟩
    · rename_i hdone
      refine ⟨fun s' hs' => List.mem_of_mem_filter hs', fun nc' hne => ?_,
        Or.inr ⟨Bool.eq_false_iff.mpr hdone, ?_⟩⟩
      · show Function.update _ s.connection _ nc' = _
        rw [hconnection, Function.update_of_ne hne]
        exact hothers nc' hne
      · show Function.update _ s.connection _ nc = _
        rw [hconnection, Function.update_self, hset]

theorem sendHandler_carried (hx : ∀ t ∈ x.tasks, Whole origin t) (n : Nat) (e : Ambient) :
    Carried origin x (x.sendHandler w limit nc n e) := by
  unfold MsServer.sendHandler
  split
  · dsimp only
    have hset : Carried origin x (x.setClient nc ((x.clients nc).sent limit e.view n)) :=
      .of_tasks hx rfl (Nat.le_refl _)
    split
    · exact hset
    · split
      · exact hset.readerActs _ e
      · exact hset.trans (removeReader_carried hset.whole rfl (Nat.le_refl _))
  · exact .of_tasks hx rfl (Nat.le_refl _)

theorem sendHandler_running (hlimit : limit ≤ 4096) (hsize : ∀ url, (origin url).length < 2 ^ 63)
    (h : Served limit origin (Whole origin) asked x) (hrun : Running limit origin asked x)
    (n : Nat) (o : Outside)
    (hnone : (x.sendHandler w limit nc n
      (o.ambient (Proxy.sessionView nc x))).aborted = false) :
    Running limit origin asked
      (x.sendHandler w limit nc n (o.ambient (Proxy.sessionView nc x))) := by
  have hx := h.registered
  have hlinked := hrun.linked.sendHandler hx n _ hnone
  have hcarried := @sendHandler_carried w limit nc origin x h.carried n
    (o.ambient (Proxy.sessionView nc x))
  -- the client of the connection takes its step
  have hstep : 0 < n ∧ n ≤ (x.clients nc).connection.sendMbuf.length →
      ∀ a, asked nc = some a → Client.Delivers limit (origin a.url) a.r1 a.r2
        ((x.clients nc).sent limit (Proxy.sessionView nc x) n) := by
    intro hn a ha
    cases hfind : x.findSession nc with
    | none =>
      have hlive : (x.clients nc).live = false :=
        Bool.eq_false_iff.mpr fun hlive =>
          findSession_none hfind ((hrun.linked.live nc).mp hlive)
      have hsent : (x.clients nc).sent limit (Proxy.sessionView nc x) n =
          (x.clients nc).drain n := if_neg (by rw [hlive]; exact Bool.false_ne_true)
      rw [hsent]
      exact (hrun.delivers nc a ha).of_over hlive rfl hlive rfl
    | some s =>
      obtain ⟨hs, hconnection⟩ := findSession_mem hfind
      obtain ⟨b, hb, hserves⟩ := h.sees whole_readable hrun hs (w := w)
      rw [hconnection] at hb
      rw [Option.some.inj (hb.symm.trans ha)] at hserves
      rw [sent_eq_step (hrun.linked.fault nc) hn]
      refine (hrun.delivers nc a ha).step hlimit (hsize a.url) SessionEvent.noConfusion ?_
      intro v hv
      cases hv
      unfold Proxy.sessionView
      rw [hfind]
      exact hserves
  by_cases hn : 0 < n ∧ n ≤ (x.clients nc).connection.sendMbuf.length
  · obtain ⟨hsub, hothers, hclient⟩ := @sendHandler_parts w limit nc x n
      (o.ambient (Proxy.sessionView nc x)) hn
    refine hrun.of_carried hx hlinked hsub hcarried fun nc' a ha => ?_
    by_cases hnc : nc' = nc
    · rw [hnc] at ha ⊢
      have hsent := hstep hn a ha
      rcases hclient with hset | ⟨hdone, hset⟩
      · rw [hset]
        exact hsent
      · -- the session has closed itself, and its client says so
        rw [hset]
        exact hsent.of_over hdone rfl rfl rfl
    · rw [hothers nc' hnc]
      exact hrun.delivers nc' a ha
  · have hsame : x.sendHandler w limit nc n (o.ambient (Proxy.sessionView nc x)) = x := if_neg hn
    rw [hsame]
    exact hrun

theorem closeHandler_carried (hx : ∀ t ∈ x.tasks, Whole origin t) (e : Ambient) :
    Carried origin x (x.closeHandler nc e) :=
  (dropSession_carried hx e.now nc).setClient nc _

/-- The next request on a connection that was closed is a first one. -/
theorem closeHandler_running (h : Served limit origin (Whole origin) asked x)
    (hrun : Running limit origin asked x) (e : Ambient) :
    Running limit origin (Function.update asked nc none) (x.closeHandler nc e) := by
  have hx := h.registered
  obtain ⟨-, hfree⟩ := hx.dropSession e.now nc
  obtain ⟨hothers, -, hsub, -⟩ := @dropSession_clients x e.now nc
  have hcarried := @closeHandler_carried nc origin x h.carried e
  refine ⟨hrun.linked.closeHandler hx nc e, fun s hs t ht hid => ?_, fun nc' a ha => ?_⟩
  · have hne : s.connection ≠ nc := fun heq => hfree (List.mem_map.mpr ⟨s, hs, heq⟩)
    obtain ⟨t', ht', hid'⟩ := List.mem_map.mp (hx.mem_task (session_owner (hsub hs)))
    rw [Function.update_of_ne hne, (hcarried.same hx ht' ht (hid.trans hid'.symm)).1]
    exact hrun.url s (hsub hs) t' ht' hid'
  · have hne : nc' ≠ nc := by
      rintro rfl
      rw [Function.update_self] at ha
      cases ha
    rw [Function.update_of_ne hne] at ha
    have hclient : (x.closeHandler nc e).clients nc' = (x.dropSession e.now nc).clients nc' :=
      Function.update_of_ne hne _ _
    rw [hclient, hothers nc' hne]
    exact hrun.delivers nc' a ha

end delivery

/-! ## Runs -/

/-- What is taken of the outside.

    * A stream request comes on a connection that is not about to be closed
      (`MG_F_SEND_AND_CLOSE`), and its range starts at an offset: with
      `bytes=-500` a session reads before the start of the storage.
    * Any other request comes on a connection without an open session. Its
      reply would be put between the bytes of the session, which is counted
      as if they were all its own.
    * Pipes bring the file of their task. -/
def Fair (origin : List Char → List UInt8) (p : Proxy) : ProxyEvent → Prop
  | .request nc hm _ =>
    if Proxy.streams hm then
      (p.server.clients nc).connection.sendAndClose = false ∧
        ∀ r1 r2, requestedRange hm.rangeHdr = some (r1, r2) → 0 ≤ r1
    else (p.server.clients nc).live = false
  | .pipe task id ev _ => HonestPipe origin p.server task id ev
  | _ => True

section runs

variable {w : IntArith} {limit : Nat} {origin : List Char → List UInt8} {p : Proxy}

/-- **A request.** -/
theorem requestHandler_served (hlimit : limit ≤ 4096)
    (hsize : ∀ url, (origin url).length < 2 ^ 63)
    (h : Served limit origin (Whole origin) p.asked p.server)
    (hlive : p.server.aborted = false) {nc : Nat} {hm : HttpRequest} {o : Outside}
    (hfair : Fair origin p (.request nc hm o)) :
    Served limit origin (Whole origin)
      (if Proxy.streams hm then Function.update p.asked nc (Proxy.askedBy hm p.server)
        else p.asked)
      (p.server.requestHandler w limit nc hm
        (o.ambient (Proxy.requestView nc hm o p.server))) := by
  have hregistered := @Registered.requestHandler w limit nc p.server h.registered hm
    (o.ambient (Proxy.requestView nc hm o p.server))
  have hrun := h.running hlive
  simp only [Fair] at hfair
  cases hstream : Proxy.streams hm with
  | false =>
    rw [hstream, if_neg Bool.false_ne_true] at hfair
    have haside := @requestHandler_aside w limit nc origin p.server h.carried h.registered hm
      hstream (o.ambient (Proxy.requestView nc hm o p.server))
    exact ⟨hregistered, haside.carried.whole, fun hnone =>
      hrun.beside h.registered (hrun.linked.requestHandler h.registered hm _ hnone) hfair haside⟩
  | true =>
    rw [hstream, if_pos rfl] at hfair
    obtain ⟨hopen, hstart⟩ := hfair
    have hpath : hasPrefix hm.uri "/stream/".toList = true := hstream
    have hget : ∀ method, (p.server.requestHandler w limit nc hm
          (o.ambient (Proxy.requestView nc hm o p.server)) = p.server.streamHandler w limit nc
            method hm (o.ambient (Proxy.requestView nc hm o p.server))) →
        Served limit origin (Whole origin)
          (Function.update p.asked nc (Proxy.askedBy hm p.server))
          (p.server.requestHandler w limit nc hm
            (o.ambient (Proxy.requestView nc hm o p.server))) := by
      intro method heq
      refine ⟨hregistered, ?_, fun hnone => ?_⟩
      · rw [heq]
        exact (streamHandler_carried h.carried h.registered method hm _).whole
      · rw [heq] at hnone ⊢
        exact streamHandler_running hlimit hsize h hrun method hm o hopen hstart hnone
    have habort : p.server.requestHandler w limit nc hm
          (o.ambient (Proxy.requestView nc hm o p.server)) = p.server.abort →
        Served limit origin (Whole origin)
          (Function.update p.asked nc (Proxy.askedBy hm p.server))
          (p.server.requestHandler w limit nc hm
            (o.ambient (Proxy.requestView nc hm o p.server))) := by
      intro heq
      refine ⟨hregistered, ?_, fun hnone => ?_⟩
      · rw [heq]
        exact h.carried
      · rw [heq] at hnone
        cases hnone
    rw [if_pos rfl]
    cases hmethod : hm.method with
    | get =>
      apply hget .get
      unfold MsServer.requestHandler
      rw [if_pos hpath, hmethod]
    | head =>
      apply hget .head
      unfold MsServer.requestHandler
      rw [if_pos hpath, hmethod]
    | post =>
      apply habort
      unfold MsServer.requestHandler
      rw [if_pos hpath, hmethod]
    | delete =>
      apply habort
      unfold MsServer.requestHandler
      rw [if_pos hpath, hmethod]
    | other =>
      apply habort
      unfold MsServer.requestHandler
      rw [if_pos hpath, hmethod]

/-- **Step lemma.** -/
theorem step_served (hlimit : limit ≤ 4096) (hsize : ∀ url, (origin url).length < 2 ^ 63)
    (h : Served limit origin (Whole origin) p.asked p.server) {e : ProxyEvent}
    (hfair : Fair origin p e) :
    Served limit origin (Whole origin) (p.step w limit e).asked (p.step w limit e).server := by
  unfold Proxy.step
  split
  · exact h
  · rename_i haborted
    have hlive : p.server.aborted = false := by simpa using haborted
    have hrun := h.running hlive
    cases e with
    | request nc hm o => exact requestHandler_served hlimit hsize h hlive hfair
    | send nc n o =>
      exact ⟨h.registered.sendHandler n _, (sendHandler_carried h.carried n _).whole, fun hnone =>
        sendHandler_running hlimit hsize h hrun n o hnone⟩
    | close nc o =>
      exact ⟨(h.registered.dropSession o.now nc).1.setClient nc _,
        (closeHandler_carried h.carried _).whole, fun _ => closeHandler_running h hrun _⟩
    | pipe task id ev react => exact proxyPipe_served hlimit hsize h hfair
    | generate url =>
      have hsame : (p.server.generateResource url).tasks = p.server.tasks ∧
          (p.server.generateResource url).sessions = p.server.sessions ∧
          (p.server.generateResource url).clients = p.server.clients ∧
          (p.server.generateResource url).next = p.server.next := by
        unfold generateResource
        split
        · exact ⟨rfl, rfl, rfl, rfl⟩
        · exact ⟨rfl, rfl, rfl, rfl⟩
      obtain ⟨htasks, hsessions, hclients, hnext⟩ := hsame
      have hcarried := Carried.of_tasks h.carried htasks hnext.ge
      refine ⟨h.registered.generateResource url, hcarried.whole, fun _ => ?_⟩
      refine hrun.of_carried h.registered (hrun.linked.of_eq hsessions hclients)
        (fun s hs => hsessions ▸ hs) hcarried fun nc a ha => ?_
      rw [hclients]
      exact hrun.delivers nc a ha
    | remove id =>
      exact ⟨{ h.registered with }, h.carried, fun _ => hrun.of_carried h.registered
        (hrun.linked.of_eq rfl rfl) (fun _ hs => hs)
        (.of_tasks h.carried rfl (Nat.le_refl _)) hrun.delivers⟩
    | stop o =>
      have hclean := removeTaskIfNeed_cleaned h.registered o.clock 0
      have hcarried := removeTaskIfNeed_carried h.carried h.registered o.clock 0
      refine ⟨hclean.registered, hcarried.whole, fun _ => ?_⟩
      refine hrun.of_carried h.registered (hrun.linked.of_eq hclean.sessions hclean.clients)
        (fun s hs => hclean.sessions ▸ hs) hcarried fun nc a ha => ?_
      rw [hclean.clients]
      exact hrun.delivers nc a ha

theorem init_served (limit : Nat) (origin : List Char → List UInt8) :
    Served limit origin (Whole origin) Proxy.init.asked Proxy.init.server where
  registered := initMediaServer_registered
  carried _ ht := absurd ht List.not_mem_nil
  running _ := ⟨initMediaServer_linked, fun _ hs => absurd hs List.not_mem_nil,
    fun _ _ ha => by cases ha⟩

end runs

end MsServer

open MsServer in
/-- **From the origin to the clients.** In every fair run of a server (its
    pipes bring the files of their urls, ranges start at an offset, and no
    connection is used for another request beside its session, or for a
    stream while it is about to be closed), as long as no assert has failed:
    each client that got no error reply has been given the file of its url
    from the start of its range on, in order, and the whole range once its
    session has closed itself. -/
theorem served_from_origin (w : IntArith) (platform : Platform)
    (origin : List Char → List UInt8) (hsize : ∀ url, (origin url).length < 2 ^ 63)
    (events : List ProxyEvent)
    (hrun : Along (Proxy.step w platform.sendBufLimit) (Fair origin) Proxy.init events) :
    let p := run (Proxy.step w platform.sendBufLimit) Proxy.init events
    p.server.aborted = false → ∀ nc a, p.asked nc = some a →
      (p.server.clients nc).log.errorBytes = 0 →
        (p.server.clients nc).log.appended <+: (origin a.url).drop a.r1.toNat ∧
          ((p.server.clients nc).live = false →
            (p.server.clients nc).log.appended = rangeOf (origin a.url) a.r1 a.r2) := by
  intro p hnone nc a ha herror
  have hserved := run_invariant
    (P := fun p : Proxy => Served platform.sendBufLimit origin (MsServer.Whole origin)
      p.asked p.server)
    (fun _ _ h hfair => step_served platform.sendBufLimit_le hsize h hfair)
    (init_served platform.sendBufLimit origin) hrun
  have hrunning := hserved.running hnone
  exact (hrunning.delivers nc a ha).given (hrunning.linked.fault nc) herror

/-- A time at which nothing else happens. -/
def quiet : Outside := ⟨0, fun _ => 0, [], []⟩

/-- A file of two bytes is asked for, comes in one chunk, and leaves with its
    head. -/
def viewing : List ProxyEvent :=
  [.request 7 ⟨.get, "/stream/a".toList, ['v'], [], none⟩ quiet,
    .pipe 0 0 (.httpChunk (MsTask.answer 0 1 2 [7, 8])) fun _ _ _ => [],
    .send 7 175 quiet]

theorem viewing_fair :
    Along (Proxy.step exactInt Platform.desktop.sendBufLimit) (MsServer.Fair fun _ => [7, 8])
      Proxy.init viewing := by
  refine ⟨⟨rfl, fun r1 r2 h => ?_⟩, fun t ht hid hopen hcode => ?_, trivial, trivial⟩
  · cases h
    decide
  · obtain rfl := List.mem_singleton.mp ht
    exact ⟨List.prefix_refl _, fun _ => ⟨1, ⟨rfl, rfl, rfl, by decide, by decide⟩, fun _ => rfl⟩⟩

theorem served_from_origin_two :
    ((run (Proxy.step exactInt Platform.desktop.sendBufLimit) Proxy.init
      viewing).server.clients 7).log.appended = rangeOf [7, 8] 0 0 := by
  have hasked : (run (Proxy.step exactInt Platform.desktop.sendBufLimit) Proxy.init
      viewing).asked 7 = some ⟨['v'], 0, 0⟩ := by decide +kernel
  have hgiven := served_from_origin exactInt .desktop (fun _ => [7, 8]) (fun _ => by decide)
    viewing viewing_fair (by decide +kernel) 7 ⟨['v'], 0, 0⟩ hasked (by decide +kernel)
  exact hgiven.2 (by decide +kernel)

end Libms
