import Mathlib
import Libms.Server.Registry

/-! # Clients and sessions

    What a session does is in the client of its connection, and the list of
    the server says which connections have one. As long as no assert fails
    the two agree, so `MG_EV_SEND` reaches `on_send` exactly when a session is
    found, and a session's task is the one that it was added to. -/

namespace Libms

open Runs

namespace Client

variable {limit n : Nat} {v : TaskView} {c c' : Client}

theorem counted_task : (c.counted n).session.task = c.session.task := by
  obtain ⟨head, k, hcount, -⟩ := countHead_spec n c.session
  unfold counted
  rw [hcount]
  rfl

/-- `on_send` keeps the task. -/
theorem Sent.task (hs : Sent limit v n c c') (hnone : c'.fault = none) :
    c'.session.task = c.session.task := by
  cases hs with
  | ignored => rfl
  | head =>
    obtain ⟨head, k, hcount, -⟩ := countHead_spec n c.session
    rw [hcount]
  | drained => cases hnone
  | finish => exact counted_task
  | transfer _ _ _ ht hc =>
    exact (hc.sameReader.task.trans ht.sameReader.task).trans counted_task

theorem transferred_sameReader (hfault : c.fault = none) :
    SameReader c ((c.tryTransfer limit v).closeIfNeed v) :=
  (tryTransfer_transfer hfault).sameReader.trans closeIfNeed_closing.sameReader

/-- A callback leaves the session open. -/
theorem step_sameSession (call : MsServer.ReaderCall) (hfault : c.fault = none) :
    (c.step limit (call.client v)).live = c.live ∧
      (c.step limit (call.client v)).session.task = c.session.task := by
  have hmoved := @transferred_sameReader limit v c hfault
  have hrunning : ¬ c.fault.isSome = true := by
    rw [hfault]
    exact Bool.false_ne_true
  unfold step
  rw [if_neg hrunning]
  cases call with
  | onRecv =>
    dsimp only [MsServer.ReaderCall.client]
    split
    · exact ⟨hmoved.live, hmoved.task⟩
    · exact ⟨rfl, rfl⟩
  | onContentSize =>
    dsimp only [MsServer.ReaderCall.client]
    split
    · unfold onContentSizeFrom
      split
      · exact ⟨rfl, rfl⟩
      · split
        · exact ⟨rfl, rfl⟩
        · exact ⟨rfl, rfl⟩
    · exact ⟨rfl, rfl⟩
  | onError =>
    dsimp only [MsServer.ReaderCall.client]
    split
    · have hclosing := (@closeIfNeed_closing v c).sameReader
      exact ⟨hclosing.live, hclosing.task⟩
    · exact ⟨rfl, rfl⟩

end Client

namespace MsServer

/-- The connections that have a session. -/
def connections (x : MsServer) : List Nat := x.sessions.map SessionEntry.connection

/-- The clients agree with the list of the sessions. -/
structure Linked (x : MsServer) : Prop where
  fault : ∀ nc, (x.clients nc).fault = none
  live : ∀ nc, (x.clients nc).live = true ↔ nc ∈ x.connections
  task : ∀ s ∈ x.sessions, (x.clients s.connection).session.task = s.task

variable {w : IntArith} {limit nc : Nat} {x x' : MsServer} {c : Client}

theorem Linked.of_eq (h : Linked x) (hsessions : x'.sessions = x.sessions)
    (hclients : x'.clients = x.clients) : Linked x' where
  fault nc := by
    rw [hclients]
    exact h.fault nc
  live nc := by
    rw [connections, hclients, hsessions]
    exact h.live nc
  task s hs := by
    rw [hclients]
    exact h.task s (hsessions ▸ hs)

/-- One client changes, and only the sessions of its connection. -/
theorem Linked.update (h : Linked x) (hclients : x'.clients = Function.update x.clients nc c)
    (hfault : c.fault = none) (hlive : c.live = true ↔ nc ∈ x'.connections)
    (hother : ∀ nc', nc' ≠ nc → (nc' ∈ x'.connections ↔ nc' ∈ x.connections))
    (hself : ∀ s ∈ x'.sessions, s.connection = nc → c.session.task = s.task)
    (hrest : ∀ s ∈ x'.sessions, s.connection ≠ nc → s ∈ x.sessions) : Linked x' where
  fault nc' := by
    rw [hclients]
    by_cases hnc : nc' = nc
    · rw [hnc, Function.update_self]
      exact hfault
    · rw [Function.update_of_ne hnc]
      exact h.fault nc'
  live nc' := by
    rw [hclients]
    by_cases hnc : nc' = nc
    · rw [hnc, Function.update_self]
      exact hlive
    · rw [Function.update_of_ne hnc, hother nc' hnc]
      exact h.live nc'
  task s hs := by
    rw [hclients]
    by_cases hnc : s.connection = nc
    · rw [hnc, Function.update_self]
      exact hself s hs hnc
    · rw [Function.update_of_ne hnc]
      exact h.task s (hrest s hs hnc)

/-- A client changes while its session stays. -/
theorem Linked.setClient (h : Linked x) (hfault : c.fault = none)
    (hlive : c.live = (x.clients nc).live)
    (htask : c.session.task = (x.clients nc).session.task) : Linked (x.setClient nc c) := by
  refine h.update rfl hfault ?_ (fun _ _ => Iff.rfl) ?_ fun _ hs _ => hs
  · rw [hlive]
    exact h.live nc
  · rintro s hs rfl
    rw [htask]
    exact h.task s hs

/-- A session is closed, with its client. -/
theorem Linked.closeSession (h : Linked x) (hx : Registered x) (now : ℚ) {s : SessionEntry}
    (hs : s ∈ x.sessions) : Linked (x.closeSession now s) := by
  have hfree := hx.closeSession_free now hs
  refine @Linked.update s.connection x _ _ h rfl (h.fault s.connection) ?_ ?_ ?_ ?_
  · exact ⟨fun hlive => absurd hlive Bool.false_ne_true, fun hmem => absurd hmem hfree⟩
  · intro nc' hne
    constructor
    · intro hmem
      exact (List.filter_sublist.map _).subset hmem
    · intro hmem
      obtain ⟨s', hs', hconnection⟩ := List.mem_map.mp hmem
      have hid : s'.id ≠ s.id := by
        intro hid
        rw [hx.session_ext hs hs' hid] at hconnection
        exact hne hconnection.symm
      exact List.mem_map.mpr ⟨s', List.mem_filter.mpr ⟨hs', decide_eq_true hid⟩, hconnection⟩
  · intro s' hs' hconnection
    exact absurd (List.mem_map.mpr ⟨s', hs', hconnection⟩) hfree
  · intro s' hs' _
    exact List.mem_of_mem_filter hs'

theorem Linked.dropSession (h : Linked x) (hx : Registered x) (now : ℚ) (nc : Nat) :
    Linked (x.dropSession now nc) := by
  unfold MsServer.dropSession
  split
  · rename_i s hfind
    exact h.closeSession hx now (List.mem_of_find?_eq_some hfind)
  · exact h

theorem updateTask_running {id : Nat} {f : MsTask → MsTask}
    (h : (x.updateTask id f).aborted = false) : x.aborted = false :=
  (Bool.or_eq_false_iff.mp h).1

theorem setClient_running (h : (x.setClient nc c).aborted = false) : c.fault = none := by
  have hfault := (Bool.or_eq_false_iff.mp h).2
  simpa using hfault

/-- A new session, unless an assert fails. -/
theorem Linked.openSession (h : Linked x) (hfree : nc ∉ x.connections) {task : Nat}
    (method : Method) (rangeHdr : Option (List Char)) (e : Ambient)
    (hrunning : (x.openSession w limit nc task method rangeHdr e).aborted = false) :
    Linked (x.openSession w limit nc task method rangeHdr e) := by
  unfold MsServer.openSession at hrunning ⊢
  split at hrunning
  · cases hrunning
  · rename_i r1 r2 hrange
    have hfault := setClient_running (updateTask_running hrunning)
    -- a transfer keeps the session open, with the task it was opened for
    have hopened := @Client.transferred_sameReader limit e.view
      ((x.clients nc).openSession task method r1 r2 e.view) rfl
    -- the list has one entry more, which is the one of this connection
    have hsessions : ∀ s ∈ x.sessions ++ [(⟨x.next, nc, task⟩ : SessionEntry)],
        s ∈ x.sessions ∨ s = ⟨x.next, nc, task⟩ := by
      intro s hs
      rcases List.mem_append.mp hs with hold | hnew
      · exact Or.inl hold
      · exact Or.inr (List.mem_singleton.mp hnew)
    have hmap : (x.sessions ++ [(⟨x.next, nc, task⟩ : SessionEntry)]).map SessionEntry.connection =
        x.connections ++ [nc] := List.map_append
    refine @Linked.update nc x _ _ h rfl hfault ?_ ?_ ?_ ?_
    · refine ⟨fun _ => ?_, fun _ => hopened.live⟩
      show nc ∈ (x.sessions ++ [(⟨x.next, nc, task⟩ : SessionEntry)]).map SessionEntry.connection
      rw [hmap]
      exact List.mem_append_right _ List.mem_cons_self
    · intro nc' hne
      show nc' ∈ (x.sessions ++ [(⟨x.next, nc, task⟩ : SessionEntry)]).map _ ↔ _
      rw [hmap, List.mem_append, List.mem_singleton]
      exact or_iff_left hne
    · intro s hs hconnection
      rcases hsessions s hs with hold | hnew
      · exact absurd (hconnection ▸ List.mem_map_of_mem hold) hfree
      · rw [hnew]
        exact hopened.task
    · intro s hs hconnection
      rcases hsessions s hs with hold | hnew
      · exact hold
      · rw [hnew] at hconnection
        exact absurd rfl hconnection

theorem findSession_mem {s : SessionEntry} (h : x.findSession nc = some s) :
    s ∈ x.sessions ∧ s.connection = nc :=
  ⟨List.mem_of_find?_eq_some h, by simpa using List.find?_some h⟩

theorem findSession_none (h : x.findSession nc = none) : nc ∉ x.connections := by
  intro hmem
  obtain ⟨s, hs, hconnection⟩ := List.mem_map.mp hmem
  exact List.find?_eq_none.mp h s hs (decide_eq_true hconnection)

/-- Closing a session ends its client, whatever `on_send` has made of it. -/
theorem closeSession_setClient (now : ℚ) (s : SessionEntry) (c : Client) (live : Bool) :
    (x.setClient s.connection { c with live := live }).closeSession now s =
      (x.setClient s.connection c).closeSession now s := by
  simp [MsServer.closeSession, MsServer.setClient]

/-- `MG_EV_SEND`: the session goes with its last byte. -/
theorem Linked.sendHandler (h : Linked x) (hx : Registered x) (n : Nat) (e : Ambient)
    (hrunning : (x.sendHandler w limit nc n e).aborted = false) :
    Linked (x.sendHandler w limit nc n e) := by
  unfold MsServer.sendHandler at hrunning ⊢
  split at hrunning
  · rename_i hn
    rw [if_pos hn]
    dsimp only at hrunning ⊢
    cases hfind : x.findSession nc with
    | none =>
      -- bytes of an error reply or of the API leave
      have hlive : (x.clients nc).live = false :=
        Bool.eq_false_iff.mpr fun hlive => findSession_none hfind ((h.live nc).mp hlive)
      have hsent : (x.clients nc).sent limit e.view n = (x.clients nc).drain n :=
        if_neg (by rw [hlive]; exact Bool.false_ne_true)
      have hfind' : (x.setClient nc ((x.clients nc).sent limit e.view n)).findSession nc = none :=
        hfind
      rw [hfind', hsent] at hrunning ⊢
      exact h.setClient (setClient_running hrunning) rfl rfl
    | some s =>
      obtain ⟨hs, rfl⟩ := findSession_mem hfind
      have hlive : (x.clients s.connection).live = true :=
        (h.live s.connection).mpr (List.mem_map_of_mem hs)
      have hsent := @Client.sent_sent limit e.view (x.clients s.connection) n hlive
        (h.fault s.connection)
      have hfind' : (x.setClient s.connection
          ((x.clients s.connection).sent limit e.view n)).findSession s.connection = some s := hfind
      rw [hfind'] at hrunning ⊢
      dsimp only at hrunning ⊢
      split at hrunning
      · -- the session goes on, and its reader may act on the task
        rename_i hstays
        rw [if_pos hstays]
        have hfault := setClient_running (updateTask_running hrunning)
        exact (h.setClient hfault (hstays.trans hlive.symm) (hsent.task hfault)).of_eq rfl rfl
      · rename_i hdone
        rw [if_neg hdone]
        have hfault := @setClient_running s.connection x _ hrunning
        -- up to the end of `on_send` the session is still in the list
        rw [← closeSession_setClient e.now s _ true]
        refine Linked.closeSession ?_ (hx.setClient _ _) e.now hs
        exact h.setClient hfault hlive.symm (hsent.task hfault)
  · rename_i hn
    rw [if_neg hn]
    exact h

theorem Linked.callback (h : Linked x) (call : ReaderCall) (e : Ambient)
    (hrunning : (x.callback w limit nc call e).aborted = false) :
    Linked (x.callback w limit nc call e) := by
  unfold MsServer.callback at hrunning ⊢
  split at hrunning
  · exact h
  · -- a callback neither closes the session nor moves it to another task
    have hfault := setClient_running (updateTask_running hrunning)
    obtain ⟨hlive, htask⟩ := @Client.step_sameSession limit e.view _ call (h.fault nc)
    exact (h.setClient hfault hlive htask).of_eq rfl rfl

theorem Linked.respond (h : Linked x) (bytes : List UInt8) : Linked (x.respond nc bytes) :=
  h.setClient (h.fault nc) rfl rfl

theorem Linked.found {task : Nat} (h : Linked x) (hfound : Found x x' task) : Linked x' :=
  h.of_eq hfound.sessions hfound.clients

theorem Linked.openPreloader (h : Linked x) {task : Nat} : Linked (x.openPreloader w task) :=
  h.of_eq rfl rfl

theorem Linked.closePreloader (h : Linked x) {now : ℚ} {p : Preloader} :
    Linked (x.closePreloader now p) := h.of_eq rfl rfl

theorem Linked.taskHandler (h : Linked x) (hx : Registered x) (resourceId : Int)
    (hm : HttpRequest) (e : Ambient)
    (hrunning : (x.taskHandler w nc resourceId hm e).aborted = false) :
    Linked (x.taskHandler w nc resourceId hm e) := by
  unfold MsServer.taskHandler at hrunning ⊢
  cases hmethod : hm.method with
  | get => exact h.respond e.reply
  | head => exact h
  | other => exact h
  | post =>
    rw [hmethod] at hrunning
    dsimp only [postHandler] at hrunning ⊢
    split at hrunning
    · -- the resource is not checked before it is read
      cases hrunning
    · rename_i resource _
      have hfound := h.found (findOrCreateTask_found hx e.clock resource.originUrl)
      exact hfound.openPreloader.respond _
  | delete =>
    rw [hmethod] at hrunning
    dsimp only [deleteHandler] at hrunning ⊢
    split at hrunning
    · split at hrunning
      · rename_i hempty
        rw [if_pos hempty]
        exact h.respond _
      · cases hrunning
    · split
      · rename_i p _
        exact h.closePreloader.respond _
      · exact h.respond _

theorem Linked.streamHandler (h : Linked x) (hx : Registered x) (method : Method)
    (hm : HttpRequest) (e : Ambient)
    (hrunning : (x.streamHandler w limit nc method hm e).aborted = false) :
    Linked (x.streamHandler w limit nc method hm e) := by
  obtain ⟨hdropped, hfree⟩ := hx.dropSession e.now nc
  have hfound := findOrCreateTask_found hdropped e.clock (x.streamUrl hm)
  have hlinked := (h.dropSession hx e.now nc).found hfound
  refine hlinked.openSession ?_ method hm.rangeHdr e hrunning
  rw [connections, hfound.sessions]
  exact hfree

theorem Linked.requestHandler (h : Linked x) (hx : Registered x) (hm : HttpRequest) (e : Ambient)
    (hrunning : (x.requestHandler w limit nc hm e).aborted = false) :
    Linked (x.requestHandler w limit nc hm e) := by
  unfold MsServer.requestHandler at hrunning ⊢
  split at hrunning
  · rename_i hstream
    rw [if_pos hstream]
    cases hmethod : hm.method with
    | get =>
      rw [hmethod] at hrunning
      exact h.streamHandler hx .get hm e hrunning
    | head =>
      rw [hmethod] at hrunning
      exact h.streamHandler hx .head hm e hrunning
    | post => rw [hmethod] at hrunning; cases hrunning
    | delete => rw [hmethod] at hrunning; cases hrunning
    | other => rw [hmethod] at hrunning; cases hrunning
  · rename_i hstream
    rw [if_neg hstream]
    split at hrunning
    · rename_i hapi
      rw [if_pos hapi]
      unfold MsServer.apiHandler at hrunning ⊢
      dsimp only at hrunning ⊢
      split at hrunning
      · rename_i hpath
        rw [if_pos hpath]
        exact h.taskHandler hx _ hm e hrunning
      · rename_i hpath
        rw [if_neg hpath]
        split at hrunning
        · rename_i hlist
          rw [if_pos hlist]
          exact h.taskHandler hx _ hm e hrunning
        · rename_i hlist
          rw [if_neg hlist]
          exact h.respond e.reply
    · rename_i hapi
      rw [if_neg hapi]
      exact h.respond e.reply

/-! ## Closed connections -/

/-- The client starts afresh, and there is no session for it in the list. -/
theorem Linked.closeHandler (h : Linked x) (hx : Registered x) (nc : Nat) (e : Ambient) :
    Linked (x.closeHandler nc e) := by
  obtain ⟨-, hfree⟩ := hx.dropSession e.now nc
  have hdropped := h.dropSession hx e.now nc
  refine hdropped.update rfl rfl ?_ (fun _ _ => Iff.rfl) ?_ fun _ hs _ => hs
  · exact ⟨fun hlive => absurd hlive Bool.false_ne_true, fun hmem => absurd hmem hfree⟩
  · intro s hs hconnection
    exact absurd (List.mem_map.mpr ⟨s, hs, hconnection⟩) hfree

theorem initMediaServer_linked : Linked initMediaServer where
  fault _ := rfl
  live _ := ⟨fun hlive => absurd hlive Bool.false_ne_true, fun hmem => absurd hmem List.not_mem_nil⟩
  task _ hs := absurd hs List.not_mem_nil

end MsServer

end Libms
