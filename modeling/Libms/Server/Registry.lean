import Mathlib
import Libms.Framework.Runs
import Libms.Server.MsServer
import Libms.Task.Readers

/-! # The lists of the server

    Sessions come and go in three handlers, preloaders in two, and tasks that
    nobody reads are closed while another one is made. After every event the
    lists fit together.

    * `owners`: the readers of the sessions and preloaders, each with the task
      it was added to.
    * `Registered`: the invariant. The readers in the lists of the tasks are
      those of the owners.
    * `enter`, `leave`: a reader is added to its task or removed from it.
    * `registry_consistent`: the invariant over all runs. -/

namespace Libms

open Buckets Runs

/-- The url of a task. -/
def ServerTask.url (t : ServerTask) : List Char := t.task.url

/-- The readers of a task, by their addresses. -/
def ServerTask.readerIds (t : ServerTask) : List Nat := t.task.readers.map Reader.id

namespace MsServer

/-- Every reader in the list of a task, with this task. -/
def placed (x : MsServer) : List (Nat × Nat) :=
  Buckets.placed ServerTask.id ServerTask.readerIds x.tasks

/-- The readers of the sessions and of the preloaders, with their tasks. -/
def owners (x : MsServer) : List (Nat × Nat) :=
  x.sessions.map (fun s => (s.id, s.task)) ++ x.preloaders.map fun p => (p.id, p.task)

/-- The tasks that have a reader in their list, as often as they have it. -/
def tasksOf (x : MsServer) (reader : Nat) : List Nat := places x.placed reader

/-- The lists fit together. -/
structure Consistent (x : MsServer) : Prop where
  urls : (x.tasks.map ServerTask.url).Nodup
  connections : (x.sessions.map SessionEntry.connection).Nodup
  session : ∀ s ∈ x.sessions, x.tasksOf s.id = [s.task] ∧ s.task ∈ x.tasks.map ServerTask.id
  preloader : ∀ p ∈ x.preloaders, x.tasksOf p.id = [p.task] ∧ p.task ∈ x.tasks.map ServerTask.id
  reader : ∀ t ∈ x.tasks, ∀ r ∈ t.task.readers,
    (∃ s ∈ x.sessions, s.id = r.id ∧ s.task = t.id) ∨
      ∃ p ∈ x.preloaders, p.id = r.id ∧ p.task = t.id
  closed : ∀ t ∈ x.closed, t.task.readers = []

/-- The invariant. -/
structure Registered (x : MsServer) : Prop where
  urls : (x.tasks.map ServerTask.url).Nodup
  ids : (x.tasks.map ServerTask.id).Nodup
  connections : (x.sessions.map SessionEntry.connection).Nodup
  owners : (x.owners.map Prod.fst).Nodup
  placed : x.placed.Perm x.owners
  tasksBelow : ∀ t ∈ x.tasks, t.id < x.next
  ownersBelow : ∀ o ∈ x.owners, o.1 < x.next
  closed : ∀ t ∈ x.closed, t.task.readers = []

variable {w : IntArith} {limit nc task : Nat} {x x' : MsServer}

theorem session_owner {s : SessionEntry} (hs : s ∈ x.sessions) :
    (s.id, s.task) ∈ x.owners :=
  List.mem_append_left _ (List.mem_map_of_mem (f := fun s : SessionEntry => (s.id, s.task)) hs)

theorem preloader_owner {p : Preloader} (hp : p ∈ x.preloaders) :
    (p.id, p.task) ∈ x.owners :=
  List.mem_append_right _ (List.mem_map_of_mem (f := fun p : Preloader => (p.id, p.task)) hp)

theorem Registered.mem_task (h : Registered x) {id : Nat} (ho : (id, task) ∈ x.owners) :
    task ∈ x.tasks.map ServerTask.id := by
  obtain ⟨t, ht, hid, -⟩ := mem_placed.mp (h.placed.mem_iff.mpr ho)
  exact hid ▸ List.mem_map_of_mem ht

theorem Registered.tasksOf (h : Registered x) {id : Nat} (ho : (id, task) ∈ x.owners) :
    x.tasksOf id = [task] :=
  places_of_mem ((h.placed.map Prod.fst).nodup_iff.mpr h.owners) (h.placed.mem_iff.mpr ho)

theorem Registered.consistent (h : Registered x) : Consistent x where
  urls := h.urls
  connections := h.connections
  session s hs := ⟨h.tasksOf (session_owner hs), h.mem_task (session_owner hs)⟩
  preloader p hp := ⟨h.tasksOf (preloader_owner hp), h.mem_task (preloader_owner hp)⟩
  reader t ht r hr := by
    have hplaced : (r.id, t.id) ∈ x.placed :=
      mem_placed.mpr ⟨t, ht, rfl, List.mem_map_of_mem hr⟩
    rcases List.mem_append.mp (h.placed.mem_iff.mp hplaced) with ho | ho
    · obtain ⟨s, hs, hso⟩ := List.mem_map.mp ho
      exact Or.inl ⟨s, hs, congrArg Prod.fst hso, congrArg Prod.snd hso⟩
    · obtain ⟨p, hp, hpo⟩ := List.mem_map.mp ho
      exact Or.inr ⟨p, hp, congrArg Prod.fst hpo, congrArg Prod.snd hpo⟩
  closed := h.closed

/-! ## Tasks -/

theorem nodup_snoc {α : Type} {as : List α} {a : α} (h : as.Nodup) (ha : a ∉ as) :
    (as ++ [a]).Nodup := by
  rw [← List.concat_eq_append]
  exact h.concat ha

/-- The same tasks are below any later address. -/
theorem Registered.below_of_ids (h : Registered x)
    (hids : x'.tasks.map ServerTask.id = x.tasks.map ServerTask.id) (hnext : x.next ≤ x'.next) :
    ∀ t ∈ x'.tasks, t.id < x'.next := by
  intro t ht
  have hid : t.id ∈ x.tasks.map ServerTask.id := hids ▸ List.mem_map_of_mem ht
  obtain ⟨t₀, ht₀, hsame⟩ := List.mem_map.mp hid
  exact Nat.lt_of_lt_of_le (hsame ▸ h.tasksBelow t₀ ht₀) hnext

/-- A task does something that leaves its readers in its list. -/
theorem Registered.updateTask (h : Registered x) (id : Nat) {f : MsTask → MsTask}
    (hf : ∀ t, MsTask.SameReaders t (f t)) : Registered (x.updateTask id f) := by
  have hids : (x.updateTask id f).tasks.map ServerTask.id = x.tasks.map ServerTask.id :=
    modify_map fun _ => rfl
  have hurls : (x.updateTask id f).tasks.map ServerTask.url = x.tasks.map ServerTask.url :=
    modify_map fun t => (hf t.task).url
  have hplaced : (x.updateTask id f).placed = x.placed :=
    placed_modify (fun _ => rfl) fun t => (hf t.task).ids
  refine { h with
    urls := ?_
    ids := ?_
    placed := ?_
    tasksBelow := h.below_of_ids hids (Nat.le_refl _) }
  · rw [hurls]
    exact h.urls
  · rw [hids]
    exact h.ids
  · rw [hplaced]
    exact h.placed

theorem Registered.readerActs (h : Registered x) (task id : Nat) (e : Ambient) :
    Registered (x.readerActs w task id e) :=
  h.updateTask task fun _ => MsTask.readerActs_sameReaders e.acts

theorem Registered.setClient (h : Registered x) (nc : Nat) (c : Client) :
    Registered (x.setClient nc c) := { h with }

/-- A task without readers can be closed. -/
theorem Registered.closeTask (h : Registered x) {t : ServerTask} (hidle : t.task.readers = [])
    (hsame : ∀ t' ∈ x.tasks, t'.id = t.id → t' = t) : Registered (x.closeTask t) := by
  have hsub : (x.closeTask t).tasks.Sublist x.tasks := List.filter_sublist
  have hplaced : (x.closeTask t).placed = x.placed := by
    apply placed_filter
    intro b hb hgone
    have hid : b.id = t.id := by simpa using hgone
    -- no reader goes with the task
    rw [hsame b hb hid, ServerTask.readerIds, hidle]
    rfl
  refine { h with
    urls := h.urls.sublist (hsub.map _)
    ids := h.ids.sublist (hsub.map _)
    placed := ?_
    tasksBelow := fun t' ht' => h.tasksBelow t' (hsub.subset ht')
    closed := ?_ }
  · rw [hplaced]
    exact h.placed
  · intro t' ht'
    rcases List.mem_append.mp ht' with hold | hnew
    · exact h.closed t' hold
    · rw [List.mem_singleton.mp hnew]
      exact hidle

/-- A clean-up: some tasks are closed, and nothing else is done. -/
structure Cleaned (x x' : MsServer) : Prop where
  registered : Registered x'
  tasks : x'.tasks.Sublist x.tasks
  sessions : x'.sessions = x.sessions
  preloaders : x'.preloaders = x.preloaders
  clients : x'.clients = x.clients
  next : x'.next = x.next
  aborted : x'.aborted = x.aborted

theorem Cleaned.closeTask (hx : Registered x) (h : Cleaned x x') {t : ServerTask}
    (ht : t ∈ x.tasks) (hidle : t.task.readers = []) : Cleaned x (x'.closeTask t) where
  registered := h.registered.closeTask hidle fun _ hb hid =>
    List.inj_on_of_nodup_map hx.ids (h.tasks.subset hb) ht hid
  tasks := List.filter_sublist.trans h.tasks
  sessions := h.sessions
  preloaders := h.preloaders
  clients := h.clients
  next := h.next
  aborted := by
    show (x'.aborted || !t.task.readers.isEmpty) = x.aborted
    rw [hidle, h.aborted]
    exact Bool.or_false _

theorem removeTaskIfNeed_cleaned (hx : Registered x) (clock : Nat → ℚ) (ts : ℚ) :
    Cleaned x (x.removeTaskIfNeed clock ts) := by
  -- the loop goes over the list as it was, so a task is looked at
  -- after others were closed
  have hloop : ∀ (tasks : List ServerTask) (x' : MsServer), (∀ t ∈ tasks, t ∈ x.tasks) →
      Cleaned x x' →
        Cleaned x (tasks.foldl (fun x t => if t.idle clock ts then x.closeTask t else x) x') := by
    intro tasks
    induction tasks with
    | nil => exact fun _ _ h => h
    | cons t tasks ih =>
      intro x' hmem h
      refine ih _ (fun t' ht' => hmem t' (List.mem_cons_of_mem t ht')) ?_
      dsimp only
      split
      · rename_i hidle
        obtain ⟨hempty, -⟩ := Bool.and_eq_true_iff.mp hidle
        exact h.closeTask hx (hmem t List.mem_cons_self) (List.isEmpty_iff.mp hempty)
      · exact h
  exact hloop x.tasks x (fun _ ht => ht) ⟨hx, List.Sublist.refl _, rfl, rfl, rfl, rfl, rfl⟩

/-- The task of a url: it is in the list now, and the rest is as before. -/
structure Found (x x' : MsServer) (task : Nat) : Prop where
  registered : Registered x'
  task : task ∈ x'.tasks.map ServerTask.id
  sessions : x'.sessions = x.sessions
  preloaders : x'.preloaders = x.preloaders
  clients : x'.clients = x.clients
  aborted : x'.aborted = x.aborted

/-- A new task has no readers, and its url is not in the list. -/
theorem Registered.newTask (h : Registered x) {url : List Char}
    (hurl : url ∉ x.tasks.map ServerTask.url) :
    Registered { x with
      tasks := x.tasks ++ [⟨x.next, msTaskOpen url, 0⟩]
      next := x.next + 1 } := by
  have hid : x.next ∉ x.tasks.map ServerTask.id := by
    intro hmem
    obtain ⟨t, ht, hid⟩ := List.mem_map.mp hmem
    exact Nat.lt_irrefl _ (hid ▸ h.tasksBelow t ht)
  refine { h with
    urls := ?_
    ids := ?_
    placed := ?_
    tasksBelow := ?_
    ownersBelow := fun o ho => Nat.lt_succ_of_lt (h.ownersBelow o ho) }
  · rw [List.map_append]
    exact nodup_snoc h.urls hurl
  · rw [List.map_append]
    exact nodup_snoc h.ids hid
  · have hplaced := @placed_snoc _ _ _ ServerTask.id ServerTask.readerIds x.tasks
      ⟨x.next, msTaskOpen url, 0⟩ rfl
    exact (List.Perm.of_eq hplaced).trans h.placed
  · intro t ht
    rcases List.mem_append.mp ht with hold | hnew
    · exact Nat.lt_succ_of_lt (h.tasksBelow t hold)
    · rw [List.mem_singleton.mp hnew]
      exact Nat.lt_succ_self _

theorem findOrCreateTask_found (h : Registered x) (clock : Nat → ℚ) (url : List Char) :
    Found x (x.findOrCreateTask clock url).1 (x.findOrCreateTask clock url).2 := by
  unfold findOrCreateTask
  split
  · rename_i t hfind
    exact ⟨h, List.mem_map_of_mem (List.mem_of_find?_eq_some hfind), rfl, rfl, rfl, rfl⟩
  · rename_i hnone
    -- after the clean-up there is still no task with this url
    have hclean := removeTaskIfNeed_cleaned h clock 5
    have hurl : url ∉ (x.removeTaskIfNeed clock 5).tasks.map ServerTask.url := by
      intro hmem
      obtain ⟨t, ht, hurl⟩ := List.mem_map.mp hmem
      have := List.find?_eq_none.mp hnone t (hclean.tasks.subset ht)
      exact this (decide_eq_true hurl)
    refine ⟨hclean.registered.newTask hurl, ?_, hclean.sessions, hclean.preloaders,
      hclean.clients, hclean.aborted⟩
    dsimp only
    rw [List.map_append]
    exact List.mem_append_right _ List.mem_cons_self

/-! ## Readers -/

/-- A reader is added to its task, for a session or a preloader that is new. -/
theorem Registered.enter (h : Registered x) {r : Reader} (hr : r.id = x.next)
    (htask : task ∈ x.tasks.map ServerTask.id)
    (htasks : x'.tasks =
      modify ServerTask.id task (fun t => { t with task := t.task.addReader w r }) x.tasks)
    (howners : x'.owners.Perm ((x.next, task) :: x.owners))
    (hconnections : (x'.sessions.map SessionEntry.connection).Nodup)
    (hnext : x'.next = x.next + 1) (hclosed : x'.closed = x.closed) : Registered x' := by
  have hids : x'.tasks.map ServerTask.id = x.tasks.map ServerTask.id := by
    rw [htasks]
    exact modify_map fun _ => rfl
  have hurls : x'.tasks.map ServerTask.url = x.tasks.map ServerTask.url := by
    rw [htasks]
    exact modify_map fun _ => MsTask.addReader_url r
  have hplaced : x'.placed.Perm ((x.next, task) :: x.placed) := by
    rw [MsServer.placed, htasks]
    refine placed_modify_add h.ids htask (fun _ => rfl) fun t => ?_
    show ((t.task.addReader w r).readers.map Reader.id) = t.task.readers.map Reader.id ++ [x.next]
    rw [MsTask.addReader_readers, List.map_append, ← hr]
    rfl
  -- addresses are counted up, so no owner has this one
  have hnew : x.next ∉ x.owners.map Prod.fst := by
    intro hmem
    obtain ⟨o, ho, hid⟩ := List.mem_map.mp hmem
    exact Nat.lt_irrefl _ (hid ▸ h.ownersBelow o ho)
  refine ⟨?_, ?_, hconnections, ?_, ?_, h.below_of_ids hids (by omega), ?_, ?_⟩
  · rw [hurls]
    exact h.urls
  · rw [hids]
    exact h.ids
  · rw [(howners.map Prod.fst).nodup_iff]
    exact List.nodup_cons.mpr ⟨hnew, h.owners⟩
  · exact hplaced.trans ((h.placed.cons _).trans howners.symm)
  · intro o ho
    rw [hnext]
    rcases List.mem_cons.mp (howners.mem_iff.mp ho) with hself | hold
    · rw [hself]
      exact Nat.lt_succ_self _
    · exact Nat.lt_succ_of_lt (h.ownersBelow o hold)
  · rw [hclosed]
    exact h.closed

/-- A reader is removed from its task, for a session or a preloader that goes. -/
theorem Registered.leave (h : Registered x) (now : ℚ) {id : Nat} (ho : (id, task) ∈ x.owners)
    (htasks : x'.tasks = modify ServerTask.id task (ServerTask.removeReader now id) x.tasks)
    (howners : x'.owners = x.owners.filter fun o => o.1 ≠ id)
    (hconnections : (x'.sessions.map SessionEntry.connection).Nodup)
    (hnext : x'.next = x.next) (hclosed : x'.closed = x.closed) : Registered x' := by
  have hids : x'.tasks.map ServerTask.id = x.tasks.map ServerTask.id := by
    rw [htasks]
    exact modify_map fun _ => rfl
  have hurls : x'.tasks.map ServerTask.url = x.tasks.map ServerTask.url := by
    rw [htasks]
    exact modify_map fun _ => MsTask.removeReader_sameReaders.url
  have hplaced : x'.placed = x.placed.filter (· ≠ (id, task)) := by
    rw [MsServer.placed, htasks]
    exact placed_modify_remove (fun _ => rfl) fun _ => MsTask.removeReader_ids
  -- there is no other owner with this address
  have hgone : x.owners.filter (fun o => o.1 ≠ id) = x.owners.filter (· ≠ (id, task)) := by
    apply List.filter_congr
    intro o hmem
    have hiff : o.1 = id ↔ o = (id, task) :=
      ⟨fun hid => List.inj_on_of_nodup_map h.owners hmem ho hid, fun heq => congrArg Prod.fst heq⟩
    simp [hiff]
  refine ⟨?_, ?_, hconnections, ?_, ?_, h.below_of_ids hids hnext.ge, ?_, ?_⟩
  · rw [hurls]
    exact h.urls
  · rw [hids]
    exact h.ids
  · rw [howners]
    exact h.owners.sublist (List.filter_sublist.map _)
  · rw [hplaced, howners, hgone]
    exact h.placed.filter _
  · intro o ho
    rw [howners] at ho
    rw [hnext]
    exact h.ownersBelow o (List.mem_filter.mp ho).1
  · rw [hclosed]
    exact h.closed

/-! ## Sessions and preloaders -/

/-- A session and a preloader are never the same reader. -/
theorem Registered.apart (h : Registered x) {s : SessionEntry} (hs : s ∈ x.sessions)
    {p : Preloader} (hp : p ∈ x.preloaders) : s.id ≠ p.id := by
  have hnodup := h.owners
  rw [MsServer.owners, List.map_append, List.nodup_append] at hnodup
  exact hnodup.2.2 _ (List.mem_map_of_mem (List.mem_map_of_mem hs)) _
    (List.mem_map_of_mem (List.mem_map_of_mem hp))

theorem Registered.closeSession (h : Registered x) (now : ℚ) {s : SessionEntry}
    (hs : s ∈ x.sessions) : Registered (x.closeSession now s) := by
  refine h.leave now (session_owner hs) rfl ?_
    (h.connections.sublist (List.filter_sublist.map _)) rfl rfl
  -- the preloaders are kept: none has the address of the session
  have hpreloaders : (x.preloaders.map fun p => (p.id, p.task)).filter (fun o => o.1 ≠ s.id) =
      x.preloaders.map fun p => (p.id, p.task) := by
    rw [List.filter_eq_self]
    intro o ho
    obtain ⟨p, hp, rfl⟩ := List.mem_map.mp ho
    exact decide_eq_true (h.apart hs hp).symm
  rw [MsServer.owners, MsServer.owners, List.filter_append, hpreloaders, List.filter_map]
  rfl

theorem Registered.closePreloader (h : Registered x) (now : ℚ) {p : Preloader}
    (hp : p ∈ x.preloaders) : Registered (x.closePreloader now p) := by
  refine h.leave now (preloader_owner hp) rfl ?_ h.connections rfl rfl
  -- nor has a session that of the preloader
  have hsessions : (x.sessions.map fun s => (s.id, s.task)).filter (fun o => o.1 ≠ p.id) =
      x.sessions.map fun s => (s.id, s.task) := by
    rw [List.filter_eq_self]
    intro o ho
    obtain ⟨s, hs, rfl⟩ := List.mem_map.mp ho
    exact decide_eq_true (h.apart hs hp)
  rw [MsServer.owners, MsServer.owners, List.filter_append, hsessions, List.filter_map]
  rfl

theorem Registered.session_ext (h : Registered x) {s s' : SessionEntry} (hs : s ∈ x.sessions)
    (hs' : s' ∈ x.sessions) (hid : s'.id = s.id) : s' = s := by
  have hnodup := h.owners
  rw [MsServer.owners, List.map_append, List.nodup_append, List.map_map] at hnodup
  exact List.inj_on_of_nodup_map hnodup.1 hs' hs hid

/-- A connection has one session at most, so none is left. -/
theorem Registered.closeSession_free (h : Registered x) (now : ℚ) {s : SessionEntry}
    (hs : s ∈ x.sessions) :
    s.connection ∉ (x.closeSession now s).sessions.map SessionEntry.connection := by
  intro hmem
  obtain ⟨s', hs', hconnection⟩ := List.mem_map.mp hmem
  obtain ⟨hs', hother⟩ := List.mem_filter.mp hs'
  rw [List.inj_on_of_nodup_map h.connections hs' hs hconnection] at hother
  simp at hother

/-- The connection has no session any more. -/
theorem Registered.dropSession (h : Registered x) (now : ℚ) (nc : Nat) :
    Registered (x.dropSession now nc) ∧
      nc ∉ (x.dropSession now nc).sessions.map SessionEntry.connection := by
  unfold MsServer.dropSession findSession
  split
  · rename_i s hfind
    have hs := List.mem_of_find?_eq_some hfind
    have hnc : s.connection = nc := by simpa using List.find?_some hfind
    exact ⟨h.closeSession now hs, hnc ▸ h.closeSession_free now hs⟩
  · rename_i hnone
    refine ⟨h, fun hmem => ?_⟩
    obtain ⟨s, hs, hconnection⟩ := List.mem_map.mp hmem
    exact List.find?_eq_none.mp hnone s hs (decide_eq_true hconnection)

theorem Registered.openSession (h : Registered x) (htask : task ∈ x.tasks.map ServerTask.id)
    (hfree : nc ∉ x.sessions.map SessionEntry.connection) (method : Method)
    (rangeHdr : Option (List Char)) (e : Ambient) :
    Registered (x.openSession w limit nc task method rangeHdr e) := by
  unfold MsServer.openSession
  split
  · exact { h with }
  · rename_i r1 r2 hrange
    -- what `try_transfer_data` does to the client and to the pipes comes
    -- after both lists are changed
    refine Registered.readerActs (Registered.setClient ?_ nc _) task _ e
    refine h.enter (r := ⟨x.next, r1.toNat, 0⟩) rfl htask rfl ?_ ?_ rfl rfl
    · -- the sessions come first among the owners
      have howners : ({ x with sessions := x.sessions ++ [⟨x.next, nc, task⟩] } : MsServer).owners =
          x.sessions.map (fun s => (s.id, s.task)) ++
            (x.next, task) :: x.preloaders.map fun p => (p.id, p.task) := by
        rw [MsServer.owners, List.map_append, List.append_assoc]
        rfl
      exact (List.Perm.of_eq howners).trans List.perm_middle
    · have hsessions : (x.sessions ++ [(⟨x.next, nc, task⟩ : SessionEntry)]).map
          SessionEntry.connection = x.sessions.map SessionEntry.connection ++ [nc] :=
        List.map_append
      exact hsessions ▸ nodup_snoc h.connections hfree

theorem Registered.openPreloader (h : Registered x) (htask : task ∈ x.tasks.map ServerTask.id) :
    Registered (x.openPreloader w task) := by
  refine h.enter (r := ⟨x.next, 0, 0⟩) rfl htask rfl ?_ h.connections rfl rfl
  have howners : ({ x with preloaders := x.preloaders ++ [⟨x.next, task⟩] } : MsServer).owners =
      x.owners ++ [(x.next, task)] := by
    rw [MsServer.owners, List.map_append, ← List.append_assoc]
    rfl
  exact (List.Perm.of_eq howners).trans (List.perm_append_singleton _ _)

/-! ## Events -/

theorem Registered.streamHandler (h : Registered x) (method : Method) (hm : HttpRequest)
    (e : Ambient) : Registered (x.streamHandler w limit nc method hm e) := by
  obtain ⟨hdropped, hfree⟩ := h.dropSession e.now nc
  have hfound := findOrCreateTask_found hdropped e.clock (x.streamUrl hm)
  exact hfound.registered.openSession hfound.task (hfound.sessions ▸ hfree) method hm.rangeHdr e

theorem Registered.sendHandler (h : Registered x) (n : Nat) (e : Ambient) :
    Registered (x.sendHandler w limit nc n e) := by
  unfold MsServer.sendHandler
  split
  · dsimp only
    have hset := h.setClient nc ((x.clients nc).sent limit e.view n)
    generalize x.setClient nc ((x.clients nc).sent limit e.view n) = x' at hset ⊢
    split
    · exact hset
    · -- the session was complete, or it goes on
      rename_i session hfind
      split
      · exact hset.readerActs session.task session.id e
      · exact hset.closeSession e.now (List.mem_of_find?_eq_some hfind)
  · exact h

theorem Registered.callback (h : Registered x) (call : ReaderCall) (e : Ambient) :
    Registered (x.callback w limit nc call e) := by
  unfold MsServer.callback
  split
  · exact h
  · rename_i session _
    exact (h.setClient nc _).readerActs session.task session.id e

theorem Registered.respond (h : Registered x) (bytes : List UInt8) :
    Registered (x.respond nc bytes) := h.setClient nc _

theorem Registered.taskHandler (h : Registered x) (resourceId : Int) (hm : HttpRequest)
    (e : Ambient) : Registered (x.taskHandler w nc resourceId hm e) := by
  unfold MsServer.taskHandler
  split
  · exact h.respond e.reply
  · unfold MsServer.postHandler
    split
    · exact { h with }
    · rename_i resource _
      have hfound := findOrCreateTask_found h e.clock resource.originUrl
      exact (hfound.registered.openPreloader hfound.task).respond _
  · unfold MsServer.deleteHandler
    split
    · split
      · exact h.respond _
      · exact { h with }
    · dsimp only
      split
      · rename_i p hfind
        exact (h.closePreloader e.now (List.mem_of_find?_eq_some hfind)).respond _
      · exact h.respond _
  · exact h

theorem Registered.apiHandler (h : Registered x) (hm : HttpRequest) (e : Ambient) :
    Registered (x.apiHandler w nc hm e) := by
  unfold MsServer.apiHandler
  dsimp only
  split
  · exact h.taskHandler _ hm e
  · split
    · exact h.taskHandler _ hm e
    · exact h.respond e.reply

theorem Registered.requestHandler (h : Registered x) (hm : HttpRequest) (e : Ambient) :
    Registered (x.requestHandler w limit nc hm e) := by
  unfold MsServer.requestHandler
  split
  · split
    · exact h.streamHandler .get hm e
    · exact h.streamHandler .head hm e
    · exact { h with }
  · split
    · exact h.apiHandler hm e
    · exact h.respond e.reply

theorem Registered.generateResource (h : Registered x) (url : List Char) :
    Registered (x.generateResource url) := by
  unfold MsServer.generateResource
  split
  · exact { h with }
  · exact { h with }

/-- **Step lemma.** Every event leaves the lists fitting together. -/
theorem Registered.step (h : Registered x) (event : ServerEvent) :
    Registered (x.step w limit event) := by
  unfold MsServer.step
  split
  · exact h
  · cases event with
    | request nc hm e => exact h.requestHandler hm e
    | send nc n e => exact h.sendHandler n e
    | close nc e => exact (h.dropSession e.now nc).1.setClient nc _
    -- a pipe never adds or removes a reader, whatever the callbacks do
    | pipe task id ev react => exact h.updateTask task fun _ => MsTask.step_sameReaders ev
    | callback nc call e => exact h.callback call e
    | generate url => exact h.generateResource url
    | remove id => exact { h with }
    | stop e => exact (removeTaskIfNeed_cleaned h e.clock 0).registered

theorem initMediaServer_registered : Registered initMediaServer where
  urls := List.nodup_nil
  ids := List.nodup_nil
  connections := List.nodup_nil
  owners := List.nodup_nil
  placed := List.Perm.nil
  tasksBelow _ ht := absurd ht List.not_mem_nil
  ownersBelow _ ho := absurd ho List.not_mem_nil
  closed _ ht := absurd ht List.not_mem_nil

end MsServer

open MsServer in
/-- **The lists of the server fit together** after every event of a run. -/
theorem registry_consistent (w : IntArith) (p : Platform) (events : List ServerEvent) :
    Consistent (run (MsServer.step w p.sendBufLimit) initMediaServer events) := by
  have hstep : ∀ (x : MsServer) (event : ServerEvent), Registered x →
      Registered (x.step w p.sendBufLimit event) := fun _ event h => h.step event
  exact (run_preserves hstep initMediaServer_registered events).consistent

/-- What an event finds at a time. -/
def atTime (now : ℚ) : Ambient := ⟨now, fun _ => now, TaskView.ofFile [], [], []⟩

/-- A resource is streamed and preloaded, the connection goes on to another
    url, the preloader is deleted, and a third url is asked for later. -/
def visits : List MsServer.ServerEvent :=
  [.generate ['u'],
    .request 7 ⟨.get, "/stream/1/a".toList, [], [], none⟩ (atTime 0),
    .request 8 ⟨.post, "/api/tasks".toList, [], ['1'], none⟩ (atTime 1),
    .request 7 ⟨.get, "/stream/b".toList, ['v'], [], none⟩ (atTime 2),
    .request 8 ⟨.delete, "/api/tasks/1".toList, [], [], none⟩ (atTime 3),
    .request 9 ⟨.get, "/stream/c".toList, ['w'], [], none⟩ (atTime 20)]

/-- The task of the resource is closed as the third one is made. -/
example : let x := run (MsServer.step exactInt 4096) initMediaServer visits
    x.tasks.map ServerTask.url = [['v'], ['w']] ∧ x.tasks.map ServerTask.readerIds = [[4], [6]] ∧
      x.closed.map ServerTask.url = [['u']] ∧ x.aborted = false := by decide +kernel

end Libms
