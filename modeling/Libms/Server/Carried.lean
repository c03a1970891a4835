import Mathlib
import Libms.Server.Preload
import Libms.Server.Served

/-! # What an event leaves

    Tasks are shared by sessions and preloaders, closed when they were idle
    and made again. None of this mixes up the files of two urls.

    * `Carried`: what is left of the tasks, handler by handler.
    * `Running.of_carried`: the sessions that stay have the files they had.
    * `Aside`: requests that are not for a stream. -/

namespace Libms

open Buckets Runs

namespace MsServer

/-! ## What becomes of the tasks -/

/-- The tasks carry their files. Each was there before with the same url and
    the same bytes, or has a new address. -/
structure Carried (origin : List Char → List UInt8) (x x' : MsServer) : Prop where
  next : x.next ≤ x'.next
  whole : ∀ t' ∈ x'.tasks, Whole origin t'
  known : ∀ t' ∈ x'.tasks,
    (∃ t ∈ x.tasks, t.id = t'.id ∧ t.task.url = t'.task.url ∧
      t.task.storage = t'.task.storage) ∨ x.next ≤ t'.id

section carried

variable {w : IntArith} {limit nc task : Nat} {origin : List Char → List UInt8}
  {asked : Nat → Option Asked} {x x' x'' : MsServer} {f : MsTask → MsTask}

theorem Carried.of_tasks (hx : ∀ t ∈ x.tasks, Whole origin t) (htasks : x'.tasks = x.tasks)
    (hnext : x.next ≤ x'.next) : Carried origin x x' where
  next := hnext
  whole := by rw [htasks]; exact hx
  known t' ht' := Or.inl ⟨t', htasks ▸ ht', rfl, rfl, rfl⟩

theorem Carried.trans (h : Carried origin x x') (h' : Carried origin x' x'') :
    Carried origin x x'' where
  next := Nat.le_trans h.next h'.next
  whole := h'.whole
  known t ht := by
    rcases h'.known t ht with ⟨t', ht', hid, hurl, hst⟩ | hnew
    · rcases h.known t' ht' with ⟨t₀, ht₀, hid₀, hurl₀, hst₀⟩ | hnew
      · exact Or.inl ⟨t₀, ht₀, hid₀.trans hid, hurl₀.trans hurl, hst₀.trans hst⟩
      · exact Or.inr (hid ▸ hnew)
    · exact Or.inr (Nat.le_trans h.next hnew)

/-- A task that was there keeps its url and its bytes. -/
theorem Carried.same (h : Carried origin x x') (hx : Registered x) {t t' : ServerTask}
    (ht : t ∈ x.tasks) (ht' : t' ∈ x'.tasks) (hid : t'.id = t.id) :
    t'.task.url = t.task.url ∧ t'.task.storage = t.task.storage := by
  rcases h.known t' ht' with ⟨t₀, ht₀, hid₀, hurl₀, hst₀⟩ | hnew
  · rw [← hurl₀, ← hst₀, List.inj_on_of_nodup_map hx.ids ht₀ ht (hid₀.trans hid)]
    exact ⟨rfl, rfl⟩
  · have hbelow := hx.tasksBelow t ht
    omega

/-- One task changes, and still carries its file. -/
theorem Carried.modify {f : ServerTask → ServerTask} (hx : ∀ t ∈ x.tasks, Whole origin t)
    (htasks : x'.tasks = modify ServerTask.id task f x.tasks) (hnext : x.next ≤ x'.next)
    (hid : ∀ t, (f t).id = t.id)
    (hsame : ∀ t, (f t).task.url = t.task.url ∧ (f t).task.storage = t.task.storage)
    (hf : ∀ t, Whole origin t → Whole origin (f t)) : Carried origin x x' where
  next := hnext
  whole t' ht' := by
    rw [htasks] at ht'
    rcases mem_modify.mp ht' with ⟨t₀, ht₀, -, rfl⟩ | ⟨hold, -⟩
    · exact hf t₀ (hx t₀ ht₀)
    · exact hx t' hold
  known t' ht' := by
    rw [htasks] at ht'
    rcases mem_modify.mp ht' with ⟨t₀, ht₀, -, rfl⟩ | ⟨hold, -⟩
    · exact Or.inl ⟨t₀, ht₀, (hid t₀).symm, (hsame t₀).1.symm, (hsame t₀).2.symm⟩
    · exact Or.inl ⟨t', hold, rfl, rfl, rfl⟩

/-- What is the same of a task for its sessions. -/
theorem Whole.of_intact {t t' : ServerTask} (hurl : t'.task.url = t.task.url)
    (h : t'.task.Intact (origin t.task.url) none) : Whole origin t' := by
  unfold Whole
  rw [hurl]
  exact h

theorem removeReader_carried (hx : ∀ t ∈ x.tasks, Whole origin t) {now : ℚ} {reader : Nat}
    (htasks : x'.tasks = modify ServerTask.id task (ServerTask.removeReader now reader) x.tasks)
    (hnext : x.next ≤ x'.next) : Carried origin x x' := by
  have hurl : ∀ t : ServerTask, (ServerTask.removeReader now reader t).task.url = t.task.url :=
    fun t => MsTask.removeReader_sameReaders.url
  exact .modify hx htasks hnext (fun _ => rfl) (fun t => ⟨hurl t, MsTask.removeReader_storage⟩)
    fun t ht => .of_intact (hurl t) (MsTask.Intact.removeReader ht reader)

theorem addReader_carried (hx : ∀ t ∈ x.tasks, Whole origin t) {r : Reader}
    (htasks : x'.tasks =
      modify ServerTask.id task (fun t => { t with task := t.task.addReader w r }) x.tasks)
    (hnext : x.next ≤ x'.next) : Carried origin x x' := by
  exact .modify hx htasks hnext (fun _ => rfl)
    (fun _ => ⟨MsTask.addReader_url r, MsTask.addReader_storage r⟩) fun _ ht =>
      .of_intact (MsTask.addReader_url r) (MsTask.intact_readerInvariant.addReader r ht)

theorem Carried.readerActs (h : Carried origin x x') (reader : Nat) (e : Ambient) :
    Carried origin x (x'.readerActs w task reader e) := by
  refine h.trans (.modify h.whole rfl (Nat.le_refl _) (fun _ => rfl) ?_ ?_)
  · exact fun _ => ⟨(MsTask.readerActs_sameReaders e.acts).url, MsTask.readerActs_storage e.acts⟩
  · exact fun _ ht => whole_readable.acts reader e.acts ht

theorem Carried.setClient (h : Carried origin x x') (nc : Nat) (c : Client) :
    Carried origin x (x'.setClient nc c) :=
  h.trans (.of_tasks h.whole rfl (Nat.le_refl _))

theorem dropSession_carried (hx : ∀ t ∈ x.tasks, Whole origin t) (now : ℚ) (nc : Nat) :
    Carried origin x (x.dropSession now nc) := by
  unfold dropSession
  split
  · exact removeReader_carried hx rfl (Nat.le_refl _)
  · exact .of_tasks hx rfl (Nat.le_refl _)

theorem removeTaskIfNeed_carried (hx : ∀ t ∈ x.tasks, Whole origin t) (h : Registered x)
    (clock : Nat → ℚ) (ts : ℚ) : Carried origin x (x.removeTaskIfNeed clock ts) := by
  have hclean := removeTaskIfNeed_cleaned h clock ts
  refine ⟨hclean.next.ge, fun t' ht' => hx t' (hclean.tasks.subset ht'), fun t' ht' => ?_⟩
  exact Or.inl ⟨t', hclean.tasks.subset ht', rfl, rfl, rfl⟩

/-- The task of a url: one that was there, or one without a byte. -/
theorem findOrCreateTask_carried (hx : ∀ t ∈ x.tasks, Whole origin t) (h : Registered x)
    (clock : Nat → ℚ) (url : List Char) : Carried origin x (x.findOrCreateTask clock url).1 := by
  have hfound := findOrCreateTask_found h clock url
  have hnext : x.next ≤ (x.findOrCreateTask clock url).1.next := by
    unfold findOrCreateTask
    split
    · exact Nat.le_refl _
    · exact Nat.le_succ_of_le (removeTaskIfNeed_cleaned h clock 5).next.ge
  obtain ⟨t₀, ht₀, hid₀, hurl₀, hwhich⟩ := findOrCreateTask_entry h clock url
  have hcases : ∀ t' ∈ (x.findOrCreateTask clock url).1.tasks,
      t' ∈ x.tasks ∨ t' = ⟨x.next, msTaskOpen url, 0⟩ := by
    intro t' ht'
    by_cases hother : t'.id = (x.findOrCreateTask clock url).2
    · rw [List.inj_on_of_nodup_map hfound.registered.ids ht' ht₀ (hother.trans hid₀.symm)]
      exact hwhich.imp_right And.left
    · exact Or.inl (findOrCreateTask_others h clock url t' ht' hother)
  refine ⟨hnext, fun t' ht' => ?_, fun t' ht' => ?_⟩
  · rcases hcases t' ht' with hold | rfl
    · exact hx t' hold
    · exact MsTask.msTaskOpen_intact (origin url) url
  · rcases hcases t' ht' with hold | rfl
    · exact Or.inl ⟨t', hold, rfl, rfl, rfl⟩
    · exact Or.inr (Nat.le_refl _)

/-! ## The sessions that stay -/

/-- The sessions that are left have the tasks that they had. -/
theorem Running.of_carried (h : Running limit origin asked x) (hx : Registered x)
    (hlinked : Linked x') (hsessions : x'.sessions ⊆ x.sessions) (hcarried : Carried origin x x')
    (hdelivers : ∀ nc a, asked nc = some a →
      (x'.clients nc).Delivers limit (origin a.url) a.r1 a.r2) : Running limit origin asked x' where
  linked := hlinked
  url s hs t' ht' hid := by
    obtain ⟨t, ht, hid₀⟩ := List.mem_map.mp (hx.mem_task (session_owner (hsessions hs)))
    rw [(hcarried.same hx ht ht' (hid.trans hid₀.symm)).1]
    exact h.url s (hsessions hs) t ht hid₀
  delivers := hdelivers

/-! ## Requests that are not for a stream -/

/-- A connection without a session is written to, if anything is. -/
structure Beside (nc : Nat) (x x' : MsServer) : Prop where
  sessions : x'.sessions = x.sessions
  others : ∀ nc', nc' ≠ nc → x'.clients nc' = x.clients nc'
  log : (x'.clients nc).log = (x.clients nc).log
  live : (x'.clients nc).live = (x.clients nc).live
  fault : (x'.clients nc).fault = (x.clients nc).fault

theorem Beside.of_eq (hsessions : x'.sessions = x.sessions) (hclients : x'.clients = x.clients) :
    Beside nc x x' :=
  ⟨hsessions, fun _ _ => by rw [hclients], by rw [hclients], by rw [hclients], by rw [hclients]⟩

theorem Beside.respond (h : Beside nc x x') (bytes : List UInt8) :
    Beside nc x (x'.respond nc bytes) where
  sessions := h.sessions
  others nc' hne := by
    show Function.update x'.clients nc _ nc' = _
    rw [Function.update_of_ne hne]
    exact h.others nc' hne
  log := by
    show (Function.update x'.clients nc _ nc).log = _
    rw [Function.update_self]
    exact h.log
  live := by
    show (Function.update x'.clients nc _ nc).live = _
    rw [Function.update_self]
    exact h.live
  fault := by
    show (Function.update x'.clients nc _ nc).fault = _
    rw [Function.update_self]
    exact h.fault

/-- What a handler of the API leaves of the tasks and of the clients. -/
structure Aside (origin : List Char → List UInt8) (nc : Nat) (x x' : MsServer) : Prop where
  carried : Carried origin x x'
  beside : Beside nc x x'

theorem Aside.respond (h : Aside origin nc x x') (bytes : List UInt8) :
    Aside origin nc x (x'.respond nc bytes) :=
  ⟨h.carried.setClient nc _, h.beside.respond bytes⟩

theorem Aside.refl (hx : ∀ t ∈ x.tasks, Whole origin t) : Aside origin nc x x :=
  ⟨.of_tasks hx rfl (Nat.le_refl _), .of_eq rfl rfl⟩

theorem taskHandler_aside (hx : ∀ t ∈ x.tasks, Whole origin t) (h : Registered x)
    (resourceId : Int) (hm : HttpRequest) (e : Ambient) :
    Aside origin nc x (x.taskHandler w nc resourceId hm e) := by
  unfold MsServer.taskHandler
  split
  · exact (Aside.refl hx).respond e.reply
  · unfold MsServer.postHandler
    split
    · exact ⟨.of_tasks hx rfl (Nat.le_refl _), .of_eq rfl rfl⟩
    · rename_i resource _
      have hfound := findOrCreateTask_found h e.clock resource.originUrl
      have hcarried := findOrCreateTask_carried hx h e.clock resource.originUrl
      have hopened : Aside origin nc x
          ((x.findOrCreateTask e.clock resource.originUrl).1.openPreloader w
            (x.findOrCreateTask e.clock resource.originUrl).2) :=
        ⟨hcarried.trans (addReader_carried hcarried.whole rfl (Nat.le_succ _)),
          .of_eq hfound.sessions hfound.clients⟩
      exact hopened.respond _
  · unfold MsServer.deleteHandler
    split
    · split
      · exact (Aside.refl hx).respond _
      · exact ⟨.of_tasks hx rfl (Nat.le_refl _), .of_eq rfl rfl⟩
    · dsimp only
      split
      · rename_i p _
        have hclosed : Aside origin nc x (x.closePreloader e.now p) :=
          ⟨removeReader_carried hx rfl (Nat.le_refl _), .of_eq rfl rfl⟩
        exact hclosed.respond _
      · exact (Aside.refl hx).respond _
  · exact Aside.refl hx

theorem requestHandler_aside (hx : ∀ t ∈ x.tasks, Whole origin t) (h : Registered x)
    {hm : HttpRequest} (hother : Proxy.streams hm = false) (e : Ambient) :
    Aside origin nc x (x.requestHandler w limit nc hm e) := by
  have hpath : ¬ hasPrefix hm.uri "/stream/".toList = true := by
    unfold Proxy.streams at hother
    rw [hother]
    exact Bool.false_ne_true
  unfold MsServer.requestHandler
  rw [if_neg hpath]
  split
  · unfold MsServer.apiHandler
    dsimp only
    split
    · exact taskHandler_aside hx h _ hm e
    · split
      · exact taskHandler_aside hx h _ hm e
      · exact (Aside.refl hx).respond e.reply
  · exact (Aside.refl hx).respond e.reply

/-- Beside a connection all clients go on getting what they asked for. -/
theorem Running.beside (h : Running limit origin asked x) (hx : Registered x)
    (hlinked : Linked x') (hover : (x.clients nc).live = false) (haside : Aside origin nc x x') :
    Running limit origin asked x' := by
  refine h.of_carried hx hlinked (fun _ hs => haside.beside.sessions ▸ hs) haside.carried
    fun nc' a ha => ?_
  by_cases hnc : nc' = nc
  · rw [hnc] at ha ⊢
    exact (h.delivers nc a ha).of_over hover haside.beside.log
      (haside.beside.live.trans hover) haside.beside.fault
  · rw [haside.beside.others nc' hnc]
    exact h.delivers nc' a ha

end carried

end MsServer

end Libms
