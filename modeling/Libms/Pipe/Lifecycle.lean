import Mathlib
import Libms.Framework.Runs
import Libms.Pipe.Closing

/-! # The life of a pipe

    A pipe outlives its connections: a redirect closes one and opens the
    next, and the pipe is freed with the last of them. Its phases:

    * `InUse`: the connection reads a response.
    * `Redirecting`: the reply was a redirect, the connection is about to be
      closed, and the next one opens then.
    * `Closing`: the pipe was closed, its connection not yet.
    * `Freed`: that connection is closed too.
    * `Aborted`: an assert failed.

    Each event leads from a phase to a phase (`lifeStep_phased`), and
    `pipe_lifecycle` reads off what the phases say about the callbacks, the
    connections and the freeing. -/

namespace Libms

open Runs Text

variable {σ : Type*}

/-! ## Connections -/

/-- A connection: the code of the response it reads, and whether its reply
    and its close have been seen. -/
structure Conn where
  response : Option Int
  replied : Bool
  closed : Bool

/-- A new connection. -/
def Conn.fresh : Conn := ⟨none, false, false⟩

/-- The connection after an event. -/
def Conn.after (c : Conn) : PipeEvent → Conn
  | .connect _ => c
  | .httpChunk hm => { c with response := some hm.respCode }
  | .httpReply hm => ⟨some hm.respCode, true, c.closed⟩
  | .close => { c with closed := true }

/-- The events that mongoose raises on an open connection. The head of a
    response stays in the receive buffer until its reply, and each chunk and
    the reply are parsed from there. There is one reply. -/
def Conn.Raises (c : Conn) : PipeEvent → Prop
  | .connect _ => True
  | .httpChunk hm => c.replied = false → c.response = none ∨ c.response = some hm.respCode
  | .httpReply hm => c.replied = false ∧ (c.response = none ∨ c.response = some hm.respCode)
  | .close => True

/-- The connection reads a response whose body the pipe takes. -/
def Conn.IsData (c : Conn) : Prop := c.response = some 200 ∨ c.response = some 206

/-- A pipe and all its connections: the `k`-th one is for the `k`-th request. -/
structure Life (σ : Type*) where
  owner : σ × List Watch
  pipe : HttpPipe
  conns : Nat → Conn

/-- What happens: an event on a connection, or something between two events
    that changes the owner and may close the pipe. -/
inductive LifeEvent (σ : Type*) where
  | mg (k : Nat) (ev : PipeEvent)
  | between (f : σ → σ) (closes : Bool)

/-- An event on connection `k` was handled, and left `y`. -/
def Life.handled (x : Life σ) (k : Nat) (ev : PipeEvent)
    (y : (σ × List Watch) × HttpPipe) : Life σ :=
  ⟨y.1, y.2, Function.update x.conns k ((x.conns k).after ev)⟩

/-- One event. -/
def lifeStep (o : PipeOwner σ) (x : Life σ) : LifeEvent σ → Life σ
  | .mg k ev =>
    if x.pipe.aborted then x
    else x.handled k ev (pipeHandler o.watched ev (x.owner, x.pipe))
  | .between f closes => ⟨(f x.owner.1, x.owner.2), x.pipe.closeIf closes, x.conns⟩

/-- mongoose raises events on connections that were made and are open. -/
def Admitted (x : Life σ) : LifeEvent σ → Prop
  | .mg k ev => k < x.pipe.requests.length ∧ (x.conns k).closed = false ∧ (x.conns k).Raises ev
  | .between _ _ => True

/-- A pipe that was created and connected. -/
def startLife (s : σ) (url : List Char) (pos : Nat) (len : Int) : Life σ :=
  ⟨(s, []), (msHttpPipeCreate url pos len).pipeConnect, fun _ => .fresh⟩

/-! ## Phases -/

namespace Life

/-- The `on_complete` and `on_close` calls. -/
def terminals (log : List Watch) : List Watch := log.filter (·.call.isTerminal)

/-- What holds in each phase, when connection `k` is the last one. -/
structure Base (range : List Char) (k : Nat) (x : Life σ) : Prop where
  count : x.pipe.requests.length = k + 1
  bounded : k ≤ msMaxRedirectTime
  past : ∀ j < k, (x.conns j).closed = true
  future : ∀ j, k < j → x.conns j = .fresh
  sameRange : ∀ r ∈ x.pipe.requests, r.2 = range
  once : (terminals x.owner.2).length ≤ 1
  quiet : ∀ e ∈ terminals x.owner.2, e.closed = false

structure InUse (range : List Char) (k : Nat) (x : Life σ) : Prop where
  running : x.pipe.aborted = false
  closing : x.pipe.closing = false
  redirecting : x.pipe.redirecting = false
  freed : x.pipe.freed = 0
  live : (x.conns k).closed = false
  unreplied : (x.conns k).replied = false
  unended : terminals x.owner.2 = []
  redirects : x.pipe.redirectTime = k
  range : ¬ (x.conns k).IsData → x.pipe.rangeHeader = range

structure Redirecting (range : List Char) (k : Nat) (x : Life σ) : Prop where
  running : x.pipe.aborted = false
  closing : x.pipe.closing = false
  redirecting : x.pipe.redirecting = true
  freed : x.pipe.freed = 0
  live : (x.conns k).closed = false
  unended : terminals x.owner.2 = []
  redirects : x.pipe.redirectTime = k + 1
  room : k + 1 ≤ msMaxRedirectTime
  range : x.pipe.rangeHeader = range

structure Closing (k : Nat) (x : Life σ) : Prop where
  running : x.pipe.aborted = false
  closing : x.pipe.closing = true
  immediately : x.pipe.closeImmediately = true
  freed : x.pipe.freed = 0
  live : (x.conns k).closed = false

structure Freed (k : Nat) (x : Life σ) : Prop where
  running : x.pipe.aborted = false
  closing : x.pipe.closing = true
  freed : x.pipe.freed = 1
  ended : (x.conns k).closed = true

structure Aborted (x : Life σ) : Prop where
  aborted : x.pipe.aborted = true
  freed : x.pipe.freed = 0

/-- The pipe is in one of its phases. -/
inductive Phase (range : List Char) (k : Nat) (x : Life σ) : Prop where
  | inUse (h : InUse range k x)
  | redirecting (h : Redirecting range k x)
  | closing (h : Closing k x)
  | freed (h : Freed k x)
  | aborted (h : Aborted x)

/-- The invariant. -/
def Phased (range : List Char) (x : Life σ) : Prop :=
  ∃ k, Base range k x ∧ Phase range k x

theorem startLife_phased (s : σ) (url : List Char) (pos : Nat) (len : Int) :
    Phased (msHttpPipeCreate url pos len).rangeHeader (startLife s url pos len) := by
  refine ⟨0, ?_, .inUse ?_⟩
  · constructor
    · rfl
    · exact Nat.zero_le _
    · exact fun j hj => absurd hj (Nat.not_lt_zero j)
    · exact fun j _ => rfl
    · intro r hr
      rw [List.mem_singleton.mp hr]
    · exact Nat.zero_le 1
    · exact fun e he => by cases he
  · exact ⟨rfl, rfl, rfl, rfl, rfl, rfl, rfl, rfl, fun _ => rfl⟩

/-! ## One event -/

section step

variable {o : PipeOwner σ} {x : Life σ} {range : List Char} {k : Nat}

/-- The events of a pipe come on its last connection. -/
theorem Base.last (h : Base range k x) {j : Nat} (hj : j < x.pipe.requests.length)
    (hopen : (x.conns j).closed = false) : j = k := by
  have hcount := h.count
  by_contra hne
  -- a connection before the last was closed before the pipe connected again
  have hclosed := h.past j (by omega)
  rw [hopen] at hclosed
  cases hclosed

theorem handled_conn (ev : PipeEvent) (y : (σ × List Watch) × HttpPipe) :
    (x.handled k ev y).conns k = (x.conns k).after ev := Function.update_self ..

theorem handled_other (ev : PipeEvent) (y : (σ × List Watch) × HttpPipe) {j : Nat} (hj : j ≠ k) :
    (x.handled k ev y).conns j = x.conns j := Function.update_of_ne hj ..

/-- A step that makes no connection and no terminal call. -/
theorem Base.handled (h : Base range k x) {ev : PipeEvent} {y : (σ × List Watch) × HttpPipe}
    (hrequests : y.2.requests = x.pipe.requests)
    (hlog : terminals y.1.2 = terminals x.owner.2) : Base range k (x.handled k ev y) where
  count := hrequests ▸ h.count
  bounded := h.bounded
  past j hj := by
    rw [handled_other ev y (by omega)]
    exact h.past j hj
  future j hj := by
    rw [handled_other ev y (by omega)]
    exact h.future j hj
  sameRange := hrequests ▸ h.sameRange
  once := hlog ▸ h.once
  quiet := hlog ▸ h.quiet

theorem terminals_append (log log' : List Watch) :
    terminals (log ++ log') = terminals log ++ terminals log' := List.filter_append ..

/-- The first terminal call, made to an open pipe. -/
theorem Base.ended (h : Base range k x) {ev : PipeEvent} {y : (σ × List Watch) × HttpPipe}
    {call : PipeCall} (hunended : terminals x.owner.2 = [])
    (hrequests : y.2.requests = x.pipe.requests)
    (hlog : y.1.2 = x.owner.2 ++ [⟨call, false⟩]) : Base range k (x.handled k ev y) := by
  have hbefore : Base range k (x.handled k ev ((y.1.1, x.owner.2), y.2)) :=
    h.handled hrequests rfl
  have hnew : terminals y.1.2 = terminals [⟨call, false⟩] := by
    rw [hlog, terminals_append, hunended, List.nil_append]
  -- it is the first and only one
  have honce : (terminals y.1.2).length ≤ 1 := by
    rw [hnew]
    exact List.length_filter_le _ _
  have hquiet : ∀ e ∈ terminals y.1.2, e.closed = false := by
    intro e he
    rw [hnew] at he
    rw [List.mem_singleton.mp (List.mem_of_mem_filter he)]
  exact { hbefore with once := honce, quiet := hquiet }

theorem handled_live {ev : PipeEvent} (hev : ev ≠ .close) (y : (σ × List Watch) × HttpPipe)
    (hlive : (x.conns k).closed = false) : ((x.handled k ev y).conns k).closed = false := by
  rw [handled_conn]
  cases ev with
  | connect status => exact hlive
  | httpChunk hm => exact hlive
  | httpReply hm => exact hlive
  | close => exact absurd rfl hev

theorem lifeStep_mg (hrunning : x.pipe.aborted = false) (ev : PipeEvent) :
    lifeStep o x (.mg k ev) = x.handled k ev (pipeHandler o.watched ev (x.owner, x.pipe)) := by
  unfold lifeStep
  dsimp only
  rw [hrunning, if_neg Bool.false_ne_true]

/-! ### A pipe in use -/

theorem InUse.step (h : InUse range k x) (ev : PipeEvent) :
    lifeStep o x (.mg k ev) = x.handled k ev (openHandler o.watched ev (x.owner, x.pipe)) := by
  rw [lifeStep_mg h.running]
  unfold pipeHandler
  dsimp only
  rw [h.running, h.closing, h.redirecting]
  rfl

/-- Nothing was done. -/
theorem InUse.idle (h : InUse range k x) (hb : Base range k x) (status : Int) :
    Phased range (x.handled k (.connect status) (x.owner, x.pipe)) := by
  refine ⟨k, hb.handled rfl rfl, .inUse ?_⟩
  have hconn : (x.handled k (.connect status) (x.owner, x.pipe)).conns k = x.conns k :=
    handled_conn _ _
  exact { h with
    live := by rw [hconn, h.live]
    unreplied := by rw [hconn, h.unreplied]
    range := by
      rw [hconn]
      exact h.range }

/-- Data callbacks are no terminal ones. -/
theorem play_terminals {cs : List Planned} (hcs : ∀ c ∈ cs, c.call.isTerminal = false)
    (s : σ × List Watch) (closed : Bool) :
    terminals (play o cs s closed).1.2 = terminals s.2 := by
  induction cs generalizing s closed with
  | nil => rfl
  | cons c cs ih =>
    have hnot : terminals [(⟨c.call, closed⟩ : Watch)] = [] :=
      List.filter_cons_of_neg (by rw [hcs c List.mem_cons_self]; exact Bool.false_ne_true)
    rw [play]
    dsimp only
    rw [ih fun c' hc' => hcs c' (List.mem_cons_of_mem _ hc'), terminals_append, hnot,
      List.append_nil]

/-- A response of another code leaves the pipe as it is. -/
theorem planChunk_other {unknown : Bool} {hm : HttpMessage} {p : HttpPipe}
    (hcode : hm.respCode ≠ 200 ∧ hm.respCode ≠ 206) : planChunk unknown hm p = ([], p) :=
  if_pos hcode

/-- The response was known to be no data, if it is none now. -/
theorem not_isData_of_raises {c : Conn} {code : Int} (hcode : code ≠ 200 ∧ code ≠ 206)
    (h : c.response = none ∨ c.response = some code) : ¬ c.IsData := by
  unfold Conn.IsData
  rcases h with h | h
  · simp [h]
  · simp [h, hcode]

theorem InUse.chunk (h : InUse range k x) (hb : Base range k x) {hm : HttpMessage}
    (hraises : (x.conns k).Raises (.httpChunk hm)) :
    Phased range (x.handled k (.httpChunk hm) (onHttpChunk o.watched hm (x.owner, x.pipe))) := by
  rw [chunk_lands h.closing]
  generalize hplan : planChunk (unknownAfterHeader o hm x.owner.1 x.pipe) hm x.pipe = plan
  have htame : Tame x.pipe plan := by
    rw [← hplan]
    exact planChunk_tame _ hm
  have hlog := play_terminals (o := o) htame.data x.owner false
  have hfreed := htame.freed.trans h.freed
  have hlive : ∀ y, ((x.handled k (.httpChunk hm) y).conns k).closed = false :=
    fun y => handled_live (by simp) y h.live
  unfold land
  generalize play o plan.1 x.owner false = played at hlog
  obtain ⟨s, closed⟩ := played
  cases closed with
  -- a data callback has closed the pipe
  | true =>
    refine ⟨k, hb.handled htame.requests hlog, ?_⟩
    cases haborted : plan.2.aborted with
    | true => exact .aborted ⟨haborted, hfreed⟩
    | false => exact .closing ⟨haborted, rfl, rfl, hfreed, hlive _⟩
  | false =>
    refine ⟨k, hb.handled htame.requests hlog, ?_⟩
    cases haborted : plan.2.aborted with
    | true => exact .aborted ⟨haborted, hfreed⟩
    | false =>
      refine .inUse ⟨haborted, htame.closing.trans h.closing,
        htame.redirecting.trans h.redirecting, hfreed, hlive _, ?_, hlog.trans h.unended,
        htame.redirectTime.trans h.redirects, ?_⟩
      · rw [handled_conn]
        exact h.unreplied
      · intro hdata
        rw [handled_conn] at hdata
        have hcode : hm.respCode ≠ 200 ∧ hm.respCode ≠ 206 := by
          simpa [Conn.IsData, Conn.after] using hdata
        -- the chunk is dropped, and so were those before it
        have hsame : plan = ([], x.pipe) := hplan ▸ planChunk_other hcode
        rw [hsame]
        exact h.range (not_isData_of_raises hcode (hraises h.unreplied))

theorem deliver_watched (call : PipeCall) (s : σ × List Watch) (p : HttpPipe) :
    deliver o.watched call (s, p) =
      (((o.call s.1 p call).1, s.2 ++ [⟨call, p.closing⟩]), p.closeIf (o.call s.1 p call).2) := rfl

/-- A redirect is followed once the connection is closed. -/
theorem InUse.redirect (h : InUse range k x) (hb : Base range k x) {hm : HttpMessage}
    (hraises : (x.conns k).Raises (.httpReply hm))
    (hcode : hm.respCode ≠ 200 ∧ hm.respCode ≠ 206) (hroom : k + 1 ≤ msMaxRedirectTime)
    {s : σ × List Watch} (hlog : terminals s.2 = terminals x.owner.2)
    (url : List Char) (closed : Bool) :
    Phased range (x.handled k (.httpReply hm)
      (s, { ({ x.pipe with redirectTime := x.pipe.redirectTime + 1, url := url } :
        HttpPipe).closeIf closed with redirecting := true, closeImmediately := true })) := by
  have hlive : ∀ y, ((x.handled k (.httpReply hm) y).conns k).closed = false :=
    fun y => handled_live (by simp) y h.live
  cases closed with
  | true =>
    refine ⟨k, hb.handled rfl hlog, .closing ⟨h.running, rfl, rfl, h.freed, hlive _⟩⟩
  | false =>
    refine ⟨k, hb.handled rfl hlog, .redirecting ⟨h.running, h.closing, rfl, h.freed, hlive _,
      hlog.trans h.unended, congrArg (· + 1) h.redirects, hroom, ?_⟩⟩
    -- no chunk of this connection moved the pipe
    exact h.range (not_isData_of_raises hcode hraises.2)

section ending

variable (hends : ∀ s p c, c.isTerminal = true → (o.call s p c).2 = true)

include hends

/-- The owner closes the pipe in a terminal call. -/
theorem deliver_terminal {call : PipeCall} (hcall : call.isTerminal = true)
    (s : σ × List Watch) (p : HttpPipe) :
    deliver o.watched call (s, p) =
      (((o.call s.1 p call).1, s.2 ++ [⟨call, p.closing⟩]), p.pipeClose) := by
  rw [deliver_watched, hends s.1 p call hcall]
  rfl

/-- A terminal call on the way, for a pipe `p` with the fields of the one in use. -/
theorem InUse.ended (h : InUse range k x) (hb : Base range k x) {ev : PipeEvent}
    (hev : ev ≠ .close) {call : PipeCall} (hcall : call.isTerminal = true) {p : HttpPipe}
    (hrunning : p.aborted = false) (hclosing : p.closing = false)
    (hrequests : p.requests = x.pipe.requests) (hfreed : p.freed = 0) :
    Phased range (x.handled k ev (deliver o.watched call (x.owner, p))) := by
  rw [deliver_terminal hends hcall, hclosing]
  refine ⟨k, hb.ended h.unended hrequests rfl, .closing ⟨hrunning, rfl, rfl, hfreed, ?_⟩⟩
  exact handled_live hev _ h.live

theorem InUse.connect (h : InUse range k x) (hb : Base range k x) (status : Int) :
    Phased range (x.handled k (.connect status)
      (openHandler o.watched (.connect status) (x.owner, x.pipe))) := by
  unfold openHandler
  dsimp only
  split
  · exact h.ended hends hb (by simp) rfl h.running h.closing rfl h.freed
  · exact h.idle hb status

theorem InUse.reply (h : InUse range k x) (hb : Base range k x) {hm : HttpMessage}
    (hraises : (x.conns k).Raises (.httpReply hm)) :
    Phased range (x.handled k (.httpReply hm) (onHttpReply o.watched hm (x.owner, x.pipe))) := by
  unfold onHttpReply
  dsimp only
  by_cases hredirect :
      hm.respCode = 301 ∨ hm.respCode = 302 ∨ hm.respCode = 307 ∨ hm.respCode = 308
  · rw [if_pos hredirect]
    -- a redirect is no data, so no chunk of this response was taken
    have hcode : hm.respCode ≠ 200 ∧ hm.respCode ≠ 206 := by omega
    by_cases hlast : x.pipe.redirectTime + 1 > msMaxRedirectTime
    · rw [if_pos hlast]
      -- the fourth redirect ends the pipe
      exact h.ended hends hb (by simp) rfl h.running h.closing rfl h.freed
    · rw [if_neg hlast]
      have hroom : k + 1 ≤ msMaxRedirectTime := by
        rw [← h.redirects]
        exact Nat.not_lt.mp hlast
      cases mgGetHttpHeader hm "Location" with
      -- a redirect without a target is dereferenced
      | none => exact ⟨k, hb.handled rfl rfl, .aborted ⟨rfl, h.freed⟩⟩
      | some v =>
        dsimp only
        by_cases hmoved : hm.respCode = 301 ∨ hm.respCode = 308
        · rw [if_pos hmoved, deliver_watched]
          refine h.redirect hb hraises hcode hroom ?_ v _
          rw [terminals_append]
          exact List.append_nil _
        · rw [if_neg hmoved]
          exact h.redirect hb hraises hcode hroom rfl v false
  · rw [if_neg hredirect]
    split
    · exact h.ended hends hb (by simp) rfl h.running h.closing rfl h.freed
    · exact h.ended hends hb (by simp) rfl h.running h.closing rfl h.freed

/-- The connection breaks: the pipe is closed, and freed at once. -/
theorem InUse.close (h : InUse range k x) (hb : Base range k x) :
    Phased range (x.handled k .close (openHandler o.watched .close (x.owner, x.pipe))) := by
  unfold openHandler
  dsimp only
  rw [deliver_terminal hends rfl, h.closing]
  dsimp only
  -- the owner has closed the pipe in `on_close`
  rw [if_pos (show x.pipe.pipeClose.closing = true from rfl)]
  refine ⟨k, hb.ended h.unended rfl rfl, .freed ⟨h.running, rfl, ?_, ?_⟩⟩
  · exact congrArg (· + 1) h.freed
  · rw [handled_conn]
    rfl

theorem InUse.next (h : InUse range k x) (hb : Base range k x) {ev : PipeEvent}
    (hraises : (x.conns k).Raises ev) : Phased range (lifeStep o x (.mg k ev)) := by
  rw [h.step]
  cases ev with
  | connect status => exact h.connect hends hb status
  | httpChunk hm => exact h.chunk hb hraises
  | httpReply hm => exact h.reply hends hb hraises
  | close => exact h.close hends hb

end ending

/-! ### The other phases -/

/-- Only the close matters: the pipe connects again. -/
theorem Redirecting.next (h : Redirecting range k x) (hb : Base range k x) (ev : PipeEvent) :
    Phased range (lifeStep o x (.mg k ev)) := by
  have hstep : lifeStep o x (.mg k ev) =
      x.handled k ev (redirectingHandler ev (x.owner, x.pipe)) := by
    rw [lifeStep_mg h.running]
    unfold pipeHandler
    dsimp only
    rw [h.running, h.closing, h.redirecting]
    rfl
  have hwait : ∀ ev, ev ≠ .close → Phased range (x.handled k ev (x.owner, x.pipe)) := fun ev hev =>
    ⟨k, hb.handled rfl rfl, .redirecting { h with live := handled_live hev _ h.live }⟩
  rw [hstep]
  cases ev with
  | connect status => exact hwait _ (by simp)
  | httpChunk hm => exact hwait _ (by simp)
  | httpReply hm => exact hwait _ (by simp)
  | close =>
    -- connection `k + 1` is made for the same range
    refine ⟨k + 1, ⟨?_, h.room, ?_, ?_, ?_, hb.once, hb.quiet⟩, .inUse
      ⟨h.running, h.closing, rfl, h.freed, ?_, ?_, h.unended, h.redirects, fun _ => h.range⟩⟩
    · exact (List.length_append ..).trans (congrArg (· + 1) hb.count)
    · intro j hj
      by_cases hk : j = k
      · rw [hk, handled_conn]
        rfl
      · rw [handled_other _ _ hk]
        exact hb.past j (by omega)
    · intro j hj
      rw [handled_other _ _ (by omega)]
      exact hb.future j (by omega)
    · intro r hr
      rcases List.mem_append.mp hr with hr | hr
      · exact hb.sameRange r hr
      · rw [List.mem_singleton.mp hr]
        exact h.range
    · rw [handled_other _ _ (by omega), hb.future _ (by omega)]
      rfl
    · rw [handled_other _ _ (by omega), hb.future _ (by omega)]
      rfl

/-- Only the close matters: the pipe is freed. -/
theorem Closing.next (h : Closing k x) (hb : Base range k x) (ev : PipeEvent) :
    Phased range (lifeStep o x (.mg k ev)) := by
  have hstep : lifeStep o x (.mg k ev) =
      x.handled k ev (closingHandler ev (x.owner, x.pipe)) := by
    rw [lifeStep_mg h.running]
    unfold pipeHandler
    dsimp only
    rw [h.running, h.closing]
    rfl
  have hwait : ∀ ev, ev ≠ .close → Phased range (x.handled k ev (x.owner, x.pipe)) := fun ev hev =>
    ⟨k, hb.handled rfl rfl, .closing { h with live := handled_live hev _ h.live }⟩
  rw [hstep]
  unfold closingHandler
  dsimp only
  rw [h.immediately, if_pos rfl]
  cases ev with
  | connect status => exact hwait _ (by simp)
  | httpChunk hm => exact hwait _ (by simp)
  | httpReply hm => exact hwait _ (by simp)
  | close =>
    refine ⟨k, hb.handled rfl rfl, .freed ⟨h.running, h.closing, congrArg (· + 1) h.freed, ?_⟩⟩
    rw [handled_conn]
    rfl

/-- The owner changes, and may close the pipe. -/
theorem Phase.between (h : Phase range k x) (f : σ → σ) (closes : Bool) :
    Phase range k (lifeStep o x (.between f closes)) := by
  cases closes with
  | false =>
    cases h with
    | inUse h => exact .inUse { h with }
    | redirecting h => exact .redirecting { h with }
    | closing h => exact .closing { h with }
    | freed h => exact .freed { h with }
    | aborted h => exact .aborted { h with }
  | true =>
    cases h with
    | inUse h => exact .closing ⟨h.running, rfl, rfl, h.freed, h.live⟩
    | redirecting h => exact .closing ⟨h.running, rfl, rfl, h.freed, h.live⟩
    | closing h => exact .closing ⟨h.running, rfl, rfl, h.freed, h.live⟩
    | freed h => exact .freed ⟨h.running, rfl, h.freed, h.ended⟩
    | aborted h => exact .aborted ⟨h.aborted, h.freed⟩

theorem Base.between (h : Base range k x) (f : σ → σ) (closes : Bool) :
    Base range k (lifeStep o x (.between f closes)) := by
  cases closes with
  | false => exact { h with }
  | true => exact { h with }

/-- **Step lemma.** An event leads from a phase to a phase. -/
theorem lifeStep_phased (hends : ∀ s p c, c.isTerminal = true → (o.call s p c).2 = true)
    {e : LifeEvent σ} (h : Phased range x) (he : Admitted x e) :
    Phased range (lifeStep o x e) := by
  obtain ⟨k, hb, hphase⟩ := h
  cases e with
  | between f closes => exact ⟨k, hb.between f closes, hphase.between f closes⟩
  | mg j ev =>
    obtain ⟨hj, hopen, hraises⟩ := he
    obtain rfl := hb.last hj hopen
    cases hphase with
    | inUse h => exact h.next hends hb hraises
    | redirecting h => exact h.next hb ev
    | closing h => exact h.next hb ev
    | freed h =>
      -- its connections are closed
      have hended := h.ended
      rw [hopen] at hended
      cases hended
    | aborted h =>
      have hstep : lifeStep o x (.mg j ev) = x := if_pos h.aborted
      rw [hstep]
      exact ⟨j, hb, .aborted h⟩

/-! ## What the phases say -/

theorem Phase.freed_le (h : Phase range k x) : x.pipe.freed ≤ 1 := by
  cases h with
  | inUse h => rw [h.freed]; exact Nat.zero_le 1
  | redirecting h => rw [h.freed]; exact Nat.zero_le 1
  | closing h => rw [h.freed]; exact Nat.zero_le 1
  | freed h => rw [h.freed]
  | aborted h => rw [h.freed]; exact Nat.zero_le 1

/-- The pipe is freed with its last connection. -/
theorem Phase.freed_iff (h : Phase range k x) (hrunning : x.pipe.aborted = false) :
    x.pipe.freed = 1 ↔ (x.conns k).closed = true := by
  cases h with
  | inUse h => simp [h.freed, h.live]
  | redirecting h => simp [h.freed, h.live]
  | closing h => simp [h.freed, h.live]
  | freed h => simp [h.freed, h.ended]
  | aborted h =>
    rw [h.aborted] at hrunning
    cases hrunning

theorem Phase.of_freed (h : Phase range k x) (hfreed : x.pipe.freed = 1) : Freed k x := by
  cases h with
  | inUse h => exact absurd (h.freed.symm.trans hfreed) Nat.zero_ne_one
  | redirecting h => exact absurd (h.freed.symm.trans hfreed) Nat.zero_ne_one
  | closing h => exact absurd (h.freed.symm.trans hfreed) Nat.zero_ne_one
  | freed h => exact h
  | aborted h => exact absurd (h.freed.symm.trans hfreed) Nat.zero_ne_one

theorem Base.all_closed_iff (h : Base range k x) :
    (∀ j < x.pipe.requests.length, (x.conns j).closed = true) ↔ (x.conns k).closed = true := by
  rw [h.count]
  constructor
  · exact fun hall => hall k (Nat.lt_succ_self k)
  · intro hlast j hj
    by_cases hk : j = k
    · rw [hk, hlast]
    · exact h.past j (by omega)

theorem deliver_freed (o : PipeOwner σ) (call : PipeCall) (y : σ × HttpPipe) :
    (deliver o call y).2.freed = y.2.freed :=
  deliver_eq o call y HttpPipe.freed fun _ => rfl

theorem onHttpReply_freed (o : PipeOwner σ) (hm : HttpMessage) (y : σ × HttpPipe) :
    (onHttpReply o hm y).2.freed = y.2.freed := by
  unfold onHttpReply
  dsimp only
  split
  · split
    · exact deliver_freed ..
    · split
      · rfl
      · dsimp only
        split
        · exact deliver_freed ..
        · rfl
  · split
    · exact deliver_freed ..
    · exact deliver_freed ..

/-- A pipe is freed at a close only. -/
theorem pipeHandler_freed {ev : PipeEvent} (hev : ev ≠ .close) (s : σ × List Watch)
    (p : HttpPipe) : (pipeHandler o.watched ev (s, p)).2.freed = p.freed := by
  unfold pipeHandler
  split
  · rfl
  · split
    · unfold closingHandler
      split
      · cases ev with
        | close => exact absurd rfl hev
        | _ => rfl
      · rfl
    · rename_i hclosing
      split
      · cases ev with
        | close => exact absurd rfl hev
        | _ => rfl
      · cases ev with
        | connect status =>
          unfold openHandler
          dsimp only
          split
          · exact deliver_freed ..
          · rfl
        | httpChunk hm =>
          unfold openHandler
          dsimp only
          -- the stages of a chunk event never free
          rw [chunk_lands (Bool.eq_false_of_not_eq_true hclosing)]
          unfold land
          generalize (play o _ s false).2 = closed
          have hplan := (@planChunk_tame p (unknownAfterHeader o hm s.1 p) hm).freed
          cases closed with
          | true => exact hplan
          | false => exact hplan
        | httpReply hm => exact onHttpReply_freed ..
        | close => exact absurd rfl hev

theorem lifeStep_freed {e : LifeEvent σ} (h : (lifeStep o x e).pipe.freed ≠ x.pipe.freed) :
    ∃ j, e = .mg j .close := by
  cases e with
  | between f closes => cases closes <;> exact absurd rfl h
  | mg j ev =>
    by_contra hnot
    have hev : ev ≠ .close := fun hclose => hnot ⟨j, by rw [hclose]⟩
    apply h
    unfold lifeStep
    dsimp only
    split
    · rfl
    · exact pipeHandler_freed hev _ _

/-- No connection of a freed pipe is open. -/
theorem Freed.next (h : Freed k x) (hb : Base range k x) {e : LifeEvent σ}
    (he : Admitted x e) : ∃ f closes, e = .between f closes := by
  cases e with
  | between f closes => exact ⟨f, closes, rfl⟩
  | mg j ev =>
    obtain ⟨hj, hopen, -⟩ := he
    have hended := h.ended
    rw [← hb.last hj hopen, hopen] at hended
    cases hended

/-- The fourth redirect. -/
theorem InUse.lastRedirect (h : InUse range k x) (hk : k = msMaxRedirectTime) {hm : HttpMessage}
    (hredirect : hm.respCode = 301 ∨ hm.respCode = 302 ∨ hm.respCode = 307 ∨ hm.respCode = 308) :
    (lifeStep o x (.mg k (.httpReply hm))).owner.2 = x.owner.2 ++ [⟨.onClose 310, false⟩] := by
  have hlast : x.pipe.redirectTime + 1 > msMaxRedirectTime := by
    rw [h.redirects, hk]
    exact Nat.lt_succ_self _
  rw [h.step]
  unfold openHandler onHttpReply
  dsimp only
  rw [if_pos hredirect, if_pos hlast, deliver_watched, h.closing]
  rfl

end step

end Life

/-! ## Whole lives -/

open Life

/-- A pipe that asked for `range`, in a state of its life. -/
structure Lifecycle (o : PipeOwner σ) (range : List Char) (x : Life σ) : Prop where
  terminalOnce : (terminals x.owner.2).length ≤ 1
  terminalOpen : ∀ e ∈ terminals x.owner.2, e.closed = false
  reconnects : x.pipe.requests.length ≤ 1 + msMaxRedirectTime
  lastRedirect : ∀ k hm, Admitted x (.mg k (.httpReply hm)) →
    x.pipe.aborted = false → x.pipe.closing = false →
    x.pipe.requests.length = 1 + msMaxRedirectTime →
    (hm.respCode = 301 ∨ hm.respCode = 302 ∨ hm.respCode = 307 ∨ hm.respCode = 308) →
    (lifeStep o x (.mg k (.httpReply hm))).owner.2 = x.owner.2 ++ [⟨.onClose 310, false⟩]
  sameRange : ∀ r ∈ x.pipe.requests, r.2 = range
  freedOnce : x.pipe.freed ≤ 1
  freed : x.pipe.aborted = false →
    (x.pipe.freed = 1 ↔ ∀ k < x.pipe.requests.length, (x.conns k).closed = true)
  freedAtClose : ∀ e, Admitted x e → (lifeStep o x e).pipe.freed ≠ x.pipe.freed →
    (∃ k, e = .mg k .close) ∧ (lifeStep o x e).pipe.closing = true
  afterFree : x.pipe.freed = 1 → ∀ es, Along (lifeStep o) Admitted x es →
    (run (lifeStep o) x es).owner.2 = x.owner.2 ∧
      (run (lifeStep o) x es).pipe.requests = x.pipe.requests ∧
      (run (lifeStep o) x es).pipe.freed = 1

section lifecycle

variable {o : PipeOwner σ} {x : Life σ} {range : List Char}

/-- A freed pipe is left alone. -/
theorem freed_run {k : Nat} (hb : Base range k x) (h : Freed k x) {es : List (LifeEvent σ)}
    (hes : Along (lifeStep o) Admitted x es) :
    (run (lifeStep o) x es).owner.2 = x.owner.2 ∧
      (run (lifeStep o) x es).pipe.requests = x.pipe.requests ∧
      (run (lifeStep o) x es).pipe.freed = 1 := by
  -- only turns between events are left, and they change the owner alone
  have hstep : ∀ y e, (Base range k y ∧ Freed k y ∧ y.owner.2 = x.owner.2 ∧
      y.pipe.requests = x.pipe.requests) → Admitted y e →
      Base range k (lifeStep o y e) ∧ Freed k (lifeStep o y e) ∧
        (lifeStep o y e).owner.2 = x.owner.2 ∧
        (lifeStep o y e).pipe.requests = x.pipe.requests := by
    intro y e hy he
    obtain ⟨hbase, hfreed, hlog, hrequests⟩ := hy
    obtain ⟨f, closes, rfl⟩ := hfreed.next hbase he
    refine ⟨hbase.between f closes, ?_, hlog, ?_⟩
    · cases closes with
      | false => exact { hfreed with }
      | true => exact ⟨hfreed.running, rfl, hfreed.freed, hfreed.ended⟩
    · cases closes with
      | false => exact hrequests
      | true => exact hrequests
  have hrun := run_invariant (P := fun y => Base range k y ∧ Freed k y ∧
    y.owner.2 = x.owner.2 ∧ y.pipe.requests = x.pipe.requests) hstep ⟨hb, h, rfl, rfl⟩ hes
  exact ⟨hrun.2.2.1, hrun.2.2.2, hrun.2.1.freed⟩

theorem Life.Phased.lifecycle (hends : ∀ s p c, c.isTerminal = true → (o.call s p c).2 = true)
    (h : Phased range x) : Lifecycle o range x := by
  obtain ⟨k, hb, hphase⟩ := h
  constructor
  · exact hb.once
  · exact hb.quiet
  · rw [hb.count, Nat.add_comm]
    exact Nat.add_le_add_left hb.bounded 1
  · intro j hm he hrunning hclosing hcount hredirect
    obtain rfl := hb.last he.1 he.2.1
    have hj : j = msMaxRedirectTime := by
      have := hb.count
      omega
    -- a pipe that is not closing and has used its reconnects is in use
    cases hphase with
    | inUse h => exact h.lastRedirect hj hredirect
    | redirecting h =>
      -- the last connection is not redirected
      have := h.room
      omega
    | closing h => exact absurd (hclosing.symm.trans h.closing) Bool.false_ne_true
    | freed h => exact absurd (hclosing.symm.trans h.closing) Bool.false_ne_true
    | aborted h => exact absurd (hrunning.symm.trans h.aborted) Bool.false_ne_true
  · exact hb.sameRange
  · exact hphase.freed_le
  · intro hrunning
    rw [hb.all_closed_iff, hphase.freed_iff hrunning]
  · intro e he hfreed
    refine ⟨lifeStep_freed hfreed, ?_⟩
    obtain ⟨k', -, hphase'⟩ := lifeStep_phased hends ⟨k, hb, hphase⟩ he
    have hle := hphase'.freed_le
    by_cases hdone : x.pipe.freed = 1
    · -- nothing frees it again
      obtain ⟨f, closes, rfl⟩ := (hphase.of_freed hdone).next hb he
      cases closes <;> exact absurd rfl hfreed
    · have hbefore := hphase.freed_le
      exact (hphase'.of_freed (by omega)).closing
  · intro hfreed es hes
    exact freed_run hb (hphase.of_freed hfreed) hes

end lifecycle

/-- **Pipe lifecycle.** For an owner that closes the pipe in `on_complete`
    and `on_close`, and in whatever else it likes, every state of every run
    of mongoose events over the connections of a pipe is in order: one
    terminal callback and none after the close, three reconnects for the same
    range, and the pipe freed once, when its last connection closes. -/
theorem pipe_lifecycle (o : PipeOwner σ)
    (hends : ∀ s p c, c.isTerminal = true → (o.call s p c).2 = true)
    (s : σ) (url : List Char) (pos : Nat) (len : Int) (es : List (LifeEvent σ))
    (hes : Along (lifeStep o) Admitted (startLife s url pos len) es) :
    Lifecycle o (msHttpPipeCreate url pos len).rangeHeader
      (run (lifeStep o) (startLife s url pos len) es) := by
  apply Phased.lifecycle hends
  apply run_invariant _ (startLife_phased s url pos len) hes
  intro x e hx he
  exact lifeStep_phased hends hx he

/-- An owner that only closes the pipe where it has to. -/
def endingOwner : PipeOwner Unit where
  getFilesize _ := 0
  call _ _ c := ((), c.isTerminal)

/-- A redirect, and a connection that breaks. -/
def redirected : List (LifeEvent Unit) :=
  [.mg 0 (.httpReply ⟨302, [("Location".toList, ['v'])], []⟩), .mg 0 .close, .mg 1 .close]

theorem pipe_lifecycle_redirected : Lifecycle endingOwner (msHttpPipeCreate ['u'] 0 0).rangeHeader
    (run (lifeStep endingOwner) (startLife () ['u'] 0 0) redirected) :=
  pipe_lifecycle endingOwner (fun _ _ _ h => h) () ['u'] 0 0 redirected
    ⟨⟨by decide, rfl, rfl, .inl rfl⟩, ⟨by decide, by decide, trivial⟩,
      ⟨by decide, by decide, trivial⟩, trivial⟩

end Libms
