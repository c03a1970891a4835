import Mathlib
import Libms.Framework.Runs
import Libms.Pipe.HttpPipe

/-! # Callbacks of a closed pipe

    `pipe_handler` tests `closing` on entry, and one chunk event may make
    several callbacks after that. Which ones it makes depends on the message
    and the pipe alone: no test in between looks at what the owner has done.

    * `planChunk`: the callbacks that a chunk event has to make.
    * `play`: an owner takes them one after the other.
    * `chunk_plays`: the handler makes them, whether the pipe gets closed on
      the way or not.
    * `no_callback_after_close_iff`: so a closed pipe is left alone in a run
      iff it is only ever closed in the last callback of an event, or
      between two events. -/

namespace Libms

open Runs Text

/-! ## The plan of an event -/

/-- A callback to be made, and the pipe when its turn comes. -/
structure Planned where
  pipe : HttpPipe
  call : PipeCall

/-- What a stage of the handler has to call, and the pipe it leaves. -/
abbrev Plan : Type := List Planned × HttpPipe

/-- The plan of `contentSizes`. -/
def planSizes (hm : HttpMessage) (p : HttpPipe) : Plan :=
  match mgGetHttpHeader hm "Content-Range" with
  | none => ([], p.abort)
  | some rangeHdr =>
    let filesize := (httpParseContentRange rangeHdr).2.2
    let calls := if 0 < filesize then [⟨p, .onFilesize filesize⟩] else []
    match mgGetHttpHeader hm "Content-Length" with
    | none => (calls, p.abort)
    | some v =>
      let p := { p with len := strtoll v }
      (calls ++ [⟨p, .onContentSize p.reqPos p.len⟩], p)

/-- `nc->flags |= MS_F_ON_CONTENT_CALLED` -/
def HttpPipe.setCalled (p : HttpPipe) : HttpPipe := { p with onContentCalled := true }

/-- The plan of `chunkHeader`; `unknown` is whether the owner still has no
    file size after `on_header`. -/
def planHeader (unknown : Bool) (hm : HttpMessage) (p : HttpPipe) : Plan :=
  if p.onContentCalled then ([], p)
  else
    let rest := if unknown ∨ p.len = 0 then planSizes hm p.setCalled else ([], p.setCalled)
    (⟨p, .onHeader hm⟩ :: rest.1, rest.2)

/-- The plan of `deliverRecv`. -/
def planRecv (bytes : List UInt8) (p : HttpPipe) : Plan :=
  let p := { p with pos := p.pos + bytes.length }
  ([⟨p, .onRecv bytes (p.pos - bytes.length)⟩], p)

/-- The plan of `topUp`, with what is taken of the body. -/
def planTopUp (body : List UInt8) (p : HttpPipe) : Plan × Nat :=
  if 0 < p.buf.length ∨ body.length < msPieceUnitSize then
    let dataSize := min (msPieceUnitSize - p.buf.length) body.length
    let p := p.setBuf (p.buf ++ body.take dataSize)
    if p.buf.length = msPieceUnitSize then
      (((planRecv p.buf p).1, (planRecv p.buf p).2.setBuf []), dataSize)
    else (([], p), dataSize)
  else (([], p), 0)

/-- The plan of `passPieces`. -/
def planPieces (body : List UInt8) (p : HttpPipe) : Plan :=
  if 0 < body.length then
    let recv := body.length - body.length % msPieceUnitSize
    let plan := if 0 < recv then planRecv (body.take recv) p else ([], p)
    (plan.1, plan.2.setBuf (plan.2.buf ++ body.drop recv))
  else ([], p)

/-- The plan of `flushEnd`. -/
def planEnd (p : HttpPipe) : Plan :=
  if (p.pos + p.buf.length : Int) = p.reqPos + p.len then
    ((planRecv p.buf p).1, (planRecv p.buf p).2.setBuf [])
  else ([], p)

/-- The plan of `chunkBody`. -/
def planBody (body : List UInt8) (p : HttpPipe) : Plan :=
  if body.length = 0 then ([], p)
  else if p.pos % msPieceUnitSize ≠ 0 then ([], p.abort)
  else
    let first := planTopUp body p
    let second := planPieces (body.drop first.2) first.1.2
    let third := planEnd second.2
    (first.1.1 ++ second.1 ++ third.1, third.2)

/-- The plan of a chunk event. -/
def planChunk (unknown : Bool) (hm : HttpMessage) (p : HttpPipe) : Plan :=
  if hm.respCode ≠ 200 ∧ hm.respCode ≠ 206 then ([], p)
  else
    let header := planHeader unknown hm p
    if header.2.aborted then header
    else
      let body := planBody hm.body header.2
      (header.1 ++ body.1, body.2)

/-! ## What a plan leaves alone -/

/-- The callbacks that end a pipe. -/
def PipeCall.isTerminal : PipeCall → Bool
  | .onComplete => true
  | .onClose _ => true
  | _ => false

/-- The plan of a stage has data callbacks only, and leaves what the pipe
    keeps over its connections. -/
structure Tame (p : HttpPipe) (plan : Plan) : Prop where
  closing : plan.2.closing = p.closing
  redirecting : plan.2.redirecting = p.redirecting
  redirectTime : plan.2.redirectTime = p.redirectTime
  requests : plan.2.requests = p.requests
  freed : plan.2.freed = p.freed
  data : ∀ c ∈ plan.1, c.call.isTerminal = false

section tame

variable {p q : HttpPipe} {cs cs' : List Planned}

/-- A stage without callbacks. -/
theorem Tame.silent : Tame p ([], p) := ⟨rfl, rfl, rfl, rfl, rfl, fun _ hc => by cases hc⟩

theorem Tame.abort (h : Tame p (cs, q)) : Tame p (cs, q.abort) := { h with }

theorem Tame.setBuf (h : Tame p (cs, q)) (buf : List UInt8) : Tame p (cs, q.setBuf buf) :=
  { h with }

/-- One stage after the other. -/
theorem Tame.append {r : HttpPipe} (h : Tame p (cs, q)) (h' : Tame q (cs', r)) :
    Tame p (cs ++ cs', r) where
  closing := h'.closing.trans h.closing
  redirecting := h'.redirecting.trans h.redirecting
  redirectTime := h'.redirectTime.trans h.redirectTime
  requests := h'.requests.trans h.requests
  freed := h'.freed.trans h.freed
  data c hc := by
    rcases List.mem_append.mp hc with hc | hc
    · exact h.data c hc
    · exact h'.data c hc

/-- One data callback. -/
theorem Tame.single {c : Planned} (hc : c.call.isTerminal = false) : Tame p ([c], p) where
  closing := rfl
  redirecting := rfl
  redirectTime := rfl
  requests := rfl
  freed := rfl
  data c' hc' := by
    rw [List.mem_singleton.mp hc']
    exact hc

theorem planRecv_tame (bytes : List UInt8) : Tame p (planRecv bytes p) :=
  { Tame.single rfl with }

theorem planTopUp_tame (body : List UInt8) : Tame p (planTopUp body p).1 := by
  unfold planTopUp
  dsimp only
  split
  · -- the carry grows first, and is handed on if it has become a piece
    have hcarry : Tame p ([], p.setBuf (p.buf ++
        body.take (min (msPieceUnitSize - p.buf.length) body.length))) := Tame.silent.setBuf _
    split
    · exact (hcarry.append (planRecv_tame _)).setBuf []
    · exact hcarry
  · exact Tame.silent

theorem planPieces_tame (body : List UInt8) : Tame p (planPieces body p) := by
  unfold planPieces
  split
  · dsimp only
    split
    · exact (planRecv_tame _).setBuf _
    · exact Tame.silent.setBuf _
  · exact Tame.silent

theorem planEnd_tame : Tame p (planEnd p) := by
  unfold planEnd
  split
  · exact (planRecv_tame _).setBuf []
  · exact Tame.silent

theorem planBody_tame (body : List UInt8) : Tame p (planBody body p) := by
  unfold planBody
  split
  · exact Tame.silent
  · split
    · exact Tame.silent.abort
    · exact ((planTopUp_tame body).append (planPieces_tame _)).append planEnd_tame

theorem planSizes_tame (hm : HttpMessage) : Tame p (planSizes hm p) := by
  unfold planSizes
  split
  · exact Tame.silent.abort
  · rename_i rangeHdr _
    dsimp only
    have hfirst : Tame p (if 0 < (httpParseContentRange rangeHdr).2.2 then
        [⟨p, .onFilesize (httpParseContentRange rangeHdr).2.2⟩] else [], p) := by
      split
      · exact Tame.single rfl
      · exact Tame.silent
    split
    · exact hfirst.abort
    · rename_i v _
      have hlen : Tame p ([], { p with len := strtoll v }) := { Tame.silent with }
      exact hfirst.append (hlen.append (Tame.single rfl))

theorem planHeader_tame (unknown : Bool) (hm : HttpMessage) : Tame p (planHeader unknown hm p) := by
  unfold planHeader
  split
  · exact Tame.silent
  · have hcalled : Tame p ([⟨p, .onHeader hm⟩], p.setCalled) := { Tame.single rfl with }
    dsimp only
    split
    · exact hcalled.append (planSizes_tame hm)
    · exact hcalled

theorem planChunk_tame (unknown : Bool) (hm : HttpMessage) : Tame p (planChunk unknown hm p) := by
  unfold planChunk
  split
  · exact Tame.silent
  · dsimp only
    split
    · exact planHeader_tame unknown hm
    · exact (planHeader_tame unknown hm).append (planBody_tame hm.body)

end tame

/-! ## Playing a plan -/

/-- A callback that was made, and whether the pipe had been closed by then. -/
structure Watch where
  call : PipeCall
  closed : Bool

variable {σ : Type*}

/-- The owner that also keeps a record of the calls and of the closing. -/
def PipeOwner.watched (o : PipeOwner σ) : PipeOwner (σ × List Watch) where
  getFilesize s := o.getFilesize s.1
  call s p c :=
    let (t, closed) := o.call s.1 p c
    ((t, s.2 ++ [⟨c, p.closing⟩]), closed)

/-- The pipe, closed if `closed`. -/
def HttpPipe.closeIf (p : HttpPipe) (closed : Bool) : HttpPipe :=
  if closed then p.pipeClose else p

/-- The owner takes the callbacks one after the other. -/
def play (o : PipeOwner σ) :
    List Planned → σ × List Watch → Bool → (σ × List Watch) × Bool
  | [], s, closed => (s, closed)
  | c :: cs, s, closed =>
    let (t, closes) := o.call s.1 (c.pipe.closeIf closed) c.call
    play o cs (t, s.2 ++ [⟨c.call, closed⟩]) (closed || closes)

/-- What a stage of the handler leaves that has made the callbacks of a plan:
    the pipe is the planned one, closed once a callback has closed it. -/
def land (o : PipeOwner σ) (plan : Plan) (s : σ × List Watch) (closed : Bool) :
    (σ × List Watch) × HttpPipe :=
  ((play o plan.1 s closed).1, plan.2.closeIf (play o plan.1 s closed).2)

section play

variable {o : PipeOwner σ} {p : HttpPipe}

@[simp] theorem closeIf_buf (closed : Bool) : (p.closeIf closed).buf = p.buf := by
  cases closed <;> rfl
@[simp] theorem closeIf_pos (closed : Bool) : (p.closeIf closed).pos = p.pos := by
  cases closed <;> rfl
@[simp] theorem closeIf_reqPos (closed : Bool) : (p.closeIf closed).reqPos = p.reqPos := by
  cases closed <;> rfl
@[simp] theorem closeIf_len (closed : Bool) : (p.closeIf closed).len = p.len := by
  cases closed <;> rfl
@[simp] theorem closeIf_onContentCalled (closed : Bool) :
    (p.closeIf closed).onContentCalled = p.onContentCalled := by
  cases closed <;> rfl
@[simp] theorem closeIf_setCalled (closed : Bool) :
    (p.closeIf closed).setCalled = p.setCalled.closeIf closed := by
  cases closed <;> rfl
@[simp] theorem closeIf_aborted (closed : Bool) : (p.closeIf closed).aborted = p.aborted := by
  cases closed <;> rfl
@[simp] theorem closeIf_setBuf (closed : Bool) (buf : List UInt8) :
    (p.closeIf closed).setBuf buf = (p.setBuf buf).closeIf closed := by
  cases closed <;> rfl
@[simp] theorem closeIf_abort (closed : Bool) :
    (p.closeIf closed).abort = p.abort.closeIf closed := by
  cases closed <;> rfl

theorem closeIf_closing (hp : p.closing = false) (closed : Bool) :
    (p.closeIf closed).closing = closed := by
  cases closed with
  | true => rfl
  | false => exact hp

theorem play_append (cs cs' : List Planned) (s : σ × List Watch) (closed : Bool) :
    play o (cs ++ cs') s closed = play o cs' (play o cs s closed).1 (play o cs s closed).2 := by
  induction cs generalizing s closed with
  | nil => rfl
  | cons c cs ih => exact ih _ _

theorem land_append (cs : List Planned) (plan : Plan) (s : σ × List Watch) (closed : Bool) :
    land o (cs ++ plan.1, plan.2) s closed =
      land o plan (play o cs s closed).1 (play o cs s closed).2 := by
  unfold land
  dsimp only
  rw [play_append]

/-! ## The handler follows the plan -/

variable {s : σ × List Watch} {closed : Bool}

theorem deliver_lands (hp : p.closing = false) (c : PipeCall) :
    deliver o.watched c (s, p.closeIf closed) = land o ([⟨p, c⟩], p) s closed := by
  have hflag := closeIf_closing hp closed
  obtain ⟨getFilesize, call⟩ := o
  unfold deliver PipeOwner.watched land play play
  dsimp only
  rw [hflag]
  generalize call s.1 (p.closeIf closed) c = r
  obtain ⟨t, closes⟩ := r
  -- closing a pipe that is closed changes nothing
  cases closed with
  | true => cases closes <;> rfl
  | false => cases closes <;> rfl

theorem deliverRecv_lands (hp : p.closing = false) (bytes : List UInt8) :
    deliverRecv o.watched bytes (s, p.closeIf closed) = land o (planRecv bytes p) s closed := by
  -- the position advances, whether the pipe is closed or not
  have hmoved : ({ p.closeIf closed with pos := (p.closeIf closed).pos + bytes.length } :
      HttpPipe) = ({ p with pos := p.pos + bytes.length } : HttpPipe).closeIf closed := by
    cases closed <;> rfl
  unfold deliverRecv
  dsimp only at hmoved ⊢
  rw [hmoved, closeIf_pos]
  have hopen : ({ p with pos := p.pos + bytes.length } : HttpPipe).closing = false := hp
  exact deliver_lands hopen _

/-- The carry changes behind a plan. -/
theorem land_setBuf (plan : Plan) (buf : List UInt8) :
    ((land o plan s closed).1, (land o plan s closed).2.setBuf buf) =
      land o (plan.1, plan.2.setBuf buf) s closed := by
  unfold land
  rw [closeIf_setBuf]

theorem topUp_lands (hp : p.closing = false) (body : List UInt8) :
    topUp o.watched body (s, p.closeIf closed) =
      (land o (planTopUp body p).1 s closed, (planTopUp body p).2) := by
  unfold topUp planTopUp
  simp only [closeIf_buf]
  by_cases hshort : 0 < p.buf.length ∨ body.length < msPieceUnitSize
  · rw [if_pos hshort, if_pos hshort]
    generalize min (msPieceUnitSize - p.buf.length) body.length = dataSize
    simp only [closeIf_setBuf, closeIf_buf]
    generalize hq : p.setBuf (p.buf ++ body.take dataSize) = q
    have hopen : q.closing = false := by
      rw [← hq]
      exact hp
    -- the same branch is taken on both sides, as closing leaves the carry alone
    by_cases hfull : q.buf.length = msPieceUnitSize
    · rw [if_pos hfull, if_pos hfull, deliverRecv_lands hopen]
      exact congrArg (fun x => (x, dataSize)) (land_setBuf _ _)
    · rw [if_neg hfull, if_neg hfull]
      rfl
  · rw [if_neg hshort, if_neg hshort]
    rfl

theorem passPieces_lands (hp : p.closing = false) (body : List UInt8) :
    passPieces o.watched body (s, p.closeIf closed) = land o (planPieces body p) s closed := by
  unfold passPieces planPieces
  by_cases hbody : 0 < body.length
  · rw [if_pos hbody, if_pos hbody]
    dsimp only
    generalize body.length - body.length % msPieceUnitSize = recv
    by_cases hsome : 0 < recv
    · rw [if_pos hsome, if_pos hsome, deliverRecv_lands hp, land_setBuf]
      congr 3
      unfold land
      rw [closeIf_buf]
    · rw [if_neg hsome, if_neg hsome, closeIf_buf, closeIf_setBuf]
      rfl
  · rw [if_neg hbody, if_neg hbody]
    rfl

theorem flushEnd_lands (hp : p.closing = false) :
    flushEnd o.watched (s, p.closeIf closed) = land o (planEnd p) s closed := by
  unfold flushEnd planEnd
  dsimp only
  rw [closeIf_buf, closeIf_pos, closeIf_reqPos, closeIf_len]
  split
  · rw [deliverRecv_lands hp, land_setBuf]
  · rfl

theorem chunkBody_lands (hp : p.closing = false) (body : List UInt8) :
    chunkBody o.watched body (s, p.closeIf closed) = land o (planBody body p) s closed := by
  unfold chunkBody planBody
  dsimp only
  rw [closeIf_pos, closeIf_abort]
  split
  · rfl
  · split
    · rfl
    · -- the stages follow each other, each on the pipe that the one before
      -- has planned
      have hfirst : (planTopUp body p).1.2.closing = false := by
        rw [(planTopUp_tame body).closing, hp]
      have hsecond : (planPieces (body.drop (planTopUp body p).2)
          (planTopUp body p).1.2).2.closing = false := by
        rw [(planPieces_tame _).closing, hfirst]
      rw [topUp_lands hp, land_append, play_append, ← flushEnd_lands hsecond]
      congr 1
      exact passPieces_lands hfirst _

theorem contentSizes_lands (hp : p.closing = false) (hm : HttpMessage) :
    contentSizes o.watched hm (s, p.closeIf closed) = land o (planSizes hm p) s closed := by
  unfold contentSizes planSizes
  cases mgGetHttpHeader hm "Content-Range" with
  | none =>
    dsimp only
    rw [closeIf_abort]
    rfl
  | some rangeHdr =>
    dsimp only
    generalize (httpParseContentRange rangeHdr).2.2 = filesize
    have hfirst : (if 0 < filesize
        then deliver o.watched (.onFilesize filesize) (s, p.closeIf closed)
        else (s, p.closeIf closed)) =
          land o (if 0 < filesize then [⟨p, .onFilesize filesize⟩] else [], p) s closed := by
      split
      · exact deliver_lands hp _
      · rfl
    rw [hfirst]
    generalize (if 0 < filesize then [(⟨p, .onFilesize filesize⟩ : Planned)] else []) = calls
    cases mgGetHttpHeader hm "Content-Length" with
    | none =>
      dsimp only [land]
      rw [closeIf_abort]
    -- the length is set between the two callbacks
    | some v =>
      have hsized : ∀ b, ({ p.closeIf b with len := strtoll v } : HttpPipe) =
          ({ p with len := strtoll v } : HttpPipe).closeIf b := by
        intro b
        cases b <;> rfl
      have hopen : ({ p with len := strtoll v } : HttpPipe).closing = false := hp
      dsimp only [land] at hsized ⊢
      rw [hsized, closeIf_reqPos, deliver_lands hopen, play_append]
      rfl

/-- The owner has no file size after `on_header`. -/
def unknownAfterHeader (o : PipeOwner σ) (hm : HttpMessage) (s : σ) (p : HttpPipe) : Bool :=
  o.getFilesize (o.call s p (.onHeader hm)).1 = 0

theorem chunkHeader_first {x : σ × HttpPipe} {hm : HttpMessage}
    (h : x.2.onContentCalled = false) :
    chunkHeader o hm x =
      if o.getFilesize (deliver o (.onHeader hm) x).1 = 0 ∨ (deliver o (.onHeader hm) x).2.len = 0
      then contentSizes o hm
        ((deliver o (.onHeader hm) x).1, (deliver o (.onHeader hm) x).2.setCalled)
      else ((deliver o (.onHeader hm) x).1, (deliver o (.onHeader hm) x).2.setCalled) := by
  unfold chunkHeader
  rw [h, if_neg Bool.false_ne_true]
  rfl

theorem chunkHeader_lands (hp : p.closing = false) (hm : HttpMessage) :
    chunkHeader o.watched hm (s, p) =
      land o (planHeader (unknownAfterHeader o hm s.1 p) hm p) s false := by
  unfold planHeader
  cases hcalled : p.onContentCalled with
  | true =>
    unfold chunkHeader
    rw [if_pos rfl]
    exact if_pos hcalled
  | false =>
    have hdeliver : deliver o.watched (.onHeader hm) (s, p) =
        land o ([⟨p, .onHeader hm⟩], p) s false :=
      @deliver_lands σ o p s false hp (.onHeader hm)
    -- the owner is asked behind `on_header`, which may have set the size
    have hsize : o.watched.getFilesize (play o [⟨p, .onHeader hm⟩] s false).1 =
        o.getFilesize (o.call s.1 p (.onHeader hm)).1 := rfl
    have hopen : p.setCalled.closing = false := hp
    rw [chunkHeader_first hcalled, hdeliver, if_neg Bool.false_ne_true]
    simp only [land, closeIf_len, closeIf_setCalled, hsize, unknownAfterHeader, decide_eq_true_eq]
    by_cases hsizes : o.getFilesize (o.call s.1 p (.onHeader hm)).1 = 0 ∨ p.len = 0
    · rw [if_pos hsizes, if_pos hsizes, contentSizes_lands hopen]
      rfl
    · rw [if_neg hsizes, if_neg hsizes]

/-- **A chunk event makes the callbacks of its plan.** -/
theorem chunk_lands (hp : p.closing = false) (hm : HttpMessage) :
    onHttpChunk o.watched hm (s, p) =
      land o (planChunk (unknownAfterHeader o hm s.1 p) hm p) s false := by
  unfold onHttpChunk planChunk
  dsimp only
  rw [chunkHeader_lands hp]
  have hopen : (planHeader (unknownAfterHeader o hm s.1 p) hm p).2.closing = false := by
    rw [(planHeader_tame _ hm).closing, hp]
  split
  · rfl
  · generalize planHeader (unknownAfterHeader o hm s.1 p) hm p = header at hopen ⊢
    have haborted : (land o header s false).2.aborted = header.2.aborted := closeIf_aborted _
    rw [haborted]
    split
    · rfl
    · rw [land_append]
      exact chunkBody_lands hopen hm.body

end play

/-! ## Runs -/

/-- What happens to a pipe: a chunk event, or something between two events
    that changes the owner and may close the pipe. -/
inductive Turn (σ : Type*) where
  | chunk (hm : HttpMessage)
  | between (f : σ → σ) (closes : Bool)

/-- One turn. -/
def watchStep (o : PipeOwner σ) (x : (σ × List Watch) × HttpPipe) :
    Turn σ → (σ × List Watch) × HttpPipe
  | .chunk hm => pipeHandler o.watched (.httpChunk hm) x
  | .between f closes => ((f x.1.1, x.1.2), x.2.closeIf closes)

/-- The owner closes the pipe in no callback but the last. -/
def ClosesLast (o : PipeOwner σ) : List Planned → σ → Prop
  | [], _ => True
  | [_], _ => True
  | c :: c' :: cs, s =>
    (o.call s c.pipe c.call).2 = false ∧ ClosesLast o (c' :: cs) (o.call s c.pipe c.call).1

/-- The condition on a turn: of the callbacks that a chunk event of a pipe in
    use has to make, only the last may close the pipe. -/
def TurnClosesLast (o : PipeOwner σ) (x : (σ × List Watch) × HttpPipe) : Turn σ → Prop
  | .chunk hm =>
    x.2.aborted = false → x.2.closing = false → x.2.redirecting = false →
      ClosesLast o (planChunk (unknownAfterHeader o hm x.1.1 x.2) hm x.2).1 x.1.1
  | .between _ _ => True

/-- No callback was made to a closed pipe. -/
def Quiet (log : List Watch) : Prop := ∀ e ∈ log, e.closed = false

section runs

variable {o : PipeOwner σ}

theorem quiet_snoc {log : List Watch} {e : Watch} :
    Quiet (log ++ [e]) ↔ Quiet log ∧ e.closed = false := by
  simp [Quiet, or_imp, forall_and]

/-- The record only grows. -/
theorem mem_play {cs : List Planned} {s : σ × List Watch} {closed : Bool} {e : Watch}
    (he : e ∈ s.2) : e ∈ (play o cs s closed).1.2 := by
  induction cs generalizing s closed with
  | nil => exact he
  | cons c cs ih => exact ih (List.mem_append_left _ he)

/-- **A plan is played quietly** iff the pipe is only closed at its end. -/
theorem play_quiet (cs : List Planned) (s : σ × List Watch) :
    Quiet (play o cs s false).1.2 ↔ Quiet s.2 ∧ ClosesLast o cs s.1 := by
  induction cs generalizing s with
  | nil => simp [play, ClosesLast]
  | cons c cs ih =>
    have hplay : play o (c :: cs) s false =
        play o cs ((o.call s.1 c.pipe c.call).1, s.2 ++ [⟨c.call, false⟩])
          (o.call s.1 c.pipe c.call).2 := rfl
    have hrecord : Quiet (s.2 ++ [⟨c.call, false⟩]) ↔ Quiet s.2 := by
      rw [quiet_snoc]
      exact and_iff_left rfl
    rw [hplay]
    cases hcloses : (o.call s.1 c.pipe c.call).2 with
    | false =>
      -- still open: the rest decides
      rw [ih, hrecord]
      cases cs with
      | nil => exact Iff.rfl
      | cons c' cs => simp only [ClosesLast, hcloses, true_and]
    | true =>
      cases cs with
      | nil =>
        -- closed, but there is no callback left
        rw [play, hrecord]
        exact (and_iff_left trivial).symm
      | cons c' cs =>
        constructor
        · intro h
          -- the next callback finds the pipe closed, and its entry stays
          have hlate : (⟨c'.call, true⟩ : Watch) ∈ (play o (c' :: cs)
              ((o.call s.1 c.pipe c.call).1, s.2 ++ [⟨c.call, false⟩]) true).1.2 := by
            rw [play]
            exact mem_play (List.mem_append_right _ (List.mem_singleton_self _))
          have hopen : true = false := h _ hlate
          cases hopen
        · intro h
          have hopen := h.2.1
          rw [hcloses] at hopen
          cases hopen

/-- **Step lemma.** -/
theorem watchStep_quiet (x : (σ × List Watch) × HttpPipe) (turn : Turn σ) :
    Quiet (watchStep o x turn).1.2 ↔ Quiet x.1.2 ∧ TurnClosesLast o x turn := by
  obtain ⟨s, p⟩ := x
  cases turn with
  | between f closes => exact (and_iff_left trivial).symm
  | chunk hm =>
    simp only [watchStep, TurnClosesLast, pipeHandler]
    cases haborted : p.aborted with
    | true => simp
    | false =>
      cases hclosing : p.closing with
      | true =>
        -- a closed pipe drops the event
        simp only [Bool.false_eq_true, if_false, if_true, closingHandler]
        split <;> simp
      | false =>
        cases hredirecting : p.redirecting with
        | true => simp [redirectingHandler]
        | false =>
          simp only [Bool.false_eq_true, if_false, openHandler, forall_const]
          rw [chunk_lands hclosing]
          exact play_quiet _ _

end runs

/-- **Callbacks after the close.** No callback is made to a closed pipe in a
    run of chunk events iff the pipe is closed in none of the callbacks that
    an event has to make but the last, or between events. -/
theorem no_callback_after_close_iff (o : PipeOwner σ) (s : σ) (p : HttpPipe)
    (turns : List (Turn σ)) :
    Quiet (run (watchStep o) ((s, []), p) turns).1.2 ↔
      Along (watchStep o) (TurnClosesLast o) ((s, []), p) turns := by
  induction turns using List.reverseRecOn with
  | nil =>
    constructor
    · exact fun _ => trivial
    · exact fun _ e he => absurd he List.not_mem_nil
  | append_singleton turns turn ih => rw [run_snoc, watchStep_quiet, ih, along_snoc]

/-- An owner that closes the pipe in every `on_recv`. -/
def closingOwner : PipeOwner Unit where
  getFilesize _ := 16385
  call _ _ c := ((), match c with
    | .onRecv _ _ => true
    | _ => false)

/-- An answer with one byte more than a piece. -/
def pieceAndByte : HttpMessage where
  respCode := 206
  headers := [("Content-Range".toList, "bytes 0-16384/16385".toList),
    ("Content-Length".toList, "16385".toList)]
  body := List.replicate 16385 0

/-- The piece is handed on, the owner closes the pipe, and then the byte is
    handed on. -/
theorem recv_after_close : ¬ Quiet (run (watchStep closingOwner)
    (((), []), (msHttpPipeCreate [] 0 16385).pipeConnect) [.chunk pieceAndByte]).1.2 := by
  unfold Quiet
  decide +kernel

end Libms
