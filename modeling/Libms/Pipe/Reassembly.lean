import Mathlib
import Libms.Framework.Rechunk
import Libms.Framework.Runs
import Libms.Pipe.HttpPipe

/-! # Chunk reassembly

    The pipe as a reblocker: its carry is `buf`, its unit a piece, and its
    stream ends at `req_pos + len`.

    * `chunkBody_spec`: the body of one chunk event is taken in as
      `Rechunk.Feeds` says.
    * `chunks_run`: a list of chunk events is a `Rechunk.Run`, stuck exactly
      when the entry assert of the handler fails.
    * `chunks_reassemble`: nothing is lost or duplicated when the response
      has the length the pipe goes by. -/

namespace Libms

open Rechunk

variable {σ : Type*}

/-! ## What was received -/

/-- The `on_recv` calls of a record. -/
def received (log : List CallRecord) : List (Delivery UInt8) :=
  log.filterMap fun r =>
    match r.call with
    | .onRecv buf pos => some ⟨pos, buf⟩
    | _ => none

/-- In every `on_recv` call `get_current_pos` is already the end of the data. -/
def Advanced (log : List CallRecord) : Prop :=
  ∀ r ∈ log, ∀ buf pos, r.call = .onRecv buf pos → r.currentPos = pos + buf.length

theorem received_append (log log' : List CallRecord) :
    received (log ++ log') = received log ++ received log' :=
  List.filterMap_append

theorem advanced_append {log log' : List CallRecord} (h : Advanced log) (h' : Advanced log') :
    Advanced (log ++ log') := by
  intro r hr
  rcases List.mem_append.mp hr with hr | hr
  · exact h r hr
  · exact h' r hr

/-- The pipe's state as a reblocker. -/
def stream (p : HttpPipe) : State UInt8 := ⟨p.pos, p.buf⟩

@[simp] theorem stream_pos (p : HttpPipe) : (stream p).pos = p.pos := rfl
@[simp] theorem stream_carry (p : HttpPipe) : (stream p).carry = p.buf := rfl

/-- The calls in between handed `ds` on, and moved the pipe by as much. -/
structure Emits (x x' : (σ × List CallRecord) × HttpPipe) (ds : List (Delivery UInt8)) : Prop where
  log : ∃ more, x'.1.2 = x.1.2 ++ more ∧ received more = ds ∧ Advanced more
  contiguous : Contiguous x.2.pos ds
  pos : x'.2.pos = x.2.pos + (payload ds).length
  reqPos : x'.2.reqPos = x.2.reqPos
  len : x'.2.len = x.2.len
  redirecting : x'.2.redirecting = x.2.redirecting
  onContentCalled : x'.2.onContentCalled = x.2.onContentCalled
  closing : (x.2.closing → x.2.closeImmediately) → x'.2.closing → x'.2.closeImmediately

section emits

variable {x x' x'' : (σ × List CallRecord) × HttpPipe} {ds ds' : List (Delivery UInt8)}

theorem Emits.refl : Emits x x [] :=
  ⟨⟨[], by simp, rfl, by simp [Advanced]⟩, trivial, rfl, rfl, rfl, rfl, rfl, id⟩

/-- Changing the carry hands nothing on. -/
theorem Emits.setBuf (buf : List UInt8) (h : Emits x x' ds) :
    Emits x (x'.1, x'.2.setBuf buf) ds :=
  ⟨h.log, h.contiguous, h.pos, h.reqPos, h.len, h.redirecting, h.onContentCalled, h.closing⟩

/-- Nor does an abort. -/
theorem Emits.abort (h : Emits x x' ds) : Emits x (x'.1, x'.2.abort) ds :=
  ⟨h.log, h.contiguous, h.pos, h.reqPos, h.len, h.redirecting, h.onContentCalled, h.closing⟩

theorem Emits.trans (h : Emits x x' ds) (h' : Emits x' x'' ds') : Emits x x'' (ds ++ ds') := by
  obtain ⟨more, hlog, hrecv, hadv⟩ := h.log
  obtain ⟨more', hlog', hrecv', hadv'⟩ := h'.log
  refine ⟨⟨more ++ more', ?_, ?_, advanced_append hadv hadv'⟩, ?_, ?_,
    h'.reqPos.trans h.reqPos, h'.len.trans h.len, h'.redirecting.trans h.redirecting,
    h'.onContentCalled.trans h.onContentCalled, fun hc => h'.closing (h.closing hc)⟩
  · rw [hlog', hlog, List.append_assoc]
  · rw [received_append, hrecv, hrecv']
  · apply contiguous_append h.contiguous
    rw [← h.pos]
    exact h'.contiguous
  · rw [h'.pos, h.pos, payload_append, List.length_append, Nat.add_assoc]

theorem deliver_closing (o : PipeOwner σ) (c : PipeCall) (x : σ × HttpPipe)
    (h : x.2.closing → x.2.closeImmediately) :
    (deliver o c x).2.closing → (deliver o c x).2.closeImmediately := by
  rcases deliver_pipe o c x with hp | hp
  · rw [hp]
    exact h
  · -- `pipe->close` sets both flags
    rw [hp]
    exact fun _ => rfl

theorem deliverRecv_emits (o : PipeOwner σ) (bytes : List UInt8) :
    Emits x (deliverRecv o.recorded bytes x) [⟨x.2.pos, bytes⟩] := by
  have hstart : x.2.pos + bytes.length - bytes.length = x.2.pos := by omega
  refine ⟨⟨[⟨.onRecv bytes x.2.pos, x.2.pos + bytes.length⟩], ?_, rfl, ?_⟩, ⟨rfl, trivial⟩,
    by simp [deliverRecv], by simp [deliverRecv], by simp [deliverRecv], by simp [deliverRecv],
    by simp [deliverRecv], ?_⟩
  · simp only [deliverRecv, deliver_recorded, hstart]
  · intro r hr buf pos hcall
    rw [List.mem_singleton.mp hr] at hcall ⊢
    cases hcall
    rfl
  · intro hclosing
    exact deliver_closing o.recorded _ _ hclosing

@[simp] theorem deliverRecv_buf (o : PipeOwner σ) (bytes : List UInt8) (x : σ × HttpPipe) :
    (deliverRecv o bytes x).2.buf = x.2.buf := by
  simp [deliverRecv]

@[simp] theorem deliverRecv_aborted (o : PipeOwner σ) (bytes : List UInt8) (x : σ × HttpPipe) :
    (deliverRecv o bytes x).2.aborted = x.2.aborted := by
  simp [deliverRecv]

end emits

/-! ## One chunk -/

section chunk

variable (o : PipeOwner σ) {x : (σ × List CallRecord) × HttpPipe}

/-- Deliveries of whole pieces. -/
def Whole (ds : List (Delivery UInt8)) : Prop :=
  ∀ d ∈ ds, d.start % 16384 = 0 ∧ d.bytes.length % 16384 = 0

/-- Topping up takes a start of the chunk, and leaves a carry only if it
    took all of it. -/
theorem topUp_spec (body : List UInt8) (hbuf : x.2.buf.length < 16384)
    (hpos : x.2.pos % 16384 = 0) :
    ∃ ds, Emits x (topUp o.recorded body x).1 ds ∧ Whole ds ∧
      payload ds ++ (topUp o.recorded body x).1.2.buf ++ body.drop (topUp o.recorded body x).2
        = x.2.buf ++ body ∧
      (topUp o.recorded body x).1.2.buf.length < 16384 ∧
      (body.drop (topUp o.recorded body x).2 ≠ [] → (topUp o.recorded body x).1.2.buf = []) ∧
      (topUp o.recorded body x).1.2.aborted = x.2.aborted := by
  simp only [topUp, msPieceUnitSize]
  by_cases hshort : 0 < x.2.buf.length ∨ body.length < 16384
  · rw [if_pos hshort]
    generalize hsize : min (16384 - x.2.buf.length) body.length = dataSize
    have htaken : (x.2.buf ++ body.take dataSize).length = x.2.buf.length + dataSize := by
      rw [List.length_append, List.length_take]
      omega
    by_cases hfull : x.2.buf.length + dataSize = 16384
    · -- the carry has become a piece
      rw [if_pos (by rw [HttpPipe.setBuf_buf, htaken]; exact hfull)]
      refine ⟨[⟨x.2.pos, x.2.buf ++ body.take dataSize⟩], ?_, ?_, ?_, by simp, by simp, by simp⟩
      · exact ((Emits.refl.setBuf _).trans (deliverRecv_emits o _)).setBuf []
      · intro d hd
        rw [List.mem_singleton.mp hd]
        exact ⟨hpos, by rw [htaken]; omega⟩
      · simp
    · -- the whole chunk fits
      have hall : dataSize = body.length := by omega
      rw [if_neg (by rw [HttpPipe.setBuf_buf, htaken]; exact hfull)]
      refine ⟨[], Emits.refl.setBuf _, by simp [Whole], ?_, ?_, ?_, rfl⟩
      · simp [hall]
      · rw [HttpPipe.setBuf_buf, htaken]
        omega
      · simp [hall]
  · rw [if_neg hshort]
    have hempty : x.2.buf = [] := List.length_eq_zero_iff.mp (by omega)
    exact ⟨[], Emits.refl, by simp [Whole], by simp, hbuf, fun _ => hempty, rfl⟩

/-- What is left of the chunk is handed on in whole pieces, but for a carry. -/
theorem passPieces_spec (body : List UInt8) (hbuf : x.2.buf.length < 16384)
    (hempty : body ≠ [] → x.2.buf = []) (hpos : x.2.pos % 16384 = 0) :
    ∃ ds, Emits x (passPieces o.recorded body x) ds ∧ Whole ds ∧
      payload ds ++ (passPieces o.recorded body x).2.buf = x.2.buf ++ body ∧
      (passPieces o.recorded body x).2.buf.length < 16384 ∧
      (passPieces o.recorded body x).2.aborted = x.2.aborted := by
  simp only [passPieces, msPieceUnitSize]
  by_cases hbody : 0 < body.length
  · rw [if_pos hbody]
    have hnil : x.2.buf = [] := hempty (List.ne_nil_of_length_pos hbody)
    generalize hrecv : body.length - body.length % 16384 = recv
    have hrest : (body.drop recv).length < 16384 := by
      rw [List.length_drop]
      omega
    by_cases hsome : 0 < recv
    · rw [if_pos hsome]
      refine ⟨[⟨x.2.pos, body.take recv⟩], ?_, ?_, ?_, ?_, by simp⟩
      · exact (deliverRecv_emits o _).setBuf _
      · intro d hd
        rw [List.mem_singleton.mp hd]
        refine ⟨hpos, ?_⟩
        rw [List.length_take]
        omega
      · simp [hnil]
      · simpa [hnil] using hrest
    · rw [if_neg hsome]
      have hzero : recv = 0 := by omega
      refine ⟨[], Emits.refl.setBuf _, by simp [Whole], by simp [hzero], ?_, rfl⟩
      simpa [hnil] using hrest
  · rw [if_neg hbody]
    have hnone : body = [] := List.length_eq_zero_iff.mp (by omega)
    exact ⟨[], Emits.refl, by simp [Whole], by simp [hnone], hbuf, rfl⟩

/-- At the end of the range the carry goes, before it stays. -/
theorem flushEnd_spec :
    (((x.2.pos + x.2.buf.length : Int) = x.2.reqPos + x.2.len →
        Emits x (flushEnd o.recorded x) [⟨x.2.pos, x.2.buf⟩] ∧
          (flushEnd o.recorded x).2.buf = []) ∧
      ((x.2.pos + x.2.buf.length : Int) ≠ x.2.reqPos + x.2.len → flushEnd o.recorded x = x)) ∧
      (flushEnd o.recorded x).2.aborted = x.2.aborted := by
  unfold flushEnd
  refine ⟨⟨fun hend => ?_, fun hmore => if_neg hmore⟩, ?_⟩
  · rw [if_pos hend]
    exact ⟨(deliverRecv_emits o _).setBuf [], rfl⟩
  · split <;> simp

/-- Before the end of the range is looked at, a chunk is handed on in whole
    pieces, but for a carry shorter than one. -/
theorem intake_spec (body : List UInt8) (hbuf : x.2.buf.length < 16384)
    (hpos : x.2.pos % 16384 = 0) :
    ∃ ds, Emits x (passPieces o.recorded (body.drop (topUp o.recorded body x).2)
        (topUp o.recorded body x).1) ds ∧ Whole ds ∧
      payload ds ++ (passPieces o.recorded (body.drop (topUp o.recorded body x).2)
        (topUp o.recorded body x).1).2.buf = x.2.buf ++ body ∧
      (passPieces o.recorded (body.drop (topUp o.recorded body x).2)
        (topUp o.recorded body x).1).2.buf.length < 16384 ∧
      (passPieces o.recorded (body.drop (topUp o.recorded body x).2)
        (topUp o.recorded body x).1).2.aborted = x.2.aborted := by
  obtain ⟨ds₁, hemit₁, hwhole₁, hpay₁, hbuf₁, hempty₁, hab₁⟩ := topUp_spec o body hbuf hpos
  revert hemit₁ hpay₁ hbuf₁ hempty₁ hab₁
  generalize topUp o.recorded body x = r₁
  obtain ⟨x₁, off⟩ := r₁
  intro hemit₁ hpay₁ hbuf₁ hempty₁ hab₁
  dsimp only at hemit₁ hpay₁ hbuf₁ hempty₁ hab₁ ⊢
  -- a piece handed on leaves the position at a piece border
  have hmod₁ : (payload ds₁).length % 16384 = 0 :=
    payload_length_mod fun d hd => (hwhole₁ d hd).2
  have hpos₁ : x₁.2.pos % 16384 = 0 := by
    rw [hemit₁.pos]
    omega
  obtain ⟨ds₂, hemit₂, hwhole₂, hpay₂, hbuf₂, hab₂⟩ :=
    passPieces_spec o (body.drop off) hbuf₁ hempty₁ hpos₁
  refine ⟨ds₁ ++ ds₂, hemit₁.trans hemit₂, ?_, ?_, hbuf₂, hab₂.trans hab₁⟩
  · intro d hd
    rcases List.mem_append.mp hd with hd | hd
    · exact hwhole₁ d hd
    · exact hwhole₂ d hd
  · rw [payload_append, List.append_assoc, hpay₂, ← List.append_assoc, hpay₁]

/-- **One chunk.** A chunk that arrives at a piece border is taken in, and
    what is handed on is what `Rechunk.Feeds` says. -/
theorem chunkBody_spec {body : List UInt8} (hbody : body ≠ []) (hbuf : x.2.buf.length < 16384)
    (hpos : x.2.pos % 16384 = 0) :
    ∃ ds, Emits x (chunkBody o.recorded body x) ds ∧
      Feeds 16384 (x.2.reqPos + x.2.len) (stream x.2) body ds
        (stream (chunkBody o.recorded body x).2) ∧
      (chunkBody o.recorded body x).2.aborted = x.2.aborted := by
  have hlen : body.length ≠ 0 := fun h => hbody (List.length_eq_zero_iff.mp h)
  simp only [chunkBody, if_neg hlen, msPieceUnitSize, hpos, ne_eq, not_true_eq_false, if_false]
  obtain ⟨ds, hemit, hwhole, hstream, hshort, hab⟩ := intake_spec o body hbuf hpos
  revert hemit hstream hshort hab
  generalize passPieces o.recorded (body.drop (topUp o.recorded body x).2)
    (topUp o.recorded body x).1 = y
  intro hemit hstream hshort hab
  have hsum : (payload ds).length + y.2.buf.length = x.2.buf.length + body.length := by
    have := congrArg List.length hstream
    simpa only [List.length_append] using this
  have haligned : ∀ d ∈ ds, d.Aligned 16384 (x.2.reqPos + x.2.len) :=
    fun d hd => ⟨(hwhole d hd).1, Or.inl (hwhole d hd).2⟩
  have hborder : y.2.pos % 16384 = 0 := by
    have hmod := payload_length_mod fun d hd => (hwhole d hd).2
    rw [hemit.pos]
    omega
  have hend : (y.2.pos + y.2.buf.length : Int) = x.2.pos + x.2.buf.length + body.length := by
    have := hemit.pos
    omega
  have hstop : (y.2.reqPos + y.2.len : Int) = x.2.reqPos + x.2.len := by
    rw [hemit.reqPos, hemit.len]
  obtain ⟨⟨hflush, hkeep⟩, hab'⟩ := @flushEnd_spec σ o y
  rw [hstop] at hflush hkeep
  by_cases hdone : (y.2.pos + y.2.buf.length : Int) = x.2.reqPos + x.2.len
  · -- the last piece may be short: it ends where the range does
    obtain ⟨hemit', hnil⟩ := hflush hdone
    have hemits := hemit.trans hemit'
    refine ⟨_, hemits, ⟨?_, hemits.contiguous, ?_, hemits.pos, ?_⟩, hab'.trans hab⟩
    · rw [stream_carry, stream_carry, hnil, List.append_nil, payload_append, payload_cons,
        payload_nil, List.append_nil, hstream]
    · intro d hd
      rcases List.mem_append.mp hd with hd | hd
      · exact haligned d hd
      · rw [List.mem_singleton.mp hd]
        exact ⟨hborder, Or.inr hdone⟩
    · rw [stream_carry, hnil, if_pos (by rw [stream_pos, stream_carry]; omega)]
      rfl
  · -- short of the end the carry waits for the next chunk
    rw [hkeep hdone] at hab' ⊢
    refine ⟨_, hemit, ⟨hstream, hemit.contiguous, haligned, hemit.pos, ?_⟩, hab⟩
    rw [stream_carry, if_neg (by rw [stream_pos, stream_carry]; omega), stream_carry]
    omega

end chunk

/-! ## A list of chunk events -/

section chunks

variable (o : PipeOwner σ)

/-- The pipe after chunk events for each of the messages. -/
def runChunks (msgs : List HttpMessage) (x : σ × HttpPipe) : σ × HttpPipe :=
  Runs.run (fun x hm => pipeHandler o (.httpChunk hm) x) x msgs

/-- The messages that arrive before the owner closes the pipe. -/
def handled : List HttpMessage → σ × HttpPipe → List HttpMessage
  | [], _ => []
  | hm :: msgs, x =>
    if x.2.closing then []
    else hm :: handled msgs (pipeHandler o (.httpChunk hm) x)

/-- A response whose body the handler takes. -/
def Accepted (hm : HttpMessage) : Prop := hm.respCode = 200 ∨ hm.respCode = 206

/-- The pipe is in the middle of a response. -/
structure Streaming (p : HttpPipe) : Prop where
  onContentCalled : p.onContentCalled = true
  redirecting : p.redirecting = false
  closing : p.closing → p.closeImmediately
  buf : p.buf.length < 16384

variable {o}

theorem Emits.streaming {x x' : (σ × List CallRecord) × HttpPipe} {ds : List (Delivery UInt8)}
    (h : Emits x x' ds) (hx : Streaming x.2) (hbuf : x'.2.buf.length < 16384) :
    Streaming x'.2 :=
  ⟨h.onContentCalled.trans hx.onContentCalled, h.redirecting.trans hx.redirecting,
    h.closing hx.closing, hbuf⟩

theorem pipeHandler_aborted {ev : PipeEvent} {x : σ × HttpPipe} (h : x.2.aborted = true) :
    pipeHandler o ev x = x := by
  unfold pipeHandler
  rw [if_pos h]

theorem runChunks_aborted (msgs : List HttpMessage) {x : σ × HttpPipe} (h : x.2.aborted = true) :
    runChunks o msgs x = x := by
  induction msgs with
  | nil => rfl
  | cons hm msgs ih =>
    unfold runChunks at ih ⊢
    rw [Runs.run_cons, pipeHandler_aborted h]
    exact ih

theorem runChunks_closing (msgs : List HttpMessage) {x : σ × HttpPipe}
    (hopen : x.2.aborted = false) (hclosing : x.2.closing = true)
    (hflag : x.2.closeImmediately = true) : runChunks o msgs x = x := by
  have hstep : ∀ hm, pipeHandler o (.httpChunk hm) x = x := by
    intro hm
    simp [pipeHandler, closingHandler, hopen, hclosing, hflag]
  induction msgs with
  | nil => rfl
  | cons hm msgs ih =>
    unfold runChunks at ih ⊢
    rw [Runs.run_cons, hstep]
    exact ih

/-- In the middle of a response only the body counts. -/
theorem pipeHandler_streaming {hm : HttpMessage} {x : σ × HttpPipe} (hx : Streaming x.2)
    (hlive : x.2.aborted = false) (hopen : x.2.closing = false) (hcode : Accepted hm) :
    pipeHandler o (.httpChunk hm) x = chunkBody o hm.body x := by
  have hok : ¬ (hm.respCode ≠ 200 ∧ hm.respCode ≠ 206) := by
    rcases hcode with h | h <;> omega
  simp [pipeHandler, openHandler, hlive, hopen, hx.redirecting, onHttpChunk, hok, chunkHeader,
    hx.onContentCalled]

/-- From `x` to `x'` the pipe took the chunks in as a run of the reblocker,
    stuck iff an entry assert failed. -/
def IsRun (x : (σ × List CallRecord) × HttpPipe) (chunks : List (List UInt8))
    (x' : (σ × List CallRecord) × HttpPipe) : Prop :=
  ∃ ds, Emits x x' ds ∧
    Rechunk.Run 16384 (x.2.reqPos + x.2.len) (stream x.2) chunks ds (stream x'.2) x'.2.aborted

section isRun

variable {x y x' : (σ × List CallRecord) × HttpPipe} {body : List UInt8}
  {chunks : List (List UInt8)}

theorem IsRun.nil (hlive : x.2.aborted = false) : IsRun x [] x := by
  refine ⟨[], Emits.refl, ?_⟩
  rw [hlive]
  exact Run.nil

theorem IsRun.empty (h : IsRun x chunks x') : IsRun x ([] :: chunks) x' := by
  obtain ⟨ds, hemit, hrun⟩ := h
  exact ⟨ds, hemit, Run.empty hrun⟩

theorem IsRun.stuck (hbody : body ≠ []) (hborder : x.2.pos % 16384 ≠ 0) :
    IsRun x (body :: chunks) (x.1, x.2.abort) :=
  ⟨[], Emits.refl.abort, Run.stuck hbody hborder⟩

theorem IsRun.feed {ds : List (Delivery UInt8)} (hbody : body ≠ []) (hborder : x.2.pos % 16384 = 0)
    (hemit : Emits x y ds)
    (hfeed : Feeds 16384 (x.2.reqPos + x.2.len) (stream x.2) body ds (stream y.2))
    (h : IsRun y chunks x') : IsRun x (body :: chunks) x' := by
  obtain ⟨ds', hemit', hrun⟩ := h
  rw [hemit.reqPos, hemit.len] at hrun
  exact ⟨ds ++ ds', hemit.trans hemit', Run.feed hbody hborder hfeed hrun⟩

end isRun

/-- **Run lemma.** A body taken in in the middle of a response, and the
    chunk events behind it, are a run of the reblocker. -/
theorem chunkBody_run (msgs : List HttpMessage) (body : List UInt8)
    {x : (σ × List CallRecord) × HttpPipe} (hx : Streaming x.2) (hlive : x.2.aborted = false)
    (hcodes : ∀ hm ∈ msgs, Accepted hm) :
    IsRun x (body :: (handled o.recorded msgs (chunkBody o.recorded body x)).map HttpMessage.body)
      (runChunks o.recorded msgs (chunkBody o.recorded body x)) := by
  -- the events behind `y`, which is still in the middle of the response
  have hrest (y : (σ × List CallRecord) × HttpPipe) (hy : Streaming y.2)
      (hylive : y.2.aborted = false) :
      IsRun y ((handled o.recorded msgs y).map HttpMessage.body) (runChunks o.recorded msgs y) := by
    cases msgs with
    | nil => exact IsRun.nil hylive
    -- the owner may have closed the pipe by then
    | cons hm msgs =>
      cases hopen : y.2.closing with
      | true =>
        rw [runChunks_closing _ hylive hopen (hy.closing hopen), handled, if_pos hopen]
        exact IsRun.nil hylive
      | false =>
        have hstep := pipeHandler_streaming (o := o.recorded) hy hylive hopen
          (hcodes hm (by simp))
        rw [handled, if_neg (by simp [hopen]), hstep, runChunks, Runs.run_cons, hstep]
        exact chunkBody_run msgs hm.body hy hylive fun m hm' => hcodes m (by simp [hm'])
  by_cases hbody : body = []
  · -- an empty chunk is skipped
    have hsame : chunkBody o.recorded body x = x := by simp [chunkBody, hbody]
    rw [hsame, hbody]
    exact (hrest x hx hlive).empty
  · by_cases hborder : x.2.pos % 16384 = 0
    · obtain ⟨ds, hemit, hfeed, hab⟩ := chunkBody_spec o hbody hx.buf hborder
      have hbuf : (chunkBody o.recorded body x).2.buf.length < 16384 := by
        have hcarry := hfeed.carry_length
        rw [stream_carry] at hcarry
        split at hcarry <;> omega
      exact IsRun.feed hbody hborder hemit hfeed
        (hrest _ (hemit.streaming hx hbuf) (hab.trans hlive))
    · -- away from a piece border the entry assert fails, and no event counts any more
      have hlen : body.length ≠ 0 := fun h => hbody (List.length_eq_zero_iff.mp h)
      have habort : chunkBody o.recorded body x = (x.1, x.2.abort) := by
        unfold chunkBody
        rw [if_neg hlen, if_pos hborder]
      rw [habort, runChunks_aborted msgs rfl]
      exact IsRun.stuck hbody hborder
termination_by msgs

/-! ## From the first chunk on -/

/-- From `x` to `x'` headers were handed on, and no data. -/
structure HeaderDone (x x' : (σ × List CallRecord) × HttpPipe) : Prop where
  log : ∃ more, x'.1.2 = x.1.2 ++ more ∧ received more = [] ∧ Advanced more
  pos : x'.2.pos = x.2.pos
  reqPos : x'.2.reqPos = x.2.reqPos
  buf : x'.2.buf = x.2.buf
  redirecting : x'.2.redirecting = x.2.redirecting
  closing : (x.2.closing → x.2.closeImmediately) → x'.2.closing → x'.2.closeImmediately

/-- The call is `on_recv`. -/
def PipeCall.isRecv : PipeCall → Bool
  | .onRecv _ _ => true
  | _ => false

theorem received_other {c : PipeCall} (hc : c.isRecv = false) (q : Nat) :
    received [⟨c, q⟩] = [] ∧ Advanced [⟨c, q⟩] := by
  cases c with
  | onRecv buf pos => cases hc
  | _ => exact ⟨rfl, by simp [Advanced]⟩

section headerDone

variable {x x' : (σ × List CallRecord) × HttpPipe}

theorem HeaderDone.refl : HeaderDone x x :=
  ⟨⟨[], by simp, rfl, by simp [Advanced]⟩, rfl, rfl, rfl, rfl, id⟩

theorem HeaderDone.deliver (h : HeaderDone x x') {c : PipeCall} (hc : c.isRecv = false) :
    HeaderDone x (deliver o.recorded c x') := by
  obtain ⟨more, hlog, hrecv, hadv⟩ := h.log
  obtain ⟨hrecv', hadv'⟩ := received_other hc x'.2.pos
  -- no data is handed on, so the positions stay
  refine ⟨⟨more ++ [⟨c, x'.2.pos⟩], ?_, ?_, advanced_append hadv hadv'⟩, ?_, ?_, ?_, ?_, ?_⟩
  · rw [deliver_recorded, hlog, List.append_assoc]
  · rw [received_append, hrecv, hrecv']
    rfl
  · rw [deliver_pos, h.pos]
  · rw [deliver_reqPos, h.reqPos]
  · rw [deliver_buf, h.buf]
  · rw [deliver_redirecting, h.redirecting]
  · intro hc'
    exact deliver_closing o.recorded c x' (h.closing hc')

theorem HeaderDone.set (h : HeaderDone x x') (called aborted : Bool) (len : Int) :
    HeaderDone x (x'.1, { x'.2 with onContentCalled := called, aborted := aborted, len := len }) :=
  ⟨h.log, h.pos, h.reqPos, h.buf, h.redirecting, h.closing⟩

end headerDone

theorem contentSizes_done (hm : HttpMessage) {x x' : (σ × List CallRecord) × HttpPipe}
    (h : HeaderDone x x') :
    HeaderDone x (contentSizes o.recorded hm x') ∧
      (contentSizes o.recorded hm x').2.onContentCalled = x'.2.onContentCalled := by
  simp only [contentSizes]
  split
  · exact ⟨h.set x'.2.onContentCalled true x'.2.len, rfl⟩
  · rename_i rangeHdr _
    have hsize : HeaderDone x (if 0 < (httpParseContentRange rangeHdr).2.2 then
        deliver o.recorded (.onFilesize (httpParseContentRange rangeHdr).2.2) x' else x') ∧
        (if 0 < (httpParseContentRange rangeHdr).2.2 then
        deliver o.recorded (.onFilesize (httpParseContentRange rangeHdr).2.2) x'
          else x').2.onContentCalled = x'.2.onContentCalled := by
      split
      · exact ⟨h.deliver rfl, by simp⟩
      · exact ⟨h, rfl⟩
    revert hsize
    generalize (if 0 < (httpParseContentRange rangeHdr).2.2 then
        deliver o.recorded (.onFilesize (httpParseContentRange rangeHdr).2.2) x' else x') = y
    intro hsize
    split
    · exact ⟨hsize.1.set y.2.onContentCalled true y.2.len, hsize.2⟩
    · rename_i v _
      refine ⟨(hsize.1.set y.2.onContentCalled y.2.aborted (Text.strtoll v)).deliver rfl, ?_⟩
      rw [deliver_onContentCalled]
      exact hsize.2

theorem chunkHeader_done (hm : HttpMessage) {x : (σ × List CallRecord) × HttpPipe}
    (hfirst : x.2.onContentCalled = false) :
    HeaderDone x (chunkHeader o.recorded hm x) ∧
      (chunkHeader o.recorded hm x).2.onContentCalled = true := by
  have hheader : HeaderDone x (deliver o.recorded (.onHeader hm) x) := HeaderDone.refl.deliver rfl
  simp only [chunkHeader, hfirst, Bool.false_eq_true, if_false]
  revert hheader
  generalize deliver o.recorded (.onHeader hm) x = y
  intro hheader
  have hcalled := hheader.set true y.2.aborted y.2.len
  split
  · exact contentSizes_done hm hcalled
  · exact ⟨hcalled, rfl⟩

/-- A pipe that waits for the first chunk of its response. -/
structure Fresh (p : HttpPipe) : Prop where
  aborted : p.aborted = false
  closing : p.closing = false
  redirecting : p.redirecting = false
  onContentCalled : p.onContentCalled = false
  buf : p.buf = []
  pos : p.pos = p.reqPos

theorem msHttpPipeCreate_fresh (url : List Char) (pos : Nat) (len : Int) :
    Fresh (msHttpPipeCreate url pos len).pipeConnect :=
  ⟨rfl, rfl, rfl, rfl, rfl, rfl⟩

/-- **From the first chunk on.** Once the headers gave the length, all chunk
    events of a response are a run of the reblocker from `req_pos` on. -/
theorem chunks_run {hm : HttpMessage} {msgs : List HttpMessage}
    {x : (σ × List CallRecord) × HttpPipe} (hx : Fresh x.2) (hlog : x.1.2 = [])
    (hcodes : ∀ m ∈ hm :: msgs, Accepted m)
    (hlen : (chunkHeader o.recorded hm x).2.aborted = false) :
    let x' := runChunks o.recorded (hm :: msgs) x
    ∃ ds, received x'.1.2 = ds ∧ Advanced x'.1.2 ∧
      Rechunk.Run 16384 (x.2.reqPos + (chunkHeader o.recorded hm x).2.len) ⟨x.2.reqPos, []⟩
        ((handled o.recorded (hm :: msgs) x).map HttpMessage.body) ds (stream x'.2)
        x'.2.aborted := by
  have hok : ¬ (hm.respCode ≠ 200 ∧ hm.respCode ≠ 206) := by
    rcases hcodes hm (by simp) with h | h <;> omega
  have hfirst : pipeHandler o.recorded (.httpChunk hm) x =
      chunkBody o.recorded hm.body (chunkHeader o.recorded hm x) := by
    simp [pipeHandler, openHandler, hx.aborted, hx.closing, hx.redirecting, onHttpChunk, hok, hlen]
  obtain ⟨hdone, hcalled⟩ := chunkHeader_done (o := o) hm hx.onContentCalled
  rw [handled, if_neg (by simp [hx.closing]), runChunks, Runs.run_cons, hfirst]
  revert hdone hcalled hlen
  generalize chunkHeader o.recorded hm x = y
  intro hlen hdone hcalled
  -- behind its headers the pipe is in the middle of the response
  have hy : Streaming y.2 := by
    refine ⟨hcalled, hdone.redirecting.trans hx.redirecting, hdone.closing ?_, ?_⟩
    · rw [hx.closing]
      exact fun h => absurd h (by decide)
    · rw [hdone.buf, hx.buf]
      exact (by decide)
  obtain ⟨ds, hemit, hrun⟩ := chunkBody_run (o := o) msgs hm.body hy hlen
    fun m hm' => hcodes m (by simp [hm'])
  obtain ⟨more, hmore, hnone, hadv⟩ := hdone.log
  obtain ⟨more', hmore', hsome, hadv'⟩ := hemit.log
  -- the record is that of the headers, and then that of the data
  have hall : (runChunks o.recorded msgs (chunkBody o.recorded hm.body y)).1.2 = more ++ more' := by
    rw [hmore', hmore, hlog, List.nil_append]
  refine ⟨ds, ?_, ?_, ?_⟩
  · show received (runChunks o.recorded msgs (chunkBody o.recorded hm.body y)).1.2 = ds
    rw [hall, received_append, hnone, hsome, List.nil_append]
  · show Advanced (runChunks o.recorded msgs (chunkBody o.recorded hm.body y)).1.2
    rw [hall]
    exact advanced_append hadv hadv'
  · have hstart : stream y.2 = ⟨x.2.reqPos, []⟩ := by
      simp only [stream, hdone.pos, hdone.buf, hx.pos, hx.buf]
    rw [hdone.reqPos, hstart] at hrun
    exact hrun

end chunks

/-! ## An owner that leaves the pipe open -/

/-- No callback closes the pipe. -/
def PipeOwner.NeverCloses (o : PipeOwner σ) : Prop := ∀ s p c, (o.call s p c).2 = false

section neverCloses

variable {o : PipeOwner σ} (h : o.NeverCloses)

include h

theorem recorded_neverCloses : o.recorded.NeverCloses := fun s p c => h s.1 p c

theorem deliver_neverCloses (c : PipeCall) (x : σ × HttpPipe) : (deliver o c x).2 = x.2 := by
  have hcall := h x.1 x.2 c
  simp only [deliver, hcall]
  rfl

theorem contentSizes_closing (hm : HttpMessage) (x : σ × HttpPipe) :
    (contentSizes o hm x).2.closing = x.2.closing := by
  unfold contentSizes
  split
  · rfl
  · split
    · dsimp only [HttpPipe.abort]
      split <;> simp [deliver_neverCloses h]
    · rw [deliver_neverCloses h]
      dsimp only
      split <;> simp [deliver_neverCloses h]

theorem chunkHeader_closing (hm : HttpMessage) (x : σ × HttpPipe) :
    (chunkHeader o hm x).2.closing = x.2.closing := by
  simp only [chunkHeader]
  split
  · rfl
  · split
    · rw [contentSizes_closing h]
      simp [deliver_neverCloses h]
    · simp [deliver_neverCloses h]

theorem chunkBody_closing (body : List UInt8) (x : σ × HttpPipe) :
    (chunkBody o body x).2.closing = x.2.closing := by
  have hrecv (bytes : List UInt8) (x : σ × HttpPipe) :
      (deliverRecv o bytes x).2.closing = x.2.closing := by
    simp [deliverRecv, deliver_neverCloses h]
  have htop : (topUp o body x).1.2.closing = x.2.closing := by
    simp only [topUp]
    split
    · split
      · simp [HttpPipe.setBuf, hrecv]
      · rfl
    · rfl
  have hpass (rest : List UInt8) (x : σ × HttpPipe) :
      (passPieces o rest x).2.closing = x.2.closing := by
    simp only [passPieces]
    split
    · dsimp only [HttpPipe.setBuf]
      split <;> simp [hrecv]
    · rfl
  have hflush (x : σ × HttpPipe) : (flushEnd o x).2.closing = x.2.closing := by
    simp only [flushEnd]
    split
    · simp [HttpPipe.setBuf, hrecv]
    · rfl
  simp only [chunkBody]
  split
  · rfl
  · split
    · rfl
    · rw [hflush, hpass, htop]

theorem pipeHandler_closing (hm : HttpMessage) {x : σ × HttpPipe} (hopen : x.2.closing = false) :
    (pipeHandler o (.httpChunk hm) x).2.closing = false := by
  unfold pipeHandler
  rw [hopen]
  simp only [Bool.false_eq_true, if_false]
  split
  · exact hopen
  · split
    · exact hopen
    · simp only [openHandler, onHttpChunk]
      split
      · exact hopen
      · split
        · rw [chunkHeader_closing h, hopen]
        · rw [chunkBody_closing h, chunkHeader_closing h, hopen]

/-- All chunks reach the handler of a pipe that stays open. -/
theorem handled_neverCloses (msgs : List HttpMessage) {x : σ × HttpPipe}
    (hopen : x.2.closing = false) : handled o msgs x = msgs := by
  induction msgs generalizing x with
  | nil => rfl
  | cons hm msgs ih =>
    rw [handled, if_neg (by simp [hopen]), ih (pipeHandler_closing h hm hopen)]

end neverCloses

/-! ## Reassembly -/

/-- A pipe as the task opens and connects it, under a recording owner. -/
def openPipe (s : σ) (url : List Char) (pos : Nat) (len : Int) :
    (σ × List CallRecord) × HttpPipe :=
  ((s, []), (msHttpPipeCreate url pos len).pipeConnect)

/-- The whole body of a response that arrives as these messages. -/
def wholeBody (msgs : List HttpMessage) : List UInt8 := msgs.flatMap HttpMessage.body

/-- The chunks that reach the handler are the first of the response. -/
theorem handled_flatten_le {o : PipeOwner σ} (msgs : List HttpMessage) (x : σ × HttpPipe) :
    ((handled o msgs x).map HttpMessage.body).flatten <+: wholeBody msgs := by
  induction msgs generalizing x with
  | nil => exact List.nil_prefix
  | cons hm msgs ih =>
    rw [handled]
    split
    · exact List.nil_prefix
    · rw [List.map_cons, List.flatten_cons, wholeBody, List.flatMap_cons]
      exact (List.prefix_append_right_inj _).mpr (ih _)

/-- The sizes the first chunk needs are there: the file size and the length
    are known, or the headers that give them are present. -/
def SizesGiven (filesize len : Int) (hm : HttpMessage) : Prop :=
  filesize ≠ 0 ∧ len ≠ 0 ∨
    (mgGetHttpHeader hm "Content-Range").isSome ∧ (mgGetHttpHeader hm "Content-Length").isSome

/-- The length a pipe goes by: the one it was created with where both sizes
    are known, and the Content-Length otherwise. -/
def bodyLength (filesize len : Int) (hm : HttpMessage) : Int :=
  if filesize = 0 ∨ len = 0 then
    match mgGetHttpHeader hm "Content-Length" with
    | some v => Text.strtoll v
    | none => 0
  else len

/-- What the headers of a response leave the pipe with. -/
theorem chunkHeader_sizes {o : PipeOwner σ} {hm : HttpMessage} {x : σ × HttpPipe} {filesize : Int}
    (hfirst : x.2.onContentCalled = false) (hlive : x.2.aborted = false)
    (hsize : o.getFilesize (o.call x.1 x.2 (.onHeader hm)).1 = filesize)
    (hgiven : SizesGiven filesize x.2.len hm) :
    (chunkHeader o hm x).2.aborted = false ∧
      (chunkHeader o hm x).2.len = bodyLength filesize x.2.len hm := by
  have hask : o.getFilesize (deliver o (.onHeader hm) x).1 = filesize := hsize
  simp only [chunkHeader, hfirst, Bool.false_eq_true, if_false, deliver_len, hask, bodyLength]
  by_cases hunknown : filesize = 0 ∨ x.2.len = 0
  · rw [if_pos hunknown, if_pos hunknown]
    -- one of the sizes is unknown, so both headers are there
    obtain ⟨hrange, hlength⟩ : (mgGetHttpHeader hm "Content-Range").isSome ∧
        (mgGetHttpHeader hm "Content-Length").isSome := by
      rcases hgiven with hknown | hheaders
      · rcases hunknown with h | h
        · exact absurd h hknown.1
        · exact absurd h hknown.2
      · exact hheaders
    obtain ⟨range, hrange⟩ := Option.isSome_iff_exists.mp hrange
    obtain ⟨v, hv⟩ := Option.isSome_iff_exists.mp hlength
    simp only [contentSizes, hrange, hv, deliver_aborted, deliver_len]
    refine ⟨?_, trivial⟩
    split
    · simp [hlive]
    · simp [hlive]
  · rw [if_neg hunknown, if_neg hunknown]
    exact ⟨by simp [hlive], by simp⟩

/-- **Reassembly.** A pipe at a piece border goes by the length `L`, and a
    body of that length arrives in any cut. Then the `on_recv` calls hand on
    the body in order, each aligned, with the position advanced before; no
    assert fails, and nothing stays in the carry. -/
theorem chunks_reassemble (o : PipeOwner σ) (hopen : o.NeverCloses) (s : σ) (url : List Char)
    (pos : Nat) (reqLen filesize : Int) (L : Nat) (hm : HttpMessage) (msgs : List HttpMessage)
    (hpos : pos % 16384 = 0) (hcodes : ∀ m ∈ hm :: msgs, Accepted m)
    (hsize : o.getFilesize (o.call s (openPipe s url pos reqLen).2 (.onHeader hm)).1 = filesize)
    (hgiven : SizesGiven filesize (openPipe s url pos reqLen).2.len hm)
    (hlen : bodyLength filesize (openPipe s url pos reqLen).2.len hm = L)
    (hbody : (wholeBody (hm :: msgs)).length = L) :
    let x := runChunks o.recorded (hm :: msgs) (openPipe s url pos reqLen)
    payload (received x.1.2) = wholeBody (hm :: msgs) ∧
      Contiguous pos (received x.1.2) ∧
      (∀ d ∈ received x.1.2, d.start % 16384 = 0 ∧
        (d.bytes.length % 16384 = 0 ∨ d.start + d.bytes.length = pos + L)) ∧
      Advanced x.1.2 ∧ x.2.aborted = false ∧ x.2.buf = [] := by
  intro x
  obtain ⟨hlive, hheader⟩ := @chunkHeader_sizes _ o.recorded hm (openPipe s url pos reqLen)
    filesize rfl rfl hsize hgiven
  obtain ⟨ds, hds, hadv, hrun⟩ := @chunks_run σ o hm msgs (openPipe s url pos reqLen)
    (msHttpPipeCreate_fresh url pos reqLen) rfl hcodes hlive
  rw [hheader, hlen, handled_neverCloses (recorded_neverCloses hopen) _ rfl] at hrun
  have hflat : ((hm :: msgs).map HttpMessage.body).flatten = wholeBody (hm :: msgs) := by
    rw [wholeBody, List.flatMap_def]
  have hreq : (openPipe s url pos reqLen).2.reqPos = pos := rfl
  simp only [hreq] at hrun
  -- the body is as long as the pipe goes by, so the run ends at its stop
  have hstuck := hrun.not_stuck (by rw [hflat, hbody]; simp) (fun _ => hpos)
  obtain ⟨hpay, hcarry⟩ := hrun.complete
    (by rw [hflat, hbody]; simp) (fun _ => hpos) (fun _ => rfl)
  rw [hflat, List.nil_append] at hpay
  refine ⟨by rw [hds]; exact hpay, by rw [hds]; exact hrun.contiguous, ?_, hadv, hstuck, hcarry⟩
  intro d hd
  rw [hds] at hd
  obtain ⟨hstart, hend⟩ := hrun.aligned d hd
  refine ⟨hstart, ?_⟩
  rcases hend with hend | hend
  · exact Or.inl hend
  · exact Or.inr (by omega)

/-- An owner without a state that knows the file size and never closes. -/
def idleOwner (filesize : Int) : PipeOwner Unit where
  getFilesize _ := filesize
  call _ _ _ := ((), false)

/-- Three bytes that arrive in two chunks. -/
theorem chunks_reassemble_three :
    let msgs := [⟨206, [], [1]⟩, ⟨206, [], [2, 3]⟩]
    let x := runChunks (idleOwner 3).recorded msgs (openPipe () [] 0 3)
    payload (received x.1.2) = wholeBody msgs ∧
      Contiguous 0 (received x.1.2) ∧
      (∀ d ∈ received x.1.2, d.start % 16384 = 0 ∧
        (d.bytes.length % 16384 = 0 ∨ d.start + d.bytes.length = 0 + 3)) ∧
      Advanced x.1.2 ∧ x.2.aborted = false ∧ x.2.buf = [] :=
  chunks_reassemble (idleOwner 3) (fun _ _ _ => rfl) () [] 0 3 3 3
    ⟨206, [], [1]⟩ [⟨206, [], [2, 3]⟩]
    (by decide) (by simp [Accepted]) rfl (Or.inl ⟨by decide, by decide⟩) rfl (by decide)

end Libms
