import Mathlib
import Libms.Pipe.Closing

/-! # Two owners of one pipe

    Two models of the task answer the same pipe. If they agree on every
    callback that is made while the pipe is open, then they agree on every
    event in which no callback comes after the one that closes the pipe.

    * `Maps`: an owner that is another one with more to remember.
      `onHttpChunk_plays` takes the record of `chunk_lands` away by it.
    * `Follows`: two owners that agree on a callback.
    * `pipeHandler_follows`: they agree on an event. -/

namespace Libms

variable {σ τ : Type*}

/-! ## An owner with a record -/

/-- The one owner does what the other does, on the images of its states. -/
structure PipeOwner.Maps (o : PipeOwner σ) (o' : PipeOwner τ) (f : σ → τ) : Prop where
  filesize : ∀ s, o'.getFilesize (f s) = o.getFilesize s
  call : ∀ s p c, o'.call (f s) p c = (f (o.call s p c).1, (o.call s p c).2)

theorem PipeOwner.watched_maps (o : PipeOwner σ) : o.watched.Maps o Prod.fst :=
  ⟨fun _ => rfl, fun _ _ _ => rfl⟩

section maps

variable {o : PipeOwner σ} {o' : PipeOwner τ} {f : σ → τ}

theorem deliver_maps (h : o.Maps o' f) (c : PipeCall) (s : σ) (p : HttpPipe) :
    deliver o' c (f s, p) = Prod.map f id (deliver o c (s, p)) := by
  have hcall := h.call s p c
  simp only [deliver, hcall]
  rfl

theorem deliverRecv_maps (h : o.Maps o' f) (bytes : List UInt8) (s : σ) (p : HttpPipe) :
    deliverRecv o' bytes (f s, p) = Prod.map f id (deliverRecv o bytes (s, p)) :=
  deliver_maps h _ s { p with pos := p.pos + bytes.length }

theorem contentSizes_maps (h : o.Maps o' f) (hm : HttpMessage) (s : σ) (p : HttpPipe) :
    contentSizes o' hm (f s, p) = Prod.map f id (contentSizes o hm (s, p)) := by
  have hfirst : ∀ n, (if 0 < n then deliver o' (.onFilesize n) (f s, p) else (f s, p)) =
      Prod.map f id (if 0 < n then deliver o (.onFilesize n) (s, p) else (s, p)) := by
    intro n
    split
    · exact deliver_maps h _ s p
    · rfl
  simp only [contentSizes]
  split
  · rfl
  · rw [hfirst]
    split
    · rfl
    · simp only [Prod.map_fst, Prod.map_snd, id_eq]
      exact deliver_maps h _ _ _

theorem chunkHeader_maps (h : o.Maps o' f) (hm : HttpMessage) (s : σ) (p : HttpPipe) :
    chunkHeader o' hm (f s, p) = Prod.map f id (chunkHeader o hm (s, p)) := by
  simp only [chunkHeader]
  split
  · rfl
  · rw [deliver_maps h]
    simp only [Prod.map_fst, Prod.map_snd, id_eq, h.filesize]
    split
    · exact contentSizes_maps h hm _ _
    · rfl

theorem topUp_maps (h : o.Maps o' f) (body : List UInt8) (s : σ) (p : HttpPipe) :
    topUp o' body (f s, p) = (Prod.map f id (topUp o body (s, p)).1, (topUp o body (s, p)).2) := by
  simp only [topUp]
  split
  · split
    · rw [deliverRecv_maps h]
      rfl
    · rfl
  · rfl

theorem passPieces_maps (h : o.Maps o' f) (body : List UInt8) (s : σ) (p : HttpPipe) :
    passPieces o' body (f s, p) = Prod.map f id (passPieces o body (s, p)) := by
  simp only [passPieces]
  split
  · split
    · rw [deliverRecv_maps h]
      rfl
    · rfl
  · rfl

theorem flushEnd_maps (h : o.Maps o' f) (s : σ) (p : HttpPipe) :
    flushEnd o' (f s, p) = Prod.map f id (flushEnd o (s, p)) := by
  simp only [flushEnd]
  split
  · rw [deliverRecv_maps h]
    rfl
  · rfl

theorem chunkBody_maps (h : o.Maps o' f) (body : List UInt8) (s : σ) (p : HttpPipe) :
    chunkBody o' body (f s, p) = Prod.map f id (chunkBody o body (s, p)) := by
  simp only [chunkBody]
  split
  · rfl
  · split
    · rfl
    · rw [topUp_maps h]
      generalize topUp o body (s, p) = first
      obtain ⟨⟨s₁, p₁⟩, off⟩ := first
      exact (congrArg (flushEnd o') (passPieces_maps h (body.drop off) s₁ p₁)).trans
        (flushEnd_maps h _ _)

theorem onHttpChunk_maps (h : o.Maps o' f) (hm : HttpMessage) (s : σ) (p : HttpPipe) :
    onHttpChunk o' hm (f s, p) = Prod.map f id (onHttpChunk o hm (s, p)) := by
  simp only [onHttpChunk]
  split
  · rfl
  · rw [chunkHeader_maps h]
    simp only [Prod.map_snd, id_eq]
    split
    · rfl
    · exact chunkBody_maps h hm.body _ _

end maps

/-- A chunk plays its plan, with no record of it. -/
theorem onHttpChunk_plays (o : PipeOwner σ) (hm : HttpMessage) (s : σ) {p : HttpPipe}
    (hp : p.closing = false) :
    let plan := planChunk (unknownAfterHeader o hm s p) hm p
    onHttpChunk o hm (s, p) =
      ((play o plan.1 (s, []) false).1.1, plan.2.closeIf (play o plan.1 (s, []) false).2) := by
  intro plan
  have hlands : onHttpChunk o.watched hm ((s, []), p) = land o plan (s, []) false :=
    chunk_lands hp hm
  have hmaps := onHttpChunk_maps o.watched_maps hm (s, []) p
  rw [hlands] at hmaps
  exact hmaps

/-! ## Two owners -/

/-- Related owners know the same file size, and a callback that is made while
    the pipe is open leaves them related, and the pipe open in both or in
    none. -/
structure PipeOwner.Follows (o : PipeOwner σ) (o' : PipeOwner τ) (R : σ → τ → Bool → Prop) :
    Prop where
  filesize : ∀ s t closed, R s t closed → o.getFilesize s = o'.getFilesize t
  call : ∀ s t p c, R s t false → (o.call s p c).2 = (o'.call t p c).2 ∧
    R (o.call s p c).1 (o'.call t p c).1 (o.call s p c).2

/-- Two owners are related, and hold the same pipe. -/
def SamePipe (R : σ → τ → Bool → Prop) (x : σ × HttpPipe) (y : τ × HttpPipe) : Prop :=
  x.2 = y.2 ∧ R x.1 y.1 x.2.closing

/-- The condition on an event: only the last callback of a chunk closes the
    pipe. -/
def EventClosesLast (o : PipeOwner σ) (s : σ) (p : HttpPipe) : PipeEvent → Prop
  | .httpChunk hm => TurnClosesLast o ((s, []), p) (.chunk hm)
  | _ => True

instance decidableClosesLast (o : PipeOwner σ) :
    (cs : List Planned) → (s : σ) → Decidable (ClosesLast o cs s)
  | [], _ => isTrue trivial
  | [_], _ => isTrue trivial
  | c :: c' :: cs, s =>
    have := decidableClosesLast o (c' :: cs) (o.call s c.pipe c.call).1
    inferInstanceAs (Decidable (_ ∧ _))

instance (o : PipeOwner σ) (s : σ) (p : HttpPipe) :
    (ev : PipeEvent) → Decidable (EventClosesLast o s p ev)
  | .httpChunk _ => inferInstanceAs (Decidable (_ → _ → _ → _))
  | .connect _ => isTrue trivial
  | .httpReply _ => isTrue trivial
  | .close => isTrue trivial

section follows

variable {o : PipeOwner σ} {o' : PipeOwner τ} {R : σ → τ → Bool → Prop} {s : σ} {t : τ}
  {p : HttpPipe}

theorem deliver_follows (ho : o.Follows o' R) (hp : p.closing = false) (h : R s t false)
    (c : PipeCall) : SamePipe R (deliver o c (s, p)) (deliver o' c (t, p)) := by
  obtain ⟨hflag, hR⟩ := ho.call s t p c h
  simp only [SamePipe, deliver, ← hflag]
  cases hclosed : (o.call s p c).2 with
  | true =>
    rw [hclosed] at hR
    exact ⟨trivial, hR⟩
  | false =>
    rw [hclosed] at hR
    rw [if_neg Bool.false_ne_true, hp]
    exact ⟨trivial, hR⟩

theorem SamePipe.setPipe {x : σ × HttpPipe} {y : τ × HttpPipe} (h : SamePipe R x y)
    (f : HttpPipe → HttpPipe) (hf : ∀ p, (f p).closing = p.closing) :
    SamePipe R (x.1, f x.2) (y.1, f y.2) := by
  refine ⟨congrArg f h.1, ?_⟩
  rw [hf]
  exact h.2

/-- Both owners play a plan that closes the pipe at its end or not at all. -/
theorem play_follows (ho : o.Follows o' R) (cs : List Planned) (log log' : List Watch)
    (h : R s t false) (hlast : ClosesLast o cs s) :
    (play o cs (s, log) false).2 = (play o' cs (t, log') false).2 ∧
      R (play o cs (s, log) false).1.1 (play o' cs (t, log') false).1.1
        (play o cs (s, log) false).2 := by
  induction cs generalizing s t log log' with
  | nil => exact ⟨rfl, h⟩
  | cons c cs ih =>
    obtain ⟨hflag, hR⟩ := ho.call s t c.pipe c.call h
    simp only [play, HttpPipe.closeIf, if_neg Bool.false_ne_true, Bool.false_or, ← hflag]
    cases cs with
    | nil => exact ⟨rfl, hR⟩
    | cons c' cs =>
      -- there is another callback, so this one has not closed the pipe
      obtain ⟨hopen, hrest⟩ := hlast
      rw [hopen] at hR ⊢
      exact ih _ _ hR hrest

theorem onHttpChunk_follows (ho : o.Follows o' R) (hp : p.closing = false) (h : R s t false)
    {hm : HttpMessage}
    (hlast : ClosesLast o (planChunk (unknownAfterHeader o hm s p) hm p).1 s) :
    SamePipe R (onHttpChunk o hm (s, p)) (onHttpChunk o' hm (t, p)) := by
  have hknown : unknownAfterHeader o' hm t p = unknownAfterHeader o hm s p := by
    unfold unknownAfterHeader
    rw [ho.filesize _ _ _ (ho.call s t p (.onHeader hm) h).2]
  rw [onHttpChunk_plays o hm s hp, onHttpChunk_plays o' hm t hp, hknown]
  have hopen := (planChunk_tame (unknownAfterHeader o hm s p) hm (p := p)).closing.trans hp
  generalize planChunk (unknownAfterHeader o hm s p) hm p = plan at hlast hopen ⊢
  obtain ⟨hflag, hR⟩ := play_follows ho plan.1 [] [] h hlast
  refine ⟨congrArg plan.2.closeIf hflag, ?_⟩
  dsimp only
  rw [closeIf_closing hopen]
  exact hR

theorem onHttpReply_follows (ho : o.Follows o' R) (hp : p.closing = false) (h : R s t false)
    (hm : HttpMessage) : SamePipe R (onHttpReply o hm (s, p)) (onHttpReply o' hm (t, p)) := by
  have hsame : SamePipe R (s, p) (t, p) := by
    refine ⟨rfl, ?_⟩
    rw [hp]
    exact h
  simp only [onHttpReply]
  split
  · split
    · exact deliver_follows ho (p := { p with redirectTime := p.redirectTime + 1 }) hp h _
    · split
      · exact hsame.setPipe (fun p => { p with redirectTime := p.redirectTime + 1 }.abort)
          fun _ => rfl
      · rename_i v _
        split
        · exact (deliver_follows ho (p := { p with
            redirectTime := p.redirectTime + 1, url := v }) hp h (.onRedirect v)).setPipe
            (fun p => { p with redirecting := true, closeImmediately := true }) fun _ => rfl
        · exact hsame.setPipe (fun p => { p with
            redirectTime := p.redirectTime + 1, url := v, redirecting := true,
            closeImmediately := true }) fun _ => rfl
  · split
    · exact deliver_follows ho hp h _
    · exact deliver_follows ho hp h _

/-- **Events.** Two owners that follow each other still do after an event of
    the pipe, if only its last callback closes the pipe. -/
theorem pipeHandler_follows (ho : o.Follows o' R) (h : R s t p.closing) {ev : PipeEvent}
    (hlast : EventClosesLast o s p ev) :
    SamePipe R (pipeHandler o ev (s, p)) (pipeHandler o' ev (t, p)) := by
  have hsame : SamePipe R (s, p) (t, p) := ⟨rfl, h⟩
  unfold pipeHandler
  cases haborted : p.aborted with
  | true =>
    rw [if_pos rfl, if_pos rfl]
    exact hsame
  | false =>
    rw [if_neg Bool.false_ne_true, if_neg Bool.false_ne_true]
    cases hclosing : p.closing with
    | true =>
      rw [if_pos rfl, if_pos rfl]
      unfold closingHandler
      split
      · cases ev with
        | close => exact hsame.setPipe HttpPipe.free fun _ => rfl
        | connect status => exact hsame
        | httpChunk hm => exact hsame
        | httpReply hm => exact hsame
      · exact hsame.setPipe HttpPipe.abort fun _ => rfl
    | false =>
      rw [if_neg Bool.false_ne_true, if_neg Bool.false_ne_true]
      rw [hclosing] at h
      cases hredirecting : p.redirecting with
      | true =>
        rw [if_pos rfl, if_pos rfl]
        cases ev with
        | close =>
          exact hsame.setPipe (fun p => { p with redirecting := false }.pipeConnect) fun _ => rfl
        | connect status => exact hsame
        | httpChunk hm => exact hsame
        | httpReply hm => exact hsame
      | false =>
        rw [if_neg Bool.false_ne_true, if_neg Bool.false_ne_true]
        cases ev with
        | connect status =>
          simp only [openHandler]
          split
          · exact deliver_follows ho hclosing h _
          · exact hsame
        | httpChunk hm =>
          exact onHttpChunk_follows ho hclosing h (hlast haborted hclosing hredirecting)
        | httpReply hm => exact onHttpReply_follows ho hclosing h hm
        | close =>
          have hclose := deliver_follows ho hclosing h (.onClose 502)
          simp only [openHandler]
          rw [← hclose.1]
          split
          · have hfreed := hclose.setPipe HttpPipe.free fun _ => rfl
            rw [← hclose.1] at hfreed
            exact hfreed
          · exact hclose

end follows

end Libms
