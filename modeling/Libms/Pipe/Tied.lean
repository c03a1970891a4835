import Mathlib
import Libms.Pipe.HttpPipe

/-! # The owner and the pipe together

    `Preserves` follows the owner through an event. Some properties tie the
    owner to the pipe: whether the pipe is closing must agree with what the
    owner has noted. Between its callbacks the handler never clears or sets
    `closing`, so it is enough that each callback keeps the tie.

    * `Ties`: every callback keeps it.
    * `pipeHandler_tied`: so does every event. -/

namespace Libms

variable {σ : Type*}

/-- Each callback keeps a property of the owner and the closing of the pipe;
    the pipe is closing afterwards if it was, or if the owner has closed it. -/
def PipeOwner.Ties (o : PipeOwner σ) (R : σ → Bool → Prop) : Prop :=
  ∀ s p c, R s p.closing → R (o.call s p c).1 ((o.call s p c).2 || p.closing)

/-- The property holds of an owner and its pipe. -/
def Tied (R : σ → Bool → Prop) (x : σ × HttpPipe) : Prop := R x.1 x.2.closing

section tied

variable {o : PipeOwner σ} {R : σ → Bool → Prop} {x : σ × HttpPipe}

/-- The pipe changes, but not its closing. -/
theorem Tied.setPipe (h : Tied R x) {p : HttpPipe} (hp : p.closing = x.2.closing) :
    Tied R (x.1, p) := by
  unfold Tied
  rw [hp]
  exact h

theorem Tied.deliver (h : Tied R x) (ho : o.Ties R) (c : PipeCall) : Tied R (deliver o c x) := by
  have hcall := ho x.1 x.2 c h
  unfold Tied Libms.deliver
  generalize o.call x.1 x.2 c = called at hcall
  obtain ⟨s, closed⟩ := called
  cases closed with
  | true => exact hcall
  | false => exact hcall

theorem Tied.deliverRecv (h : Tied R x) (ho : o.Ties R) (bytes : List UInt8) :
    Tied R (deliverRecv o bytes x) :=
  Tied.deliver (x := (x.1, { x.2 with pos := x.2.pos + bytes.length })) h ho _

/-! ## A chunk -/

theorem contentSizes_tied (h : Tied R x) (ho : o.Ties R) (hm : HttpMessage) :
    Tied R (contentSizes o hm x) := by
  have hfirst : ∀ n, Tied R (if 0 < n then deliver o (.onFilesize n) x else x) := by
    intro n
    split
    · exact h.deliver ho _
    · exact h
  simp only [contentSizes]
  split
  · exact h.setPipe rfl
  · split
    · exact (hfirst _).setPipe rfl
    · refine Tied.deliver ?_ ho _
      exact (hfirst _).setPipe rfl

theorem chunkHeader_tied (h : Tied R x) (ho : o.Ties R) (hm : HttpMessage) :
    Tied R (chunkHeader o hm x) := by
  have hcalled : Tied R ((deliver o (.onHeader hm) x).1,
      { (deliver o (.onHeader hm) x).2 with onContentCalled := true }) :=
    (h.deliver ho (.onHeader hm)).setPipe rfl
  simp only [chunkHeader]
  split
  · exact h
  · split
    · exact contentSizes_tied hcalled ho hm
    · exact hcalled

theorem topUp_tied (h : Tied R x) (ho : o.Ties R) (body : List UInt8) :
    Tied R (topUp o body x).1 := by
  have hfilled : ∀ buf, Tied R (x.1, x.2.setBuf buf) := fun _ => h.setPipe rfl
  simp only [topUp]
  split
  · split
    · exact ((hfilled _).deliverRecv ho _).setPipe rfl
    · exact hfilled _
  · exact h

theorem passPieces_tied (h : Tied R x) (ho : o.Ties R) (body : List UInt8) :
    Tied R (passPieces o body x) := by
  simp only [passPieces]
  split
  · split
    · exact (h.deliverRecv ho _).setPipe rfl
    · exact h.setPipe rfl
  · exact h

theorem flushEnd_tied (h : Tied R x) (ho : o.Ties R) : Tied R (flushEnd o x) := by
  simp only [flushEnd]
  split
  · exact (h.deliverRecv ho _).setPipe rfl
  · exact h

theorem chunkBody_tied (h : Tied R x) (ho : o.Ties R) (body : List UInt8) :
    Tied R (chunkBody o body x) := by
  unfold chunkBody
  split
  · exact h
  · split
    · exact h.setPipe rfl
    · exact flushEnd_tied (passPieces_tied (topUp_tied h ho body) ho _) ho

theorem onHttpChunk_tied (h : Tied R x) (ho : o.Ties R) (hm : HttpMessage) :
    Tied R (onHttpChunk o hm x) := by
  have hheader := chunkHeader_tied h ho hm
  simp only [onHttpChunk]
  split
  · exact h
  · split
    · exact hheader
    · exact chunkBody_tied hheader ho hm.body

/-! ## Events -/

theorem onHttpReply_tied (h : Tied R x) (ho : o.Ties R) (hm : HttpMessage) :
    Tied R (onHttpReply o hm x) := by
  have hmoved : Tied R (x.1, { x.2 with redirectTime := x.2.redirectTime + 1 }) := h.setPipe rfl
  simp only [onHttpReply]
  split
  · split
    · exact hmoved.deliver ho _
    · split
      · exact h.setPipe rfl
      · rename_i v _
        have hurl : Tied R
            (x.1, { x.2 with redirectTime := x.2.redirectTime + 1, url := v }) := h.setPipe rfl
        split
        · exact (hurl.deliver ho (.onRedirect v)).setPipe rfl
        · exact hurl.setPipe rfl
  · split
    · exact h.deliver ho _
    · exact h.deliver ho _

/-- **Events.** What every callback keeps of the owner and the closing of the
    pipe, an event of the connection keeps. -/
theorem pipeHandler_tied (h : Tied R x) (ho : o.Ties R) (ev : PipeEvent) :
    Tied R (pipeHandler o ev x) := by
  unfold pipeHandler
  split
  · exact h
  · split
    · unfold closingHandler
      split
      · cases ev <;> exact h.setPipe rfl
      · exact h.setPipe rfl
    · split
      · cases ev <;> exact h.setPipe rfl
      · cases ev with
        | connect status =>
          simp only [openHandler]
          split
          · exact h.deliver ho _
          · exact h
        | httpChunk hm => exact onHttpChunk_tied h ho hm
        | httpReply hm => exact onHttpReply_tied h ho hm
        | close =>
          simp only [openHandler]
          split
          · exact (h.deliver ho (.onClose 502)).setPipe rfl
          · exact h.deliver ho (.onClose 502)

/-! ## A closing pipe -/

/-- A closing pipe makes no callback, and stays closing. -/
theorem pipeHandler_of_closing (o : PipeOwner σ) (ev : PipeEvent) (hclosing : x.2.closing = true) :
    (pipeHandler o ev x).1 = x.1 ∧ (pipeHandler o ev x).2.closing = true := by
  unfold pipeHandler
  split
  · exact ⟨rfl, hclosing⟩
  · unfold closingHandler
    split
    · cases ev <;> exact ⟨rfl, hclosing⟩
    · exact ⟨rfl, hclosing⟩

/-- Nor does it in any number of events. -/
theorem pipeHandlers_of_closing (o : PipeOwner σ) (evs : List PipeEvent)
    (hclosing : x.2.closing = true) :
    (evs.foldl (fun x ev => pipeHandler o ev x) x).1 = x.1 := by
  induction evs generalizing x with
  | nil => rfl
  | cons ev evs ih =>
    obtain ⟨howner, hstays⟩ := pipeHandler_of_closing o ev hclosing
    exact (ih hstays).trans howner

end tied

end Libms
