import Mathlib
import Libms.Pipe.Preserves
import Libms.Pipe.Reassembly

/-! # A pipe that carries one file

    A chunk that continues the file where the pipe stands is handed on at the
    offsets it has in the file, however the bytes are cut, and whatever the
    owner does in its callbacks.

    * `OnFile`: the bytes a pipe holds back are those at its position.
    * `TakesFile`: an owner's property that bytes of the file do not end.
    * `pipeHandler_onFile`: every event keeps both. -/

namespace Libms

open Text

variable {σ : Type*} {file : List UInt8}

/-- A start of what follows the first `k` bytes of a start. -/
theorem prefix_drop_add {α : Type*} {xs ys l : List α} {pos : Nat} (hxs : xs <+: l.drop pos)
    (hys : ys <+: l.drop (pos + xs.length)) : xs ++ ys <+: l.drop pos := by
  obtain ⟨rest, hrest⟩ := hxs
  rw [← List.drop_drop, ← hrest, List.drop_left] at hys
  rw [← hrest]
  exact (List.prefix_append_right_inj xs).mpr hys

namespace HttpPipe

/-- What the pipe holds back is less than a piece, and is the file from its
    position on. -/
structure OnFile (file : List UInt8) (p : HttpPipe) : Prop where
  room : p.buf.length < 16384
  carry : p.buf <+: file.drop p.pos

/-- The bytes are those that the pipe is to receive next. -/
def Continues (file : List UInt8) (p : HttpPipe) (body : List UInt8) : Prop :=
  body <+: file.drop (p.pos + p.buf.length)

end HttpPipe

/-- Neither data of the file nor the calls without data and sizes end the
    property. -/
structure PipeOwner.TakesFile (o : PipeOwner σ) (P : σ → Prop) (file : List UInt8) : Prop where
  recv : ∀ s p buf pos, buf <+: file.drop pos → P s → P (o.call s p (.onRecv buf pos)).1
  other : ∀ c, c.isRecv = false → c.isSize = false → o.Preserves P c

/-- The sizes that a response names do not end it, for a pipe that asked for
    the range. -/
def PipeOwner.HandsSizes (o : PipeOwner σ) (P : σ → Prop) (reqPos : Nat) (reqLen : Int)
    (hm : HttpMessage) : Prop :=
  ∀ y : σ × HttpPipe, y.2.reqPos = reqPos → y.2.reqLen = reqLen → P y.1 → P (contentSizes o hm y).1

theorem PipeOwner.PreservesSizes.hands {o : PipeOwner σ} {P : σ → Prop} {reqPos : Nat}
    {reqLen : Int} {hm : HttpMessage} (h : o.PreservesSizes P reqPos reqLen hm) :
    o.HandsSizes P reqPos reqLen hm := by
  intro y hpos hlen hy
  apply contentSizes_preserves _ hy
  rw [hpos, hlen]
  exact h

/-- An owner with the property, and a pipe on the file that asked for `reqLen`
    bytes. -/
structure Taken (P : σ → Prop) (file : List UInt8) (reqLen : Int) (x : σ × HttpPipe) : Prop where
  owner : P x.1
  pipe : x.2.OnFile file
  reqLen : x.2.reqLen = reqLen

section taken

variable {o : PipeOwner σ} {P : σ → Prop} {reqLen : Int} {x : σ × HttpPipe} {body : List UInt8}

/-- A pipe that has changed otherwise still stands where it did. -/
theorem HttpPipe.OnFile.of_stream {p p' : HttpPipe} (h : p.OnFile file) (hbuf : p'.buf = p.buf)
    (hpos : p'.pos = p.pos) : p'.OnFile file :=
  ⟨by rw [hbuf]; exact h.room, by rw [hbuf, hpos]; exact h.carry⟩

theorem Taken.setPipe {p : HttpPipe} (h : Taken P file reqLen x) (hbuf : p.buf = x.2.buf)
    (hpos : p.pos = x.2.pos) (hlen : p.reqLen = x.2.reqLen) : Taken P file reqLen (x.1, p) :=
  ⟨h.owner, h.pipe.of_stream hbuf hpos, hlen.trans h.reqLen⟩

/-- A callback that the owner's property survives. -/
theorem Taken.deliver {c : PipeCall} (h : Taken P file reqLen x)
    (hc : P (o.call x.1 x.2 c).1) : Taken P file reqLen (deliver o c x) :=
  ⟨hc, h.pipe.of_stream (deliver_buf o c x) (deliver_pos o c x),
    (deliver_reqLen o c x).trans h.reqLen⟩

/-! ## Data -/

/-- Bytes of the file are handed on, and the pipe moves behind them. -/
theorem deliverRecv_owner (ho : o.TakesFile P file) {bytes : List UInt8} (hx : P x.1)
    (hbytes : bytes <+: file.drop x.2.pos) : P (deliverRecv o bytes x).1 := by
  have hstart : x.2.pos + bytes.length - bytes.length = x.2.pos := Nat.add_sub_cancel ..
  apply ho.recv _ _ _ _ _ hx
  show bytes <+: file.drop (x.2.pos + bytes.length - bytes.length)
  rw [hstart]
  exact hbytes

/-- The pipe after `on_recv`, once it has dropped or set its carry. -/
theorem deliverRecv_taken (ho : o.TakesFile P file) {bytes buf : List UInt8}
    (h : Taken P file reqLen x) (hbytes : bytes <+: file.drop x.2.pos)
    (hroom : buf.length < 16384) (hbuf : buf <+: file.drop (x.2.pos + bytes.length)) :
    Taken P file reqLen
      ((deliverRecv o bytes x).1, (deliverRecv o bytes x).2.setBuf buf) := by
  refine ⟨deliverRecv_owner ho h.owner hbytes, ⟨hroom, ?_⟩, ?_⟩
  · rw [HttpPipe.setBuf_buf, HttpPipe.setBuf_pos, deliverRecv, deliver_pos]
    exact hbuf
  · show (deliverRecv o bytes x).2.reqLen = reqLen
    rw [deliverRecv, deliver_reqLen]
    exact h.reqLen

/-- Topping up takes a start of the chunk; if it leaves any, the carry is gone. -/
theorem topUp_taken (ho : o.TakesFile P file) (h : Taken P file reqLen x)
    (hbody : x.2.Continues file body) :
    Taken P file reqLen (topUp o body x).1 ∧
      (topUp o body x).1.2.Continues file (body.drop (topUp o body x).2) ∧
      (body.drop (topUp o body x).2 ≠ [] → (topUp o body x).1.2.buf = []) := by
  have hroom := h.pipe.room
  simp only [topUp, msPieceUnitSize]
  by_cases hshort : 0 < x.2.buf.length ∨ body.length < 16384
  · rw [if_pos hshort]
    generalize hsize : min (16384 - x.2.buf.length) body.length = dataSize
    have htaken : (x.2.buf ++ body.take dataSize).length = x.2.buf.length + dataSize := by
      rw [List.length_append, List.length_take]
      omega
    have hcarry : x.2.buf ++ body.take dataSize <+: file.drop x.2.pos :=
      prefix_drop_add h.pipe.carry ((List.take_prefix _ _).trans hbody)
    have hrest : body.drop dataSize <+: file.drop (x.2.pos + (x.2.buf.length + dataSize)) := by
      obtain ⟨rest, hrest⟩ := hbody
      rw [← Nat.add_assoc, ← List.drop_drop, ← hrest, List.drop_append_of_le_length (by omega)]
      exact List.prefix_append _ _
    by_cases hfull : x.2.buf.length + dataSize = 16384
    · -- the carry has become a piece
      rw [if_pos (by rw [HttpPipe.setBuf_buf, htaken]; exact hfull)]
      have hrecv := deliverRecv_owner (x := (x.1, x.2.setBuf (x.2.buf ++ body.take dataSize)))
        ho h.owner hcarry
      refine ⟨⟨hrecv, ⟨Nat.zero_lt_succ _, List.nil_prefix⟩, ?_⟩, ?_, fun _ => rfl⟩
      · show (deliverRecv o _ _).2.reqLen = reqLen
        rw [deliverRecv, deliver_reqLen]
        exact h.reqLen
      · unfold HttpPipe.Continues
        rw [HttpPipe.setBuf_buf, HttpPipe.setBuf_pos, deliverRecv, deliver_pos]
        show body.drop dataSize <+: file.drop (x.2.pos + _ + 0)
        rw [Nat.add_zero, htaken]
        exact hrest
    · -- the whole chunk fits
      have hall : body.drop dataSize = [] := List.drop_eq_nil_of_le (by omega)
      rw [if_neg (by rw [HttpPipe.setBuf_buf, htaken]; exact hfull)]
      refine ⟨⟨h.owner, ⟨?_, hcarry⟩, h.reqLen⟩, ?_, fun hne => absurd hall hne⟩
      · rw [HttpPipe.setBuf_buf, htaken]
        omega
      · unfold HttpPipe.Continues
        rw [hall]
        exact List.nil_prefix
  · have hnil : x.2.buf = [] := List.length_eq_zero_iff.mp (by omega)
    rw [if_neg hshort]
    exact ⟨h, hbody, fun _ => hnil⟩

/-- The whole pieces are handed on, and the rest is the new carry. -/
theorem passPieces_taken (ho : o.TakesFile P file) (h : Taken P file reqLen x)
    (hbody : x.2.Continues file body) (hempty : body ≠ [] → x.2.buf = []) :
    Taken P file reqLen (passPieces o body x) := by
  simp only [passPieces, msPieceUnitSize]
  by_cases hsome : 0 < body.length
  · rw [if_pos hsome]
    have hnil : x.2.buf = [] := hempty (List.ne_nil_of_length_pos hsome)
    have hhere : body <+: file.drop x.2.pos := by
      unfold HttpPipe.Continues at hbody
      rwa [hnil, List.length_nil, Nat.add_zero] at hbody
    generalize hrecv : body.length - body.length % 16384 = recv
    have hroom : (body.drop recv).length < 16384 := by
      rw [List.length_drop]
      omega
    have htake : (body.take recv).length = recv := by
      rw [List.length_take]
      omega
    have hrest : body.drop recv <+: file.drop (x.2.pos + recv) := by
      obtain ⟨rest, hrest⟩ := hhere
      rw [← List.drop_drop, ← hrest, List.drop_append_of_le_length (by omega)]
      exact List.prefix_append _ _
    by_cases hpieces : 0 < recv
    · rw [if_pos hpieces, deliverRecv_buf, hnil, List.nil_append]
      apply deliverRecv_taken ho h ((List.take_prefix _ _).trans hhere) hroom
      rw [htake]
      exact hrest
    · have hzero : recv = 0 := by omega
      rw [if_neg hpieces, hnil, List.nil_append]
      refine ⟨h.owner, ⟨hroom, ?_⟩, h.reqLen⟩
      rw [hzero, Nat.add_zero] at hrest
      rw [hzero]
      exact hrest
  · rw [if_neg hsome]
    exact h

theorem flushEnd_taken (ho : o.TakesFile P file) (h : Taken P file reqLen x) :
    Taken P file reqLen (flushEnd o x) := by
  simp only [flushEnd]
  split
  · exact deliverRecv_taken ho h h.pipe.carry (by decide) List.nil_prefix
  · exact h

/-- **One chunk** of the file. -/
theorem chunkBody_taken (ho : o.TakesFile P file) (h : Taken P file reqLen x)
    (hbody : x.2.Continues file body) : Taken P file reqLen (chunkBody o body x) := by
  unfold chunkBody
  split
  · exact h
  · split
    · exact h.setPipe rfl rfl rfl
    · obtain ⟨htop, hrest, hempty⟩ := topUp_taken ho h hbody
      exact flushEnd_taken ho (passPieces_taken ho htop hrest hempty)

/-! ## Events -/

/-- The sizes change neither what the pipe holds nor where it stands. -/
theorem contentSizes_stream (o : PipeOwner σ) (hm : HttpMessage) (x : σ × HttpPipe) :
    (contentSizes o hm x).2.buf = x.2.buf ∧ (contentSizes o hm x).2.pos = x.2.pos ∧
      (contentSizes o hm x).2.reqLen = x.2.reqLen := by
  have hfirst : ∀ n, ∀ y, y = (if 0 < n then deliver o (.onFilesize n) x else x) →
      y.2.buf = x.2.buf ∧ y.2.pos = x.2.pos ∧ y.2.reqLen = x.2.reqLen := by
    intro n y hy
    rw [hy]
    split
    · exact ⟨deliver_buf .., deliver_pos .., deliver_reqLen ..⟩
    · exact ⟨rfl, rfl, rfl⟩
  simp only [contentSizes]
  split
  · exact ⟨rfl, rfl, rfl⟩
  · rename_i range _
    have hsize := hfirst (httpParseContentRange range).2.2 _ rfl
    split
    · exact hsize
    · simp only [deliver_buf, deliver_pos, deliver_reqLen]
      exact hsize

theorem contentSizes_taken {hm : HttpMessage} (h : Taken P file reqLen x)
    (hsizes : o.HandsSizes P x.2.reqPos reqLen hm) :
    Taken P file reqLen (contentSizes o hm x) := by
  have howner : P (contentSizes o hm x).1 := hsizes x rfl h.reqLen h.owner
  obtain ⟨hbuf, hpos, hlen⟩ := contentSizes_stream o hm x
  exact ⟨howner, h.pipe.of_stream hbuf hpos, hlen.trans h.reqLen⟩

theorem chunkHeader_taken {hm : HttpMessage} (ho : o.TakesFile P file)
    (h : Taken P file reqLen x)
    (hsizes : x.2.onContentCalled = false → o.HandsSizes P x.2.reqPos reqLen hm) :
    Taken P file reqLen (chunkHeader o hm x) ∧
      (chunkHeader o hm x).2.pos = x.2.pos ∧ (chunkHeader o hm x).2.buf = x.2.buf := by
  simp only [chunkHeader]
  split
  · exact ⟨h, rfl, rfl⟩
  · rename_i hfirst
    have hheader : Taken P file reqLen (deliver o (.onHeader hm) x) :=
      h.deliver (ho.other _ rfl rfl _ _ h.owner)
    have hcalled : Taken P file reqLen ((deliver o (.onHeader hm) x).1,
        { (deliver o (.onHeader hm) x).2 with onContentCalled := true }) :=
      hheader.setPipe rfl rfl rfl
    split
    · obtain ⟨hbuf, hpos, -⟩ := contentSizes_stream o hm ((deliver o (.onHeader hm) x).1,
        { (deliver o (.onHeader hm) x).2 with onContentCalled := true })
      refine ⟨contentSizes_taken hcalled ?_, hpos.trans (deliver_pos ..),
        hbuf.trans (deliver_buf ..)⟩
      show o.HandsSizes P (deliver o (.onHeader hm) x).2.reqPos reqLen hm
      rw [deliver_reqPos]
      exact hsizes (by simpa using hfirst)
    · exact ⟨hcalled, deliver_pos .., deliver_buf ..⟩

theorem onHttpChunk_taken {hm : HttpMessage} (ho : o.TakesFile P file)
    (h : Taken P file reqLen x)
    (hchunk : hm.respCode = 200 ∨ hm.respCode = 206 → x.2.Continues file hm.body ∧
      (x.2.onContentCalled = false → o.HandsSizes P x.2.reqPos reqLen hm)) :
    Taken P file reqLen (onHttpChunk o hm x) := by
  simp only [onHttpChunk]
  split
  · exact h
  · rename_i hcode
    obtain ⟨hbody, hsizes⟩ := hchunk (by omega)
    obtain ⟨hheader, hpos, hbuf⟩ := chunkHeader_taken ho h hsizes
    split
    · exact hheader
    · apply chunkBody_taken ho hheader
      unfold HttpPipe.Continues
      rw [hpos, hbuf]
      exact hbody

theorem onHttpReply_taken {hm : HttpMessage} (ho : o.TakesFile P file)
    (h : Taken P file reqLen x) : Taken P file reqLen (onHttpReply o hm x) := by
  have hmoved : Taken P file reqLen (x.1, { x.2 with redirectTime := x.2.redirectTime + 1 }) :=
    h.setPipe rfl rfl rfl
  simp only [onHttpReply]
  split
  · split
    · exact hmoved.deliver (ho.other _ rfl rfl _ _ h.owner)
    · split
      · exact h.setPipe rfl rfl rfl
      · rename_i v _
        have hurl : Taken P file reqLen
            (x.1, { x.2 with redirectTime := x.2.redirectTime + 1, url := v }) :=
          h.setPipe rfl rfl rfl
        split
        · exact (hurl.deliver (ho.other (.onRedirect v) rfl rfl _ _ h.owner)).setPipe rfl rfl rfl
        · exact hurl.setPipe rfl rfl rfl
  · split
    · exact h.deliver (ho.other _ rfl rfl _ _ h.owner)
    · exact h.deliver (ho.other _ rfl rfl _ _ h.owner)

/-- **Events.** If the chunks continue the file where the pipe stands, every
    event of the connection keeps the owner's property, and the pipe on the
    file. -/
theorem pipeHandler_onFile (ev : PipeEvent) (ho : o.TakesFile P file)
    (h : Taken P file reqLen x)
    (hchunk : ∀ hm, ev = .httpChunk hm → x.2.closing = false →
      hm.respCode = 200 ∨ hm.respCode = 206 → x.2.Continues file hm.body ∧
        (x.2.onContentCalled = false → o.HandsSizes P x.2.reqPos reqLen hm)) :
    Taken P file reqLen (pipeHandler o ev x) := by
  unfold pipeHandler
  split
  · exact h
  · split
    · unfold closingHandler
      split
      · cases ev <;> exact h.setPipe rfl rfl rfl
      · exact h.setPipe rfl rfl rfl
    · rename_i hopen
      split
      · cases ev <;> exact h.setPipe rfl rfl rfl
      · cases ev with
        | connect status =>
          simp only [openHandler]
          split
          · exact h.deliver (ho.other _ rfl rfl _ _ h.owner)
          · exact h
        | httpChunk hm => exact onHttpChunk_taken ho h (hchunk hm rfl (by simpa using hopen))
        | httpReply hm => exact onHttpReply_taken ho h
        | close =>
          have hclose : Taken P file reqLen (deliver o (.onClose 502) x) :=
            h.deliver (ho.other _ rfl rfl _ _ h.owner)
          simp only [openHandler]
          split
          · exact hclose.setPipe rfl rfl rfl
          · exact hclose

end taken

end Libms
