import Mathlib
import Libms.Pipe.HttpPipe

/-! # What the handler preserves

    A property of the owner's state that every callback preserves is
    preserved by the whole handler. The callbacks with the sizes are taken
    apart from the others: they are made for the headers of a response, and
    only the values in these headers matter. -/

namespace Libms

open Text

variable {σ : Type*}

/-- The call hands on a size. -/
def PipeCall.isSize : PipeCall → Bool
  | .onFilesize _ => true
  | .onContentSize _ _ => true
  | _ => false

namespace PipeOwner

variable (o : PipeOwner σ) (P : σ → Prop)

/-- A callback preserves a property of the owner's state. -/
def Preserves (c : PipeCall) : Prop := ∀ s p, P s → P (o.call s p c).1

/-- The callbacks with the sizes that a response names, made by a pipe that
    asked for a range, preserve a property of the owner's state. -/
structure PreservesSizes (reqPos : Nat) (reqLen : Int) (hm : HttpMessage) : Prop where
  filesize : ∀ range, mgGetHttpHeader hm "Content-Range" = some range →
    o.Preserves P (.onFilesize (httpParseContentRange range).2.2)
  contentSize : ∀ v, mgGetHttpHeader hm "Content-Length" = some v →
    ∀ s p, p.reqLen = reqLen → P s → P (o.call s p (.onContentSize reqPos (strtoll v))).1

end PipeOwner

section preserves

variable {o : PipeOwner σ} {P : σ → Prop} {x : σ × HttpPipe}

theorem deliver_preserves {c : PipeCall} (hc : o.Preserves P c) (hx : P x.1) :
    P (deliver o c x).1 := hc x.1 x.2 hx

section data

variable (hrecv : ∀ buf pos, o.Preserves P (.onRecv buf pos))

include hrecv

theorem deliverRecv_preserves (bytes : List UInt8) (hx : P x.1) : P (deliverRecv o bytes x).1 :=
  deliver_preserves (hrecv _ _) hx

theorem topUp_preserves (body : List UInt8) (hx : P x.1) : P (topUp o body x).1.1 := by
  simp only [topUp]
  split
  · split
    · exact deliverRecv_preserves hrecv _ hx
    · exact hx
  · exact hx

theorem passPieces_preserves (body : List UInt8) (hx : P x.1) : P (passPieces o body x).1 := by
  simp only [passPieces]
  split
  · split
    · exact deliverRecv_preserves hrecv _ hx
    · exact hx
  · exact hx

theorem flushEnd_preserves (hx : P x.1) : P (flushEnd o x).1 := by
  simp only [flushEnd]
  split
  · exact deliverRecv_preserves hrecv _ hx
  · exact hx

theorem chunkBody_preserves (body : List UInt8) (hx : P x.1) : P (chunkBody o body x).1 := by
  unfold chunkBody
  split
  · exact hx
  · split
    · exact hx
    · apply flushEnd_preserves hrecv
      apply passPieces_preserves hrecv
      exact topUp_preserves hrecv body hx

end data

theorem contentSizes_preserves {hm : HttpMessage}
    (hsizes : o.PreservesSizes P x.2.reqPos x.2.reqLen hm) (hx : P x.1) :
    P (contentSizes o hm x).1 := by
  simp only [contentSizes]
  split
  · exact hx
  · rename_i range hrange
    -- the file size is handed on first, and leaves the range of the pipe alone
    have hfirst : P (if 0 < (httpParseContentRange range).2.2 then
        deliver o (.onFilesize (httpParseContentRange range).2.2) x else x).1 := by
      split
      · exact deliver_preserves (hsizes.filesize range hrange) hx
      · exact hx
    have hpos : (if 0 < (httpParseContentRange range).2.2 then
        deliver o (.onFilesize (httpParseContentRange range).2.2) x else x).2.reqPos =
          x.2.reqPos := by
      split
      · exact deliver_reqPos ..
      · rfl
    have hlen : (if 0 < (httpParseContentRange range).2.2 then
        deliver o (.onFilesize (httpParseContentRange range).2.2) x else x).2.reqLen =
          x.2.reqLen := by
      split
      · exact deliver_reqLen ..
      · rfl
    revert hfirst hpos hlen
    generalize (if 0 < (httpParseContentRange range).2.2 then
        deliver o (.onFilesize (httpParseContentRange range).2.2) x else x) = y
    intro hfirst hpos hlen
    split
    · exact hfirst
    · rename_i v hv
      rw [hpos]
      exact hsizes.contentSize v hv y.1 _ hlen hfirst

variable (hother : ∀ c, c.isSize = false → o.Preserves P c)

include hother

theorem chunkHeader_preserves {hm : HttpMessage}
    (hsizes : x.2.onContentCalled = false → o.PreservesSizes P x.2.reqPos x.2.reqLen hm)
    (hx : P x.1) :
    P (chunkHeader o hm x).1 := by
  simp only [chunkHeader]
  split
  · exact hx
  · rename_i hfirst
    have hheader := deliver_preserves (hother (.onHeader hm) rfl) hx
    -- `on_header` comes first, and leaves the range of the pipe alone
    split
    · have hrange : o.PreservesSizes P (deliver o (.onHeader hm) x).2.reqPos
          (deliver o (.onHeader hm) x).2.reqLen hm := by
        rw [deliver_reqPos, deliver_reqLen]
        exact hsizes (by simpa using hfirst)
      apply contentSizes_preserves
      · exact hrange
      · exact hheader
    · exact hheader

theorem onHttpChunk_preserves {hm : HttpMessage}
    (hsizes : x.2.onContentCalled = false → o.PreservesSizes P x.2.reqPos x.2.reqLen hm)
    (hx : P x.1) : P (onHttpChunk o hm x).1 := by
  simp only [onHttpChunk]
  split
  · exact hx
  · have hheader := chunkHeader_preserves hother hsizes hx
    split
    · exact hheader
    · exact chunkBody_preserves (fun _ _ => hother _ rfl) hm.body hheader

theorem onHttpReply_preserves {hm : HttpMessage} (hx : P x.1) : P (onHttpReply o hm x).1 := by
  simp only [onHttpReply]
  split
  · split
    · exact deliver_preserves (hother _ rfl) hx
    · split
      · exact hx
      · split
        · exact deliver_preserves (hother _ rfl) hx
        · exact hx
  · split
    · exact deliver_preserves (hother _ rfl) hx
    · exact deliver_preserves (hother _ rfl) hx

/-- **Owner invariants.** What each callback preserves, every event of a
    connection preserves. -/
theorem pipeHandler_preserves (ev : PipeEvent)
    (hsizes : ∀ hm, ev = .httpChunk hm → x.2.closing = false → x.2.onContentCalled = false →
      o.PreservesSizes P x.2.reqPos x.2.reqLen hm) (hx : P x.1) :
    P (pipeHandler o ev x).1 := by
  unfold pipeHandler
  split
  · exact hx
  · split
    · unfold closingHandler
      split
      · cases ev <;> exact hx
      · exact hx
    · rename_i hopen
      split
      · cases ev <;> exact hx
      · cases ev with
        | connect status =>
          simp only [openHandler]
          split
          · exact deliver_preserves (hother _ rfl) hx
          · exact hx
        | httpChunk hm =>
          exact onHttpChunk_preserves hother (hsizes hm rfl (by simpa using hopen)) hx
        | httpReply hm => exact onHttpReply_preserves hother hx
        -- freeing the pipe is no callback
        | close =>
          have hclose : P (deliver o (.onClose 502) x).1 :=
            deliver_preserves (hother _ rfl) hx
          simp only [openHandler]
          split
          · exact hclose
          · exact hclose

end preserves

end Libms
