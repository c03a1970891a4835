import Mathlib
import Libms.Session.OneResponse

/-! # What a client gets

    A session for a request of a file, over all its events: what it hands to
    `mg_send` is the file from the start of the request on, and when it
    closes itself, that is the whole range. The exceptions are an error reply
    and a failed assert.

    * `rangeOf`: the bytes that a request asks for.
    * `Delivers`: the invariant, with its step lemma (`Delivers.step`) and the
      state after the request (`openSession_delivers`). -/

namespace Libms

/-- The bytes from `r1` on: `r2` of them, or all for an open end. -/
def rangeOf (file : List UInt8) (r1 r2 : Int) : List UInt8 :=
  (file.drop r1.toNat).take (if 0 < r2 then r2.toNat else file.length)

namespace Client

/-- The stream is in order, and a session that has closed itself is complete. -/
structure Answered (limit : Nat) (file : List UInt8) (r1 r2 : Int) (c : Client) : Prop where
  streams : Streams limit file r1 r2 c
  ended : c.live = false → c.log.appended = rangeOf file r1 r2

/-- Unless an assert has failed or the request was refused, the client gets
    what it has asked for. -/
def Delivers (limit : Nat) (file : List UInt8) (r1 r2 : Int) (c : Client) : Prop :=
  c.fault = none → 0 < c.log.errorBytes ∨ Answered limit file r1 r2 c

section delivers

variable {limit n : Nat} {file : List UInt8} {r1 r2 : Int} {v : TaskView} {c c' : Client}

/-! ## The end of a session -/

/-- The bytes counted are all of the range when none is left. -/
theorem Steady.finished (h : Steady limit file r1 r2 c)
    (hopen : c.connection.sendAndClose = false) (hn : n ≤ c.connection.sendMbuf.length)
    (hleft : c.session.len ≠ 0) (hlen : (c.counted n).session.len = 0)
    (hsending : (c.counted n).session.sending = 0) :
    c.log.appended = rangeOf file r1 r2 := by
  obtain ⟨head, k, hcount, -, -, hk⟩ := h.sound.counts hopen hn
  have htally := h.sound.tally
  have hreqPos := h.reqPos
  have hreqLen := h.reqLen
  have hinside := h.inside
  unfold Client.counted at hlen hsending
  rw [hcount] at hlen hsending
  simp only [countBody] at hlen hsending
  have hprefix := h.inOrder
  have hfits := hprefix.length_le
  rw [List.length_drop] at hfits
  -- what was appended ends where the range or the file ends
  have hend : (0 < r2 → (c.log.appended.length : Int) = r2) ∧
      (¬ 0 < r2 → (c.log.appended.length : Int) = file.length - r1) := by
    rcases lt_trichotomy c.session.reqLen 0 with hneg | hzero | hpos
    · -- a refused range has sent nothing, so its length has not changed
      obtain ⟨-, hnone, -⟩ := h.sound.refused hneg
      split at hlen <;> omega
    · rcases h.sound.openEnded hzero with hfile | ⟨hnone, -⟩
      · split at hlen <;> omega
      · exact absurd hnone hleft
    · obtain ⟨hrange, hlenpos⟩ := h.sound.ranged hpos
      rw [if_pos hlenpos] at hlen
      omega
  unfold rangeOf
  rw [List.prefix_iff_eq_take.mp hprefix]
  split
  · rename_i hpos
    have hexact := hend.1 hpos
    rw [show c.log.appended.length = r2.toNat by omega]
  · rename_i hzero
    have hexact := hend.2 hzero
    -- both reach the end of the file
    rw [List.take_of_length_le (by rw [List.length_drop]; omega),
      List.take_of_length_le (by rw [List.length_drop]; omega)]

/-! ## Error replies -/

theorem Transfer.errorBytes (h : Transfer limit v c c') :
    c'.log.errorBytes = c.log.errorBytes := by
  cases hsent : c.connection.headerSend with
  | true =>
    obtain ⟨x, hx⟩ := h.adds hsent
    exact hx.errorBytes
  | false =>
    rcases h.begins hsent with (⟨rfl, -⟩ | ⟨f, rfl⟩) | ⟨x, -, -, -, -, herror⟩
    · rfl
    · rfl
    · exact herror

theorem Closing.errorBytes_le (h : Closing v c c') : c.log.errorBytes ≤ c'.log.errorBytes := by
  cases h with
  | none => exact Nat.le_refl _
  | close => exact Nat.le_refl _
  | reply => exact Nat.le_add_right _ _

/-- What is out of an error reply stays out. -/
theorem Moved.errorBytes_le {e : SessionEvent} (h : Moved limit c e c') (hfault : c.fault = none) :
    c.log.errorBytes ≤ c'.log.errorBytes := by
  cases h with
  | idle => exact Nat.le_refl _
  | recv v =>
    have ht := @tryTransfer_transfer limit v c hfault
    exact ht.errorBytes ▸ (closeIfNeed_closing (v := v)).errorBytes_le
  | contentSize v =>
    unfold onContentSizeFrom
    split
    · exact Nat.le_refl _
    · split
      · exact Nat.le_refl _
      · exact Nat.le_refl _
  | error v => exact closeIfNeed_closing.errorBytes_le
  | drain => exact Nat.le_refl _
  | close => exact Nat.le_refl _
  | sent n v _ _ _ hs =>
    cases hs with
    | ignored => exact Nat.le_refl _
    | head => exact Nat.le_refl _
    | drained => exact Nat.le_refl _
    | finish => exact Nat.le_refl _
    | transfer _ _ _ ht hc => exact ht.errorBytes ▸ hc.errorBytes_le

/-- An error before the head is the answer, and one behind it ends the answer. -/
theorem Answered.closing (h : Answered limit file r1 r2 c) (hc : Closing v c c') :
    0 < c'.log.errorBytes ∨ Answered limit file r1 r2 c' := by
  obtain ⟨happended, -, -, hlive⟩ := closing_frame hc
  cases hsent : c.connection.headerSend with
  | true =>
    right
    refine ⟨h.streams.closing hsent hc, fun hover => ?_⟩
    rw [happended]
    exact h.ended (hlive ▸ hover)
  | false =>
    cases hc with
    | none => exact Or.inr h
    | close hsent' =>
      rw [hsent] at hsent'
      cases hsent'
    | reply =>
      left
      exact Nat.add_pos_right _ (errorText_length_pos v.errno)

/-! ## Steps -/

/-- Once a session is closed only its bytes are left on the connection. -/
theorem Delivers.of_over (h : Delivers limit file r1 r2 c) (hlive : c.live = false)
    (hlog : c'.log = c.log) (hlive' : c'.live = false) (hfault : c'.fault = c.fault) :
    Delivers limit file r1 r2 c' := by
  intro hnone
  rcases h (hfault ▸ hnone) with herror | hanswers
  · left
    rw [hlog]
    exact herror
  · right
    refine ⟨⟨?_, Or.inl (Or.inr hlive')⟩, fun _ => ?_⟩
    · rw [hlog]
      exact hanswers.streams.inOrder
    · rw [hlog]
      exact hanswers.ended hlive

/-- A transfer of a session that is in order. -/
theorem Answered.transfer (h : Answered limit file r1 r2 c) (hv : v.Serves file)
    (hlimit : limit ≤ 4096) (hfile : file.length < 2 ^ 63) (hfault : c.fault = none)
    (hlive : c.live = true) : Answered limit file r1 r2 (c.tryTransfer limit v) := by
  have ht := @tryTransfer_transfer limit v c hfault
  have hstep := streamStep_streams h.streams (e := .transfer v) hv hlimit hfile
  have hgoing : ¬ (c.fault.isSome ∨ c.live = false) := by
    rw [hfault, hlive]
    decide
  unfold streamStep at hstep
  rw [if_neg hgoing] at hstep
  exact ⟨hstep, fun hover => by rw [ht.sameReader.live, hlive] at hover; cases hover⟩

/-- **Step lemma.** Any event but a close from outside. -/
theorem Delivers.step (h : Delivers limit file r1 r2 c) (hlimit : limit ≤ 4096)
    (hfile : file.length < 2 ^ 63) {e : SessionEvent} (he : e ≠ .close)
    (hv : ∀ v ∈ e.view?, v.Serves file) : Delivers limit file r1 r2 (c.step limit e.client) := by
  cases hfault : c.fault with
  | some f =>
    -- a failed assert is the end
    unfold Client.step
    rw [if_pos (by rw [hfault]; rfl)]
    exact h
  | none =>
    have hm := @step_moved limit c e hfault
    generalize c.step limit e.client = c' at hm
    intro hnone
    rcases h hfault with herror | hanswers
    · exact Or.inl (Nat.lt_of_lt_of_le herror (hm.errorBytes_le hfault))
    · cases hm with
      | idle => exact Or.inr hanswers
      | recv v hlive =>
        exact (hanswers.transfer (hv v rfl) hlimit hfile hfault hlive).closing closeIfNeed_closing
      | contentSize v hlive =>
        have hstep := streamStep_streams hanswers.streams (e := .contentSize v) (hv v rfl) hlimit
          hfile
        have hgoing : ¬ (c.fault.isSome ∨ c.live = false) := by
          rw [hfault, hlive]
          decide
        unfold streamStep at hstep
        rw [if_neg hgoing] at hstep
        have hlive' : (c.onContentSizeFrom v).live = true := by
          unfold onContentSizeFrom
          split
          · exact hlive
          · split
            · exact hlive
            · exact hlive
        exact Or.inr ⟨hstep, fun hover => by rw [hlive'] at hover; cases hover⟩
      | error v hlive => exact hanswers.closing closeIfNeed_closing
      | close => exact absurd rfl he
      | drain n v _ _ hover =>
        exact Delivers.of_over (fun _ => Or.inr hanswers) hover rfl hover rfl hnone
      | sent n v hpos hn hlive hs =>
        have hgoing : ¬ (c.fault.isSome ∨ c.live = false) := by
          rw [hfault, hlive]
          decide
        obtain ⟨-, -, hsteady | hshort⟩ := hanswers.streams.going hgoing
        · have hstreams := hsteady.sent (hv v rfl) hlimit hfile hpos hn hs
          cases hs with
          | ignored => exact Or.inr ⟨hstreams, fun hover => hanswers.ended hover⟩
          | head => exact Or.inr ⟨hstreams, fun hover => hanswers.ended hover⟩
          | drained => cases hnone
          | finish hopen hleft hlen hsending =>
            exact Or.inr ⟨hstreams, fun _ => hsteady.finished hopen hn hleft hlen hsending⟩
          | transfer _ _ _ ht hc =>
            refine Or.inr ⟨hstreams, fun hover => ?_⟩
            have hlive' : (c.counted n).live = true := hlive
            rw [(closing_frame hc).2.2.2, ht.sameReader.live, hlive'] at hover
            cases hover
        · -- the next send of a short state fails an assert
          obtain ⟨hf | hf, -⟩ := hshort.sent hn hs
          · rw [hf] at hnone
            cases hnone
          · rw [hf] at hnone
            cases hnone

/-! ## The request -/

/-- A session that was opened inside the file, after its first transfer. -/
theorem openSession_delivers {task : Nat} {method : Method} {rangeHdr : Option (List Char)}
    (hv : v.Serves file) (hlimit : limit ≤ 4096) (hfile : file.length < 2 ^ 63)
    (hopen : c.connection.sendAndClose = false)
    (hrange : requestedRange rangeHdr = some (r1, r2)) (hr1 : 0 ≤ r1) :
    Delivers limit file r1 r2
      (((c.openSession task method r1 r2 v).tryTransfer limit v).closeIfNeed v) := by
  have ht := @tryTransfer_transfer limit v (c.openSession task method r1 r2 v) rfl
  have hanswers : Answered limit file r1 r2
      ((c.openSession task method r1 r2 v).tryTransfer limit v) := by
    refine ⟨request_streams hv hlimit hfile hopen hrange hr1, fun hover => ?_⟩
    rw [ht.sameReader.live] at hover
    cases hover
  exact fun _ => hanswers.closing closeIfNeed_closing

/-- What a client that was served without an error has been given. -/
theorem Delivers.given (h : Delivers limit file r1 r2 c) (hfault : c.fault = none)
    (herror : c.log.errorBytes = 0) :
    c.log.appended <+: file.drop r1.toNat ∧
      (c.live = false → c.log.appended = rangeOf file r1 r2) := by
  rcases h hfault with hrefused | hanswers
  · omega
  · exact ⟨hanswers.streams.inOrder, hanswers.ended⟩

end delivers

end Client

end Libms
