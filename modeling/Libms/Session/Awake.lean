import Mathlib
import Libms.Session.Delivers
import Libms.Storage.Intact

/-! # What a session waits for

    A session moves on when it is called: at its request, when data comes
    and when bytes have left. If its send buffer is empty after that, then
    the next byte that it needs is not there.

    * `TaskView.Shows`: a task that answers from a map of cached bytes.
    * `Waiting`: an open session with an empty send buffer waits for a byte
      that is not in the map.
    * `Steady.transfer_waiting`: a transfer leaves the session waiting.
    * `Delivers.recv_waiting`, `Delivers.sent_waiting`: the events. -/

namespace Libms

open CInt PartialMap

theorem Platform.sendBufLimit_pos (p : Platform) : 0 < p.sendBufLimit := by
  cases p <;> decide

/-- The task has the bytes of the map `m`, of a file of `F` bytes: a read that
    gives nothing has met a hole at once. -/
structure TaskView.Shows (m : Nat → Option UInt8) (F : Nat) (v : TaskView) : Prop where
  read : ∀ pos n, 0 < n → v.read pos n = some [] → m pos.toNat = none
  unsized : v.filesize = 0 → ∀ i, m i = none
  inside : ∀ i, F ≤ i → m i = none

/-- A storage shows what it has. -/
theorem TaskView.ofStorage_shows {file : List UInt8} {st : MemStorage} {contentType : List Char}
    {errno : Int} (h : st.Intact file) :
    (TaskView.ofStorage st contentType errno).Shows st.byteAt file.length where
  read pos n hn hread := by
    obtain ⟨cells, hcells, hnil⟩ := Option.map_eq_some_iff.mp hread
    rw [List.map_eq_nil_iff] at hnil
    rw [hnil] at hcells
    by_cases hassert : 0 ≤ pos ∧ (st.estimateSize = 0 ∨ pos + n ≤ st.estimateSize)
    · by_cases hzero : st.estimateSize = 0
      · exact MemStorage.byteAt_of_not_cached (MemStorage.not_cached_of_unsized hzero _)
      · have hspec := @MemStorage.storageRead_spec st pos.toNat n (h.estimate ▸ h.filled)
          (by omega) (by omega)
        rw [Int.toNat_of_nonneg hassert.1, hcells] at hspec
        have hrun := (Option.some.inj hspec).symm
        rw [List.map_eq_nil_iff] at hrun
        -- the run ends where it begins
        cases hbyte : st.byteAt pos.toNat with
        | none => rfl
        | some byte =>
          obtain ⟨k, rfl⟩ := Nat.exists_eq_succ_of_ne_zero (Nat.pos_iff_ne_zero.mp hn)
          simp only [readRun, hbyte] at hrun
          cases hrun
    · unfold MemStorage.storageRead at hcells
      rw [if_neg hassert] at hcells
      cases hcells
  unsized hzero i :=
    MemStorage.byteAt_of_not_cached (MemStorage.not_cached_of_unsized (h.estimate.trans hzero) _)
  inside i hi := by
    cases hbyte : st.byteAt i with
    | none => rfl
    | some byte =>
      have hfile := h.bytes i byte hbyte
      rw [List.getElem?_eq_none hi] at hfile
      cases hfile

namespace Client

/-- An open session with nothing in the send buffer waits for a byte that is
    not there. -/
def Waiting (m : Nat → Option UInt8) (c : Client) : Prop :=
  c.fault = none → c.live = true → c.log.errorBytes = 0 → c.connection.sendAndClose = false →
    c.connection.sendMbuf = [] → m (nextOffset c.session).toNat = none

/-- An open-ended session knows its length once the size is known. -/
def Sized (F : Nat) (filesize : Int) (c : Client) : Prop :=
  c.fault = none → c.live = true → c.log.errorBytes = 0 → c.session.reqLen = 0 →
    c.session.len = 0 → filesize = 0 ∨ c.session.pos = F

section waiting

variable {limit n : Nat} {file : List UInt8} {r1 r2 : Int} {v : TaskView} {c c' : Client}
  {m : Nat → Option UInt8} {filesize : Int}

theorem Waiting.of_closing (h : c.connection.sendAndClose = true) : c.Waiting m := by
  intro _ _ _ hopen
  rw [h] at hopen
  cases hopen

theorem Waiting.of_fault {f : Fault} (h : c.fault = some f) : c.Waiting m := by
  intro hnone
  rw [h] at hnone
  cases hnone

theorem Waiting.of_over (h : c.live = false) : c.Waiting m := by
  intro _ hlive
  rw [h] at hlive
  cases hlive

/-! ## A transfer -/

/-- Without a length to send an open session is at the end of the file, or
    the size is not known. -/
theorem Steady.nothing_left (h : Steady limit file r1 r2 c) (hfault : c.fault = none)
    (hlive : c.live = true) (herror : c.log.errorBytes = 0)
    (hsized : c.Sized file.length filesize) (hlen : c.session.len = 0) :
    filesize = 0 ∨ c.session.pos = file.length := by
  rcases lt_trichotomy c.session.reqLen 0 with hneg | hzero | hpos
  · obtain ⟨-, -, -, hrefused⟩ := h.sound.refused hneg
    omega
  · exact hsized hfault hlive herror hzero hlen
  · have := (h.sound.ranged hpos).2
    omega

/-- Inside the file a session that is ready asks for something. -/
theorem Steady.wanted_pos (h : Steady limit file r1 r2 c) (hlimit : 0 < limit)
    (hfile : file.length < 2 ^ 63) (hsize : v.filesize = file.length)
    (hlen : c.session.len ≠ 0) (hbuf : c.session.buf = []) (hsending : c.session.sending = 0)
    (hinside : nextOffset c.session < file.length) :
    0 < wanted limit v c.session (nextOffset c.session) := by
  have hnext : nextOffset c.session = c.session.pos := by
    unfold nextOffset
    rw [hbuf, hsending, List.length_nil]
    omega
  have hforward := h.sound.forward
  have hreqPos := h.reqPos
  have hstart := h.inside
  have hwords := h.sound.words
  -- what is left of the range is not zero as a `size_t`
  have hleft : 0 < sizeT (c.session.len - c.session.sending) := by
    rw [hsending, Int.sub_zero]
    rcases lt_trichotomy c.session.reqLen 0 with hneg | hzero | hpos
    · obtain ⟨-, -, -, hend⟩ := h.sound.refused hneg
      by_cases hless : c.session.len < 0
      · have hwrapped := sizeT_of_neg (by omega) hless
        omega
      · have hsame := sizeT_of_nonneg (by omega : 0 ≤ c.session.len) (by omega)
        omega
    · have hend : c.session.pos + c.session.len = file.length := by
        rcases h.sound.openEnded hzero with hend | ⟨hnone, -⟩
        · exact hend
        · exact absurd hnone hlen
      have hsame := sizeT_of_nonneg (by omega : 0 ≤ c.session.len) (by omega)
      omega
    · obtain ⟨hend, hlenpos⟩ := h.sound.ranged hpos
      have hsame := sizeT_of_nonneg (by omega : 0 ≤ c.session.len) (by omega)
      omega
  unfold wanted
  simp only [hbuf, List.length_nil, Nat.sub_zero, hsize]
  have hspace : 0 < (if sizeT (c.session.len - c.session.sending) < limit then
      sizeT (c.session.len - c.session.sending) else limit) := by
    split
    · exact hleft
    · exact hlimit
  generalize (if sizeT (c.session.len - c.session.sending) < limit then
      sizeT (c.session.len - c.session.sending) else limit) = space at hspace ⊢
  split
  · -- up to the end of the file
    have hsame := sizeT_of_nonneg (by omega : 0 ≤ (file.length : Int) - nextOffset c.session)
      (by omega)
    omega
  · exact hspace

/-- With nothing in flight all that is buffered is handed to `mg_send`. -/
theorem sendBody_nonempty (hbuf : c.session.buf ≠ []) (hsmall : c.session.buf.length < 2 ^ 31)
    (hhead : c.session.headerSending = 0) (hbound : c.session.buf.length ≤ limit) :
    (c.sendBody limit).connection.sendMbuf ≠ [] := by
  have hlen : sendLen limit c.session = c.session.buf.length := by
    unfold sendLen
    rw [hhead, if_neg (by omega)]
  have hsend : toInt32 (sizeT (c.session.buf.length : Int)) = c.session.buf.length := by
    rw [sizeT_natCast (by omega), toInt32_of_range (by omega) (by omega)]
  have hnc : (c.connection.mgSend c.session.buf (c.session.buf.length : Int)).sendMbuf =
      c.connection.sendMbuf ++ c.session.buf := by
    unfold Connection.mgSend
    rw [if_neg (by omega), Int.toNat_natCast, List.take_length]
  have hsame : (c.sendBody limit).connection.sendMbuf = c.connection.sendMbuf ++ c.session.buf := by
    unfold sendBody
    simp only [hlen, hsend]
    split
    · exact hnc
    · exact hnc
  rw [hsame]
  exact List.append_ne_nil_of_right_ne_nil _ hbuf

/-- **A transfer** of a steady session leaves it waiting, if it leaves nothing
    in the send buffer. -/
theorem Steady.transfer_waiting (h : Steady limit file r1 r2 c) (hv : v.Serves file)
    (hm : v.Shows m file.length) (hpos : 0 < limit) (hlimit : limit ≤ 4096)
    (hfile : file.length < 2 ^ 63) (hfault : c.fault = none) (hlive : c.live = true)
    (herror : c.log.errorBytes = 0) (hsized : c.Sized file.length v.filesize)
    (ht : Transfer limit v c c') : c'.Waiting m := by
  have hstart := h.inside
  have hreqPos := h.reqPos
  cases ht with
  | entry => exact .of_fault rfl
  | storage => exact .of_fault rfl
  | idle hbalanced hready =>
    intro _ _ _ _ hempty
    have hnonneg := h.sound.nonneg
    have hforward := h.sound.forward
    unfold Balanced at hbalanced
    rw [hempty, List.length_nil] at hbalanced
    have hsending : c.session.sending = 0 := by omega
    by_cases hsize : v.filesize = 0
    · exact hm.unsized hsize _
    · have hlen : c.session.len = 0 := by
        by_contra hlen
        refine hready ⟨?_, hlen, hsize⟩
        rw [hsending]
        exact Nat.zero_le _
      rcases h.nothing_left hfault hlive herror hsized hlen with hnone | hend
      · exact absurd hnone hsize
      · apply hm.inside
        unfold nextOffset
        omega
  | head => exact .of_closing rfl
  | body b hbalanced hready hmethod =>
    have hsteady := h.headed (v := v) (m := b) hfile hbalanced hready.2.1
    have hbegun := h.sound.begun hfile hbalanced hready b
    have hsize : v.filesize = file.length := hv.filesize.resolve_left hready.2.2
    have hbody := @body_body limit v (c.headed limit v b)
    generalize c.headed limit v b = d at *
    generalize d.body limit v = c' at hbody
    have hnonneg := hsteady.sound.nonneg
    have hdbalanced : (d.session.sending + d.session.headerSending : Int) =
        d.connection.sendMbuf.length := hbegun.balanced
    cases hbody with
    | range => exact .of_fault rfl
    | storage => exact .of_fault rfl
    | empty bytes hpast hread hbuf =>
      intro _ _ _ _ hempty
      have hnothing : d.connection.sendMbuf = [] := hempty
      rw [hnothing, List.length_nil] at hdbalanced
      obtain ⟨hnone, rfl⟩ := List.append_eq_nil_iff.mp hbuf
      have hnext : nextOffset (d.took limit v []).session = nextOffset d.session := by
        show d.session.pos + d.session.sending + ((d.session.buf ++ []).length : Int) = _
        rw [List.append_nil]
        rfl
      rw [hnext]
      rw [hbegun.balanced.readFrom] at hread
      by_cases hinside : nextOffset d.session < file.length
      · refine hm.read _ _ ?_ hread
        exact hsteady.wanted_pos hpos hfile hsize hbegun.ready.2.1 hnone (by omega) hinside
      · exact hm.inside _ (by omega)
    | send bytes hpast hread hbuf =>
      intro _ _ _ _ hempty
      exfalso
      obtain ⟨x, hx⟩ := @sendBody_adds limit (d.took limit v bytes)
      have hnothing : d.connection.sendMbuf = [] := by
        have hparts := hx.sendMbuf.symm.trans hempty
        exact (List.append_eq_nil_iff.mp hparts).1
      rw [hnothing, List.length_nil] at hdbalanced
      have htook := hsteady.took hv hlimit hbegun.balanced hbegun.ready hbegun.headerSend hpast
        hread
      have hsmall : (d.session.buf ++ bytes).length ≤ limit := htook.sound.small
      refine sendBody_nonempty (c := d.took limit v bytes) hbuf ?_ ?_ hsmall hempty
      · show (d.session.buf ++ bytes).length < 2 ^ 31
        omega
      · show d.session.headerSending = 0
        omega

/-! ## The events of a session -/

/-- What the end of a callback leaves of it. -/
theorem Waiting.closing (h : c.Waiting m) (hc : Closing v c c') : c'.Waiting m := by
  cases hc with
  | none => exact h
  | close => exact .of_closing rfl
  | reply => exact .of_closing rfl

/-- A transfer of a session that is being answered. -/
theorem Answered.transfer_waiting (h : Answered limit file r1 r2 c) (hv : v.Serves file)
    (hm : v.Shows m file.length) (hpos : 0 < limit) (hlimit : limit ≤ 4096)
    (hfile : file.length < 2 ^ 63) (hfault : c.fault = none) (hlive : c.live = true)
    (herror : c.log.errorBytes = 0) (hsized : c.Sized file.length v.filesize)
    (ht : Transfer limit v c c') : c'.Waiting m := by
  have hgoing : ¬ (c.fault.isSome ∨ c.live = false) := by
    rw [hfault, hlive]
    decide
  obtain ⟨-, -, hsteady | hshort⟩ := h.streams.going hgoing
  · exact hsteady.transfer_waiting hv hm hpos hlimit hfile hfault hlive herror hsized ht
  · -- a short state fails its entry assert
    rw [transfer_of_not_balanced hshort.not_balanced ht]
    exact .of_fault rfl

/-- **Data comes.** -/
theorem Delivers.recv_waiting (h : Delivers limit file r1 r2 c) (hv : v.Serves file)
    (hm : v.Shows m file.length) (hpos : 0 < limit) (hlimit : limit ≤ 4096)
    (hfile : file.length < 2 ^ 63) (hsized : c.Sized file.length v.filesize) :
    (c.step limit (.recv v)).Waiting m := by
  cases hfault : c.fault with
  | some f =>
    unfold Client.step
    rw [if_pos (by rw [hfault]; rfl)]
    exact .of_fault hfault
  | none =>
    have hmoved := @step_moved limit c (.recv v) hfault
    have herrors := hmoved.errorBytes_le hfault
    have hrunning : ¬ c.fault.isSome = true := by
      rw [hfault]
      exact Bool.false_ne_true
    unfold Client.step at herrors ⊢
    rw [if_neg hrunning] at herrors ⊢
    dsimp only [SessionEvent.client] at herrors ⊢
    cases hlive : c.live with
    | false =>
      rw [if_neg Bool.false_ne_true]
      exact .of_over hlive
    | true =>
      rw [if_pos rfl]
      rw [hlive, if_pos rfl] at herrors
      rcases h hfault with herror | hanswers
      · -- the error reply is still counted
        intro _ _ hzero
        omega
      · by_cases herror : c.log.errorBytes = 0
        · have ht := @tryTransfer_transfer limit v c hfault
          exact (hanswers.transfer_waiting hv hm hpos hlimit hfile hfault hlive herror hsized
            ht).closing closeIfNeed_closing
        · intro _ _ hzero
          omega

theorem counted_fields : ∃ head k, c.counted n = { c with
      connection := { c.connection with sendMbuf := c.connection.sendMbuf.drop n }
      session := { c.session with
        headerSending := head
        pos := c.session.pos + (k : Nat)
        len := if 0 < c.session.len then c.session.len - (k : Nat) else c.session.len
        sending := c.session.sending - (k : Nat) } } ∧
    countHead n c.session = ({ c.session with headerSending := head }, k) := by
  obtain ⟨head, k, hcount, -, -⟩ := countHead_spec n c.session
  refine ⟨head, k, ?_, hcount⟩
  unfold Client.counted
  rw [hcount]
  rfl

/-- A session keeps what it knows of its length as bytes leave. -/
theorem Steady.counted_sized (h : Steady limit file r1 r2 c) (hleft : c.session.len ≠ 0) :
    (c.counted n).Sized file.length filesize := by
  obtain ⟨head, k, hcounted, -⟩ := @counted_fields n c
  rw [hcounted]
  intro _ _ _ hopen hlen
  right
  have hopen' : c.session.reqLen = 0 := hopen
  have hlen' : (if 0 < c.session.len then c.session.len - (k : Int) else c.session.len) = 0 := hlen
  show c.session.pos + (k : Int) = file.length
  rcases h.sound.openEnded hopen' with hend | ⟨hnone, -⟩
  · split at hlen'
    · omega
    · omega
  · exact absurd hnone hleft

/-- **Bytes leave.** -/
theorem Delivers.sent_waiting (h : Delivers limit file r1 r2 c) (hv : v.Serves file)
    (hm : v.Shows m file.length) (hpos : 0 < limit) (hlimit : limit ≤ 4096)
    (hfile : file.length < 2 ^ 63) (hsized : c.Sized file.length v.filesize)
    (hn : 0 < n ∧ n ≤ c.connection.sendMbuf.length) (hfault : c.fault = none)
    (hlive : c.live = true) : (c.sent limit v n).Waiting m := by
  have hs := @sent_sent limit v c n hlive hfault
  have hmoved : Moved limit c (.sent n v) (c.sent limit v n) := .sent n v hn.1 hn.2 hlive hs
  have herrors := hmoved.errorBytes_le hfault
  by_cases herror : c.log.errorBytes = 0
  · rcases h hfault with hpositive | hanswers
    · omega
    · have hgoing : ¬ (c.fault.isSome ∨ c.live = false) := by
        rw [hfault, hlive]
        decide
      obtain ⟨-, -, hsteady | hshort⟩ := hanswers.streams.going hgoing
      · generalize c.sent limit v n = c' at hs
        cases hs with
        | ignored hclosing => exact .of_closing hclosing
        | head hopen hlen =>
          intro _ _ _ _ hempty
          obtain ⟨head, k, hcount, hsum, hsplit, hk⟩ := hsteady.sound.counts hopen hn.2
          have hstart := hsteady.inside
          have hreqPos := hsteady.reqPos
          have hforward := hsteady.sound.forward
          have hnonneg := hsteady.sound.nonneg
          rw [hcount]
          rcases hsteady.nothing_left hfault hlive herror hsized hlen with hnone | hend
          · exact hm.unsized hnone _
          · apply hm.inside
            show file.length ≤ (c.session.pos + c.session.sending + c.session.buf.length).toNat
            omega
        | drained => exact .of_fault rfl
        | finish => exact .of_over rfl
        | transfer hopen hleft hmore ht hc =>
          have hcounted := hsteady.counted hopen hn.2 hmore
          exact (hcounted.transfer_waiting hv hm hpos hlimit hfile hfault hlive herror
            (hsteady.counted_sized hleft) ht).closing hc
      · obtain ⟨hf | hf, -⟩ := hshort.sent hn.2 hs
        · exact .of_fault hf
        · exact .of_fault hf
  · intro _ _ hzero
    omega

/-- A callback that brings no data. -/
theorem Waiting.step (h : c.Waiting m) {e : SessionEvent}
    (he : e = .contentSize v ∨ e = .error v) : (c.step limit e.client).Waiting m := by
  cases hfault : c.fault with
  | some f =>
    unfold Client.step
    rw [if_pos (by rw [hfault]; rfl)]
    exact h
  | none =>
    have hmoved := @step_moved limit c e hfault
    generalize c.step limit e.client = c' at hmoved
    rcases he with rfl | rfl
    · cases hmoved with
      | idle => exact h
      | contentSize =>
        unfold onContentSizeFrom
        split
        · exact h
        · split
          · exact h
          · exact h
    · cases hmoved with
      | idle => exact h
      | error => exact h.closing closeIfNeed_closing

/-! ## The length -/

theorem Sized.of_same (h : c.Sized file.length filesize) (hfault : c'.fault = none → c.fault = none)
    (hlive : c'.live = true → c.live = true) (herror : c.log.errorBytes ≤ c'.log.errorBytes)
    (hreqLen : c'.session.reqLen = c.session.reqLen) (hlen : c'.session.len = c.session.len)
    (hpos : c'.session.pos = c.session.pos) : c'.Sized file.length filesize := by
  intro hnone hopen hzero hopenEnded hleft
  rw [hpos]
  exact h (hfault hnone) (hlive hopen) (by omega) (hreqLen ▸ hopenEnded) (hlen ▸ hleft)

theorem Sized.transfer (h : c.Sized file.length filesize) (hfault : c.fault = none)
    (ht : Transfer limit v c c') : c'.Sized file.length filesize :=
  h.of_same (fun _ => hfault) (fun hlive => ht.sameReader.live ▸ hlive) ht.errorBytes.ge
    ht.sameReader.reqLen ht.sameReader.len ht.sameReader.pos

theorem Sized.closing (h : c.Sized file.length filesize) (hc : Closing v c c') :
    c'.Sized file.length filesize :=
  h.of_same (fun hnone => (closing_frame hc).2.2.1 ▸ hnone)
    (fun hlive => hc.sameReader.live ▸ hlive) hc.errorBytes_le hc.sameReader.reqLen
    hc.sameReader.len hc.sameReader.pos

/-- The length is learned. -/
theorem onContentSizeFrom_sized (hsize : v.filesize = 0 ∨ v.filesize = file.length) :
    (c.onContentSizeFrom v).Sized file.length v.filesize := by
  unfold onContentSizeFrom
  split
  · intro _ _ _ _ hlen
    omega
  · split
    · intro _ _ _ _ hlen
      right
      have hlen' : v.filesize - c.session.pos = 0 := hlen
      show c.session.pos = file.length
      omega
    · rename_i hnone
      intro _ _ _ _ _
      left
      omega

theorem contentSize_sized (hsize : v.filesize = 0 ∨ v.filesize = file.length) :
    (c.step limit (.contentSize v)).Sized file.length v.filesize := by
  cases hfault : c.fault with
  | some f =>
    unfold Client.step
    rw [if_pos (by rw [hfault]; rfl)]
    intro hnone
    rw [hfault] at hnone
    cases hnone
  | none =>
    have hmoved := @step_moved limit c (.contentSize v) hfault
    have hrunning : ¬ c.fault.isSome = true := by
      rw [hfault]
      exact Bool.false_ne_true
    unfold Client.step
    rw [if_neg hrunning]
    dsimp only
    split
    · exact onContentSizeFrom_sized hsize
    · rename_i hover
      exact fun _ hlive => absurd hlive hover

/-- What a session that is called knows of its length. -/
theorem Sized.step (h : c.Sized file.length filesize) {e : SessionEvent}
    (he : e = .recv v ∨ e = .error v) : (c.step limit e.client).Sized file.length filesize := by
  cases hfault : c.fault with
  | some f =>
    unfold Client.step
    rw [if_pos (by rw [hfault]; rfl)]
    exact h
  | none =>
    have hmoved := @step_moved limit c e hfault
    generalize c.step limit e.client = c' at hmoved
    rcases he with rfl | rfl
    · cases hmoved with
      | idle => exact h
      | recv => exact (h.transfer hfault (tryTransfer_transfer hfault)).closing closeIfNeed_closing
    · cases hmoved with
      | idle => exact h
      | error => exact h.closing closeIfNeed_closing

/-- The same as bytes leave. -/
theorem Delivers.sent_sized (h : Delivers limit file r1 r2 c)
    (hsized : c.Sized file.length filesize) (hn : n ≤ c.connection.sendMbuf.length)
    (hpos : 0 < n) (hfault : c.fault = none) (hlive : c.live = true) :
    (c.sent limit v n).Sized file.length filesize := by
  have hs := @sent_sent limit v c n hlive hfault
  have hmoved : Moved limit c (.sent n v) (c.sent limit v n) := .sent n v hpos hn hlive hs
  have herrors := hmoved.errorBytes_le hfault
  by_cases herror : c.log.errorBytes = 0
  · rcases h hfault with hpositive | hanswers
    · omega
    · have hgoing : ¬ (c.fault.isSome ∨ c.live = false) := by
        rw [hfault, hlive]
        decide
      obtain ⟨-, -, hsteady | hshort⟩ := hanswers.streams.going hgoing
      · generalize c.sent limit v n = c' at hs
        cases hs with
        | ignored => exact hsized
        | head =>
          obtain ⟨head, k, hcount, -, -⟩ := countHead_spec n c.session
          rw [hcount]
          exact hsized
        | drained => exact fun hnone => by cases hnone
        | finish => exact fun _ hover => by cases hover
        | transfer hopen hleft hmore ht hc =>
          exact ((hsteady.counted_sized hleft).transfer hfault ht).closing hc
      · obtain ⟨hf | hf, -⟩ := hshort.sent hn hs
        · exact fun hnone => by rw [hf] at hnone; cases hnone
        · exact fun hnone => by rw [hf] at hnone; cases hnone
  · intro _ _ hzero
    omega

/-! ## The request -/

/-- A new session, after its first transfer. -/
theorem openSession_waiting {task : Nat} {method : Method} {rangeHdr : Option (List Char)}
    (hv : v.Serves file) (hm : v.Shows m file.length) (hpos : 0 < limit) (hlimit : limit ≤ 4096)
    (hfile : file.length < 2 ^ 63) (hopen : c.connection.sendAndClose = false)
    (hrange : requestedRange rangeHdr = some (r1, r2)) (hr1 : 0 ≤ r1) :
    (((c.openSession task method r1 r2 v).tryTransfer limit v).closeIfNeed v).Waiting m ∧
      (((c.openSession task method r1 r2 v).tryTransfer limit v).closeIfNeed v).Sized file.length
        v.filesize := by
  have ht := @tryTransfer_transfer limit v (c.openSession task method r1 r2 v) rfl
  have hsized : (c.openSession task method r1 r2 v).Sized file.length v.filesize := by
    intro _ _ _ hopenEnded hlen
    have hr2 : r2 = 0 := hopenEnded
    have hlen' : (if r2 = 0 ∧ 0 < v.filesize then v.filesize - r1 else r2) = 0 := hlen
    show v.filesize = 0 ∨ r1 = file.length
    rcases hv.filesize with hzero | hsize
    · exact Or.inl hzero
    · split at hlen' <;> omega
  refine ⟨?_, (hsized.transfer rfl ht).closing closeIfNeed_closing⟩
  by_cases hempty : c.connection.sendMbuf = []
  · exact ((openSession_steady hv hopen hrange hr1 hempty).transfer_waiting hv hm hpos hlimit
      hfile rfl rfl rfl hsized ht).closing closeIfNeed_closing
  · rw [transfer_of_not_balanced (openSession_not_balanced hempty) ht]
    exact Waiting.closing (.of_fault rfl) closeIfNeed_closing

end waiting

end Client

end Libms
