import Mathlib
import Libms.Framework.Runs
import Libms.Session.Awake

/-! # A session comes to its end

    The answer to an open-ended request for a file that the task has: as long
    as the session is open its connection has something to send, and when
    all of it has left, the session closes itself.

    * `TaskView.Complete`: a task that has all of the file, as a storage
      without a hole (`TaskView.ofStorage_complete`). It may have an error.
    * `Going`: a session that transfers what it is asked for.
    * `Going.transfer`: a transfer never leaves the send buffer empty, so
      that an error of the task finds something in flight
      (`closeIfNeed_inFlight`).
    * `flowStep`: an event, with the bytes that leave the connection.
    * `Flows`: the bytes that have left and those in flight are the head and
      the file, in order. -/

namespace Libms

open CInt PartialMap Runs Text

/-- A task that has all of the file: a read inside of it gives all that was
    asked for. -/
structure TaskView.Complete (file : List UInt8) (v : TaskView) : Prop where
  serves : v.Serves file
  filesize : v.filesize = file.length
  read : ∀ (pos : Int) (n : Nat), 0 ≤ pos → pos + n ≤ file.length →
    v.read pos n = some ((file.drop pos.toNat).take n)

/-- **A storage without a hole** has all of the file. -/
theorem TaskView.ofStorage_complete {file : List UInt8} {st : MemStorage}
    {contentType : List Char} {errno : Int} (h : st.Intact file) (hsize : st.filesize = file.length)
    (hall : ∀ i < file.length, (st.byteAt i).isSome) :
    (TaskView.ofStorage st contentType errno).Complete file where
  serves := TaskView.ofStorage_serves h.size (h.estimate ▸ h.filled) h.bytes
  filesize := hsize
  read pos n hpos hend := by
    obtain ⟨p, rfl⟩ := Int.eq_ofNat_of_zero_le hpos
    have hest := h.estimate
    by_cases hnone : n = 0 ∧ file.length = 0
    · -- an empty read of an empty file
      obtain ⟨rfl, hempty⟩ := hnone
      have hread : st.storageRead p 0 = some [] := by
        unfold MemStorage.storageRead
        rw [if_pos ⟨by omega, by omega⟩, if_pos ⟨by omega, by omega⟩]
      show (st.storageRead p 0).map _ = _
      rw [hread, List.take_zero]
      rfl
    · have hspec := @MemStorage.storageRead_spec st p n (h.estimate ▸ h.filled) (by omega)
        (by omega)
      show (st.storageRead p n).map _ = _
      rw [hspec, Option.map_some, List.map_map, Int.toNat_natCast]
      have hid : ((fun byte => byte.getD 0) ∘ some : UInt8 → UInt8) = id := rfl
      rw [hid, List.map_id]
      congr 1
      -- no hole stops the run
      have hprefix := prefix_of_readRun h.bytes p n
      apply hprefix.eq_of_length
      rw [readRun_length, List.length_take, List.length_drop,
        leading_eq_min (m := file.length - p)]
      · intro i hlow hhigh
        exact hall i (by omega)
      · have hbyte : st.byteAt (p + (file.length - p)) = none := by
          cases hbyte : st.byteAt (p + (file.length - p)) with
          | none => rfl
          | some byte =>
            have hfile := h.bytes _ _ hbyte
            rw [List.getElem?_eq_none (by omega)] at hfile
            cases hfile
        rw [hbyte]
        rfl

namespace Client

/-- A session that is open for the rest of the file, with its head sent. The
    head is not longer than half of the buffer, so it never wraps `len`. -/
structure Going (limit : Nat) (file : List UInt8) (r1 : Int) (c : Client) : Prop where
  steady : Steady limit file r1 0 c
  fault : c.fault = none
  live : c.live = true
  method : c.session.method = .get
  opened : c.connection.sendAndClose = false
  headerSend : c.connection.headerSend = true
  head : c.session.headerSending ≤ limit / 2
  left : 0 < c.session.len

section going

variable {limit n : Nat} {file : List UInt8} {r1 : Int} {v : TaskView} {c c' : Client}

/-! ## Transfers -/

theorem Going.balanced (h : Going limit file r1 c) : c.Balanced :=
  h.steady.sound.balanced h.opened

/-- The session ends where the file ends. -/
theorem Going.ends (h : Going limit file r1 c) : c.session.pos + c.session.len = file.length := by
  rcases h.steady.sound.openEnded h.steady.reqLen with hend | ⟨-, hunsent⟩
  · exact hend
  · rw [h.headerSend] at hunsent
    cases hunsent

theorem Going.pos_nonneg (h : Going limit file r1 c) : 0 ≤ c.session.pos := by
  have hforward := h.steady.sound.forward
  rw [h.steady.reqPos] at hforward
  exact h.steady.inside.trans hforward

/-- With an empty send buffer nothing is in flight. -/
theorem Going.nothing_sending (h : Going limit file r1 c) (hempty : c.connection.sendMbuf = []) :
    c.session.sending = 0 ∧ c.session.headerSending = 0 := by
  have hbalanced := h.balanced
  have hnonneg := h.steady.sound.nonneg
  unfold Balanced at hbalanced
  rw [hempty, List.length_nil] at hbalanced
  omega

/-- The next read starts inside the file. -/
theorem Going.nextOffset_bounds (h : Going limit file r1 c) :
    0 ≤ nextOffset c.session ∧ nextOffset c.session ≤ file.length := by
  have hends := h.ends
  have hleft := h.left
  have hnonneg := h.steady.sound.nonneg
  have hpos := h.pos_nonneg
  unfold nextOffset
  rcases h.steady.sound.held with hheld | ⟨hsending, hbuf⟩
  · omega
  · rw [hsending, hbuf, List.length_nil]
    omega

theorem Going.not_wraps (h : Going limit file r1 c) : ¬ Wraps limit c.session := by
  have hhead := h.head
  rintro ⟨hover, hless⟩
  omega

/-- The body part after a read that met its asserts. -/
theorem body_of_read {bytes : List UInt8} (hpast : ¬ c.PastRange limit v)
    (hread : v.read c.readFrom (wanted limit v c.session c.readFrom) = some bytes) :
    c.body limit v =
      if c.session.buf ++ bytes = [] then c.took limit v bytes
      else (c.took limit v bytes).sendBody limit := by
  unfold body
  simp only [if_neg (show ¬ (_ ∧ _) from hpast), hread, ← List.length_eq_zero_iff]
  rfl

/-- **The body part** of an open-ended session that is ready: what is read
    goes to the send buffer, and if that was empty there is something to read. -/
theorem Going.body (h : Going limit file r1 c) (hv : v.Complete file) (hpos : 0 < limit)
    (hlimit : limit ≤ 4096) (hfile : file.length < 2 ^ 63) (hready : Ready limit v c.session) :
    Going limit file r1 (c.body limit v) ∧ (c.body limit v).connection.sendMbuf ≠ [] := by
  have hbalanced := h.balanced
  have hfrom := hbalanced.readFrom
  obtain ⟨hnonneg, hinside⟩ := h.nextOffset_bounds
  have hpast : ¬ c.PastRange limit v := fun hpast => hpast.1 h.steady.reqLen
  have hleft := h.left
  have hends := h.ends
  have hstart := h.pos_nonneg
  obtain ⟨-, hend, -⟩ := wanted_spec hlimit hv.filesize (by omega) h.steady.sound.small hinside
  rw [← hfrom] at hend hnonneg
  have hread := hv.read _ _ hnonneg hend
  generalize hbytes : (file.drop c.readFrom.toNat).take (wanted limit v c.session c.readFrom) =
    bytes at hread
  have htook : Going limit file r1 (c.took limit v bytes) :=
    { h with
      steady := h.steady.took hv.serves hlimit hbalanced hready h.headerSend hpast hread }
  rw [body_of_read hpast hread]
  split
  · rename_i hbuf
    refine ⟨htook, ?_⟩
    intro (hempty : c.connection.sendMbuf = [])
    -- with nothing in flight and nothing buffered a byte is read
    obtain ⟨hnone, rfl⟩ := List.append_eq_nil_iff.mp hbuf
    obtain ⟨hsending, -⟩ := h.nothing_sending hempty
    have hnext : nextOffset c.session = c.session.pos := by
      unfold nextOffset
      rw [hnone, hsending, List.length_nil]
      omega
    have hwanted := h.steady.wanted_pos hpos hfile hv.filesize hready.2.1 hnone hsending (by omega)
    rw [← hfrom] at hwanted
    have hlength := congrArg List.length hbytes
    rw [List.length_take, List.length_drop, List.length_nil] at hlength
    omega
  · rename_i hbuf
    have hsmall : (c.took limit v bytes).session.buf.length ≤ limit := htook.steady.sound.small
    obtain ⟨k, hk, hmove⟩ := sendBody_eq (by omega) htook.not_wraps
      (htook.steady.sound.inRange hbuf)
    refine ⟨?_, ?_⟩
    · rw [hmove]
      exact { htook with steady := htook.steady.move h.headerSend hk }
    · by_cases hempty : c.connection.sendMbuf = []
      · exact sendBody_nonempty hbuf (by omega) (h.nothing_sending hempty).2 hsmall
      · rw [hmove]
        exact List.append_ne_nil_of_left_ne_nil hempty _

/-- The look at the first kilobyte of a complete file. -/
theorem probe_complete (hv : v.Complete file) (hfile : file.length < 2 ^ 63) (c : Client) :
    ∃ m, c.probe v = c.setSession { c.session with isMedia := m } := by
  unfold probe
  split
  · have hword : sizeT v.filesize = file.length := by
      rw [hv.filesize]
      exact sizeT_natCast (by omega)
    rw [hv.read 0 (min 1024 (sizeT v.filesize)) (le_refl _) (by omega)]
    exact ⟨_, rfl⟩
  · exact ⟨c.session.isMedia, rfl⟩

/-- `try_transfer_data` behind its entry assert. -/
theorem tryTransfer_of_balanced (h : c.Balanced) :
    c.tryTransfer limit v = if Ready limit v c.session then c.transfer limit v else c :=
  if_neg (not_not.mpr h)

/-- `try_transfer_data` of a `GET` that is ready. -/
theorem tryTransfer_body (hv : v.Complete file) (hfile : file.length < 2 ^ 63)
    (hfault : c.fault = none) (hbalanced : c.Balanced) (hready : Ready limit v c.session)
    (hmethod : c.session.method = .get) :
    ∃ m, c.tryTransfer limit v = (c.headed limit v m).body limit v := by
  obtain ⟨m, hprobe⟩ := probe_complete hv hfile c
  refine ⟨m, ?_⟩
  have hnone : (c.setSession { c.session with isMedia := m }).fault.isSome = false := by
    show c.fault.isSome = false
    rw [hfault]
    rfl
  have hget : ((c.setSession { c.session with isMedia := m }).sendHead limit v).session.method =
      .get := sendHead_method.trans hmethod
  rw [tryTransfer_of_balanced hbalanced, if_pos hready]
  unfold transfer
  rw [hprobe]
  simp only [hnone, hget, Bool.false_eq_true, if_false]
  rfl

/-- **A transfer** never leaves the send buffer empty. -/
theorem Going.transfer (h : Going limit file r1 c) (hv : v.Complete file) (hpos : 0 < limit)
    (hlimit : limit ≤ 4096) (hfile : file.length < 2 ^ 63) :
    Going limit file r1 (c.tryTransfer limit v) ∧
      (c.tryTransfer limit v).connection.sendMbuf ≠ [] := by
  have hleft := h.left
  by_cases hready : Ready limit v c.session
  · obtain ⟨m, hbody⟩ := tryTransfer_body hv hfile h.fault h.balanced hready h.method
    rw [hbody, headed_of_sent h.headerSend]
    have hsteady := h.steady.headed (v := v) (m := m) hfile h.balanced hready.2.1
    rw [headed_of_sent h.headerSend] at hsteady
    have hgoing : Going limit file r1 (c.setSession { c.session with isMedia := m }) :=
      { h with steady := hsteady }
    exact hgoing.body hv hpos hlimit hfile hready
  · -- enough is in flight
    rw [tryTransfer_of_balanced h.balanced, if_neg hready]
    refine ⟨h, ?_⟩
    intro hempty
    obtain ⟨hsending, -⟩ := h.nothing_sending hempty
    have hends := h.ends
    have hstart := h.pos_nonneg
    refine hready ⟨?_, by omega, ?_⟩
    · rw [hsending]
      exact Nat.zero_le _
    · rw [hv.filesize]
      omega

/-! ## Sends -/

/-- As long as something is in flight `ms_session_close_if_need` does nothing,
    whatever error the task has. -/
theorem closeIfNeed_inFlight (h : c.Balanced) (hsome : c.connection.sendMbuf ≠ []) :
    c.closeIfNeed v = c := by
  have hlength := List.length_pos_iff.mpr hsome
  unfold Balanced at h
  unfold closeIfNeed
  split
  · rfl
  · apply if_pos
    right
    omega

/-- Counting what has left, if it was not all. -/
theorem Going.counted (h : Going limit file r1 c) (hn : n ≤ c.connection.sendMbuf.length)
    (hmore : ¬ ((c.counted n).session.len = 0 ∧ (c.counted n).session.sending = 0)) :
    Going limit file r1 (c.counted n) := by
  have hsteady := h.steady.counted h.opened hn (by omega)
  obtain ⟨head, k, hcount, hsum, hsplit, hk⟩ := h.steady.sound.counts h.opened hn
  have hleft := h.left
  have hhead := h.head
  unfold Client.counted at hsteady hmore ⊢
  rw [hcount] at hsteady hmore ⊢
  simp only [countBody, if_pos hleft] at hmore
  refine ⟨hsteady, h.fault, h.live, h.method, h.opened, h.headerSend, ?_, ?_⟩
  · show head ≤ limit / 2
    omega
  · -- what is in flight is part of what is left
    show 0 < if 0 < c.session.len then c.session.len - (k : Int) else c.session.len
    rw [if_pos hleft]
    rcases h.steady.sound.held with hheld | ⟨hsending, -⟩ <;> omega

/-- `MG_EV_SEND` of a session that is going. -/
theorem Going.sent_eq (h : Going limit file r1 c) (hn : n ≤ c.connection.sendMbuf.length) :
    c.sent limit v n =
      if (c.counted n).session.len = 0 ∧ (c.counted n).session.sending = 0 then
        { c.counted n with live := false }
      else ((c.counted n).tryTransfer limit v).closeIfNeed v := by
  obtain ⟨head, k, hcount, -⟩ := countHead_spec n c.session
  have hlen : (countHead n c.session).1.len = c.session.len := by rw [hcount]
  have hleft : c.session.len ≠ 0 := by
    have := h.left
    omega
  have hclosing : ¬ c.connection.sendAndClose = true := by
    rw [h.opened]
    exact Bool.false_ne_true
  have hsent : c.sent limit v n = ({ c with
      connection := { c.connection with sendMbuf := c.connection.sendMbuf.drop n } } :
        Client).onSend limit v n := if_pos h.live
  rw [hsent]
  unfold onSend
  rw [if_neg hclosing]
  simp only [hlen, if_neg hleft, if_neg (h.steady.sound.not_drained h.opened hn)]
  rfl

/-- When the last byte of the range has left, the send buffer is empty. -/
theorem Going.all_sent (h : Going limit file r1 c) (hn : n ≤ c.connection.sendMbuf.length)
    (hlen : (c.counted n).session.len = 0) (hsending : (c.counted n).session.sending = 0) :
    c.connection.sendMbuf.drop n = [] := by
  obtain ⟨head, k, hcount, hsum, hsplit, hk⟩ := h.steady.sound.counts h.opened hn
  have hleft := h.left
  have hbalanced := h.balanced
  unfold Balanced at hbalanced
  unfold Client.counted at hlen hsending
  rw [hcount] at hlen hsending
  simp only [countBody, if_pos hleft] at hlen hsending
  apply List.drop_eq_nil_of_le
  omega

/-! ## What leaves the connection -/

/-- One event, and the bytes that have left so far. -/
def flowStep (limit : Nat) (x : Client × List UInt8) (e : SessionEvent) : Client × List UInt8 :=
  if x.1.fault.isSome then x
  else (x.1.step limit e.client, x.2 ++ x.1.connection.sendMbuf.take (x.1.leaving e))

/-- The session has closed itself, and all of the range has left. -/
structure Ended (file : List UInt8) (r1 : Int) (c : Client) : Prop where
  fault : c.fault = none
  closed : c.live = false
  empty : c.connection.sendMbuf = []
  appended : c.log.appended = rangeOf file r1 0

/-- What has left and what is in flight are the head and the body bytes so
    far. An open session has something in flight. -/
structure Flows (limit : Nat) (file : List UInt8) (r1 : Int) (head : List UInt8)
    (x : Client × List UInt8) : Prop where
  wire : x.2 ++ x.1.connection.sendMbuf = head ++ x.1.log.appended
  state : (Going limit file r1 x.1 ∧ x.1.connection.sendMbuf ≠ []) ∨ Ended file r1 x.1

/-- An event of an open session whose task has all of the file. -/
def Fed (file : List UInt8) (e : SessionEvent) : Prop :=
  e ≠ .close ∧ ∀ v ∈ e.view?, v.Complete file

variable {head out : List UInt8} {e : SessionEvent}

theorem Flows.fault {x : Client × List UInt8} (h : Flows limit file r1 head x) :
    x.1.fault = none := by
  rcases h.state with ⟨hgoing, -⟩ | hended
  · exact hgoing.fault
  · exact hended.fault

/-- Body bytes are appended behind what is in flight. -/
theorem Going.transfer_flows (h : Going limit file r1 c)
    (hwire : out ++ c.connection.sendMbuf = head ++ c.log.appended) (hv : v.Complete file)
    (hpos : 0 < limit) (hlimit : limit ≤ 4096) (hfile : file.length < 2 ^ 63) :
    Flows limit file r1 head ((c.tryTransfer limit v).closeIfNeed v, out) := by
  obtain ⟨hgoing, hsome⟩ := h.transfer hv hpos hlimit hfile
  rw [closeIfNeed_inFlight hgoing.balanced hsome]
  obtain ⟨x, hadds⟩ := (@tryTransfer_transfer limit v c h.fault).adds h.headerSend
  refine ⟨?_, Or.inl ⟨hgoing, hsome⟩⟩
  show out ++ (c.tryTransfer limit v).connection.sendMbuf =
    head ++ (c.tryTransfer limit v).log.appended
  rw [hadds.sendMbuf, hadds.appended, ← List.append_assoc, hwire, List.append_assoc]

/-- **Bytes leave** a session that is going. -/
theorem Going.sent_flows (h : Going limit file r1 c)
    (hwire : out ++ c.connection.sendMbuf = head ++ c.log.appended) (hv : v.Complete file)
    (hpos : 0 < limit) (hlimit : limit ≤ 4096) (hfile : file.length < 2 ^ 63)
    (hn : n ≤ c.connection.sendMbuf.length) :
    Flows limit file r1 head (c.sent limit v n, out ++ c.connection.sendMbuf.take n) := by
  have hwire' : out ++ c.connection.sendMbuf.take n ++ (c.counted n).connection.sendMbuf =
      head ++ (c.counted n).log.appended := by
    show out ++ c.connection.sendMbuf.take n ++ c.connection.sendMbuf.drop n = _
    rw [List.append_assoc, List.take_append_drop]
    exact hwire
  rw [h.sent_eq hn]
  split
  · rename_i hdone
    have hleft : c.session.len ≠ 0 := by
      have := h.left
      omega
    refine ⟨hwire', Or.inr ⟨h.fault, rfl, h.all_sent hn hdone.1 hdone.2, ?_⟩⟩
    exact h.steady.finished h.opened hn hleft hdone.1 hdone.2
  · rename_i hmore
    exact (h.counted hn hmore).transfer_flows hwire' hv hpos hlimit hfile

/-- A closed session whose bytes have all left does nothing any more. -/
theorem Ended.step_eq (h : Ended file r1 c) (he : e ≠ .close) :
    c.step limit e.client = c ∧ c.leaving e = 0 := by
  have hnone : c.leaving e = 0 := by
    have hle := @leaving_le c e
    rw [h.empty, List.length_nil] at hle
    omega
  refine ⟨?_, hnone⟩
  have hover : ¬ c.live = true := by
    rw [h.closed]
    exact Bool.false_ne_true
  have hmoved := @step_moved limit c e h.fault
  generalize c.step limit e.client = c' at hmoved ⊢
  cases hmoved with
  | idle => rfl
  | recv _ hlive => exact absurd hlive hover
  | contentSize _ hlive => exact absurd hlive hover
  | error _ hlive => exact absurd hlive hover
  | sent _ _ _ _ hlive => exact absurd hlive hover
  | drain n _ hpos hn =>
    rw [h.empty, List.length_nil] at hn
    omega
  | close => exact absurd rfl he

/-- **Step lemma.** -/
theorem Flows.step {x : Client × List UInt8} (h : Flows limit file r1 head x) (hpos : 0 < limit)
    (hlimit : limit ≤ 4096) (hfile : file.length < 2 ^ 63) (he : Fed file e) :
    Flows limit file r1 head (flowStep limit x e) := by
  obtain ⟨c, out⟩ := x
  have hwire : out ++ c.connection.sendMbuf = head ++ c.log.appended := h.wire
  have hrunning : ¬ c.fault.isSome = true := by
    rw [show c.fault = none from h.fault]
    exact Bool.false_ne_true
  -- an event that does nothing
  have hsame : Flows limit file r1 head (c, out ++ c.connection.sendMbuf.take 0) := by
    rw [List.take_zero, List.append_nil]
    exact h
  unfold flowStep
  rw [if_neg hrunning]
  rcases h.state with ⟨hgoing, hsome⟩ | hended
  · have hlive : c.live = true := hgoing.live
    unfold Client.step
    rw [if_neg hrunning]
    cases e with
    | recv v =>
      show Flows limit file r1 head
        (if c.live = true then (c.tryTransfer limit v).closeIfNeed v else c,
          out ++ c.connection.sendMbuf.take 0)
      rw [if_pos hlive, List.take_zero, List.append_nil]
      exact hgoing.transfer_flows hwire (he.2 v rfl) hpos hlimit hfile
    | contentSize v =>
      show Flows limit file r1 head
        (if c.live = true then c.onContentSizeFrom v else c, out ++ c.connection.sendMbuf.take 0)
      -- the length is known
      have hknown : c.onContentSizeFrom v = c := if_pos hgoing.left
      rw [if_pos hlive, hknown]
      exact hsame
    | error v =>
      show Flows limit file r1 head
        (if c.live = true then c.closeIfNeed v else c, out ++ c.connection.sendMbuf.take 0)
      rw [if_pos hlive, closeIfNeed_inFlight hgoing.balanced hsome]
      exact hsame
    | close => exact absurd rfl he.1
    | sent n v =>
      show Flows limit file r1 head
        (if 0 < n ∧ n ≤ c.connection.sendMbuf.length then c.sent limit v n else c,
          out ++ c.connection.sendMbuf.take
            (if 0 < n ∧ n ≤ c.connection.sendMbuf.length then n else 0))
      split
      · rename_i hn
        exact hgoing.sent_flows hwire (he.2 v rfl) hpos hlimit hfile hn.2
      · exact hsame
  · obtain ⟨hstep, hnone⟩ := @Ended.step_eq limit _ _ _ e hended he.1
    dsimp only at hstep hnone ⊢
    rw [hstep, hnone]
    exact hsame

/-! ## The request -/

/-- **A request** for the rest of a file that the task has. -/
theorem openSession_flows {task : Nat} {rangeHdr : Option (List Char)} (hv : v.Complete file)
    (hpos : 0 < limit) (hlimit : limit ≤ 4096) (hfile : file.length < 2 ^ 63)
    (hopen : c.connection.sendAndClose = false) (hempty : c.connection.sendMbuf = [])
    (hrange : requestedRange rangeHdr = some (r1, 0)) (hr1 : 0 ≤ r1) (hinside : r1 < file.length)
    (hhead : ((c.openSession task .get r1 0 v).head limit v).length ≤ limit / 2) :
    Flows limit file r1 ((c.openSession task .get r1 0 v).head limit v)
      (((c.openSession task .get r1 0 v).tryTransfer limit v).closeIfNeed v, []) := by
  have hsteady : Steady limit file r1 0 (c.openSession task .get r1 0 v) :=
    openSession_steady hv.serves hopen hrange hr1 hempty
  have hlen : (c.openSession task .get r1 0 v).session.len = file.length - r1 := by
    show (if (0 : Int) = 0 ∧ 0 < v.filesize then v.filesize - r1 else 0) = _
    rw [hv.filesize, if_pos ⟨rfl, by omega⟩]
  generalize hd : c.openSession task .get r1 0 v = d at hhead hsteady hlen ⊢
  have hmbuf : d.connection.sendMbuf = [] := by
    rw [← hd]
    exact hempty
  have hunsent : d.connection.headerSend = false := by rw [← hd]; rfl
  have hfault : d.fault = none := by rw [← hd]; rfl
  have happended : d.log.appended = [] := by rw [← hd]; rfl
  have hmethod : d.session.method = .get := by rw [← hd]; rfl
  have hopen' : d.connection.sendAndClose = false := by
    rw [← hd]
    exact hopen
  have hbalanced : d.Balanced := hsteady.sound.balanced hopen'
  obtain ⟨hsending, hunsentHead, -⟩ := hsteady.sound.fresh hunsent
  have hready : Ready limit v d.session := by
    refine ⟨?_, by omega, ?_⟩
    · rw [hsending]
      exact Nat.zero_le _
    · rw [hv.filesize]
      omega
  obtain ⟨m, hbody⟩ := tryTransfer_body hv hfile hfault hbalanced hready hmethod
  have hheaded := hsteady.headed (v := v) (m := m) hfile hbalanced hready.2.1
  have hgoing : Going limit file r1 (d.headed limit v m) := by
    rw [headed_of_fresh hunsent] at hheaded ⊢
    refine ⟨hheaded, hfault, ?_, hmethod, hopen', rfl, ?_, ?_⟩
    · rw [← hd]
      rfl
    · show d.session.headerSending + (d.connection.sendMbuf ++ d.head limit v).length ≤ limit / 2
      rw [hunsentHead, hmbuf, List.nil_append, Nat.zero_add]
      exact hhead
    · show 0 < d.session.len
      omega
  obtain ⟨hgoing', hsome⟩ := hgoing.body hv hpos hlimit hfile (headed_ready hready)
  rw [← hbody] at hgoing' hsome
  rw [closeIfNeed_inFlight hgoing'.balanced hsome]
  refine ⟨?_, Or.inl ⟨hgoing', hsome⟩⟩
  show [] ++ (d.tryTransfer limit v).connection.sendMbuf =
    d.head limit v ++ (d.tryTransfer limit v).log.appended
  rcases (@tryTransfer_transfer limit v d hfault).begins hunsent with
    (⟨hsame, -⟩ | ⟨f, hfail⟩) | ⟨x, -, hmbuf', happended', -, -⟩
  · rw [hsame] at hsome
    exact absurd hmbuf hsome
  · have hnone := hgoing'.fault
    rw [hfail] at hnone
    cases hnone
  · rw [hmbuf', happended', hmbuf, happended]
    rfl

/-! ## Runs -/

theorem rangeOf_open (file : List UInt8) (r1 : Int) : rangeOf file r1 0 = file.drop r1.toNat := by
  unfold rangeOf
  rw [if_neg (lt_irrefl 0)]
  apply List.take_of_length_le
  rw [List.length_drop]
  exact Nat.sub_le _ _

/-- The answer is on its way: no assert has failed, what has left and what is
    in flight are the start of it, an open session has something in flight,
    and it closes itself when all of the answer has left. -/
structure OnItsWay (answer : List UInt8) (x : Client × List UInt8) : Prop where
  sound : x.1.fault = none
  inOrder : x.2 ++ x.1.connection.sendMbuf <+: answer
  awake : x.1.live = true → x.1.connection.sendMbuf ≠ []
  finished : x.1.live = false ↔ x.2 = answer

theorem Flows.onItsWay {x : Client × List UInt8} (h : Flows limit file r1 head x) :
    OnItsWay (head ++ rangeOf file r1 0) x := by
  have hwire := h.wire
  rcases h.state with ⟨hgoing, hsome⟩ | hended
  · have hbytes := hgoing.steady.inOrder
    rw [← rangeOf_open] at hbytes
    have hprefix : x.2 ++ x.1.connection.sendMbuf <+: head ++ rangeOf file r1 0 := by
      rw [hwire]
      exact (List.prefix_append_right_inj _).mpr hbytes
    refine ⟨hgoing.fault, hprefix, fun _ => hsome, ?_⟩
    -- something is missing as long as something is in flight
    have hlength := hprefix.length_le
    have hflight := List.length_pos_iff.mpr hsome
    rw [List.length_append] at hlength
    rw [hgoing.live]
    constructor
    · intro hclosed
      cases hclosed
    · intro hall
      rw [← hall] at hlength
      omega
  · rw [hended.empty, hended.appended, List.append_nil] at hwire
    refine ⟨hended.fault, ?_, fun hlive => ?_, fun _ => hwire, fun _ => hended.closed⟩
    · rw [hended.empty, hwire, List.append_nil]
    · rw [hended.closed] at hlive
      cases hlive

/-- A session that closes itself in the end: what leaves brings it nearer. -/
theorem Flows.step_length {x : Client × List UInt8} (h : Flows limit file r1 head x) :
    (flowStep limit x e).2.length = x.2.length + x.1.leaving e := by
  unfold flowStep
  rw [if_neg (by rw [h.fault]; exact Bool.false_ne_true)]
  show (x.2 ++ x.1.connection.sendMbuf.take (x.1.leaving e)).length = _
  rw [List.length_append, List.length_take_of_le (leaving_le e)]

end going

/-- The head and the rest of the file. -/
def wholeAnswer (limit : Nat) (file : List UInt8) (task : Nat) (r1 : Int) (v : TaskView)
    (c : Client) : List UInt8 :=
  (c.openSession task .get r1 0 v).head limit v ++ rangeOf file r1 0

/-- How many bytes of the answer have not left yet. -/
def missing (answer : List UInt8) (x : Client × List UInt8) : Nat :=
  answer.length - x.2.length

/-- **A cached file is delivered.** The answer to an open-ended `GET`, if the
    task has all of the file whenever the session is called and the head is
    not longer than half of the buffer: over every run, also when the task
    reports errors, it is on its way, and the connection takes something no
    more often than the answer has bytes. -/
theorem cached_file_delivered (p : Platform) (file : List UInt8) (c : Client) (task : Nat)
    (rangeHdr : Option (List Char)) (r1 : Int) (v : TaskView) (es : List SessionEvent)
    (hfault : c.fault = none) (hopen : c.connection.sendAndClose = false)
    (hempty : c.connection.sendMbuf = []) (hfile : file.length < 2 ^ 63)
    (hrange : requestedRange rangeHdr = some (r1, 0)) (hr1 : 0 ≤ r1) (hinside : r1 < file.length)
    (hv : v.Complete file)
    (hhead : ((c.openSession task .get r1 0 v).head p.sendBufLimit v).length ≤ p.sendBufLimit / 2)
    (hes : ∀ e ∈ es, Fed file e) :
    OnItsWay (c.wholeAnswer p.sendBufLimit file task r1 v)
        (run (flowStep p.sendBufLimit)
          (c.step p.sendBufLimit (.request task .get rangeHdr v), []) es) ∧
      occurrences (flowStep p.sendBufLimit) (fun x e => 0 < x.1.leaving e)
          (c.step p.sendBufLimit (.request task .get rangeHdr v), []) es ≤
        (c.wholeAnswer p.sendBufLimit file task r1 v).length := by
  have hlimit := p.sendBufLimit_le
  have hpos := p.sendBufLimit_pos
  generalize p.sendBufLimit = limit at *
  have hrequest : c.step limit (.request task .get rangeHdr v) =
      ((c.openSession task .get r1 0 v).tryTransfer limit v).closeIfNeed v := by
    unfold Client.step
    rw [if_neg (by rw [hfault]; exact Bool.false_ne_true)]
    dsimp only
    rw [hrange]
  rw [hrequest]
  have hstart := openSession_flows hv hpos hlimit hfile hopen hempty hrange hr1 hinside hhead
  unfold wholeAnswer
  generalize (c.openSession task .get r1 0 v).head limit v = head at *
  have hstep : ∀ x e, Flows limit file r1 head x → Fed file e →
      Flows limit file r1 head (flowStep limit x e) :=
    fun x e h he => h.step hpos hlimit hfile he
  -- the rank is how many bytes have not left yet
  have hrank : ∀ x e, Flows limit file r1 head x → Fed file e →
      missing (head ++ rangeOf file r1 0) (flowStep limit x e) +
        (if 0 < x.1.leaving e then 1 else 0) ≤ missing (head ++ rangeOf file r1 0) x := by
    intro x e h he
    have hlength := h.step_length (e := e)
    have hbound := (hstep x e h he).onItsWay.inOrder.length_le
    rw [List.length_append] at hbound
    unfold missing
    split
    · omega
    · omega
  refine ⟨(run_invariant hstep hstart (along_of_forall hes)).onItsWay, ?_⟩
  have hranked := run_ranked (p := fun x e => 0 < x.1.leaving e) hstep hrank hstart
    (along_of_forall hes)
  exact Nat.le_trans (Nat.le_add_left _ _) (Nat.le_trans hranked (Nat.sub_le _ _))

/-- A storage with a file of three bytes. -/
def storedThree : MemStorage :=
  ((msMemStorageOpen.setFilesize 3).bind fun st => st.storageWrite [7, 8, 9] 0).elim
    msMemStorageOpen Prod.fst

theorem storedThree_intact : storedThree.Intact [7, 8, 9] := by
  unfold storedThree
  cases hsize : msMemStorageOpen.setFilesize 3 with
  | none => exact MemStorage.msMemStorageOpen_intact _
  | some st =>
    have hsized : st.Intact [7, 8, 9] :=
      (MemStorage.msMemStorageOpen_intact [7, 8, 9]).setFilesize hsize
    rw [Option.bind_some]
    cases hwrite : st.storageWrite [7, 8, 9] 0 with
    | none => exact MemStorage.msMemStorageOpen_intact _
    | some stored => exact hsized.storageWrite (List.prefix_refl _) hwrite

/-- The task of that storage, with an error or without. -/
def viewThree (errno : Int) : TaskView :=
  TaskView.ofStorage storedThree "video/mp4".toList errno

theorem viewThree_complete (errno : Int) : (viewThree errno).Complete [7, 8, 9] :=
  TaskView.ofStorage_complete storedThree_intact (by decide +kernel) (by decide +kernel)

/-- The file is asked for, and bytes leave twice. In between the task reports
    an error. -/
theorem cached_file_delivered_three :
    OnItsWay
        (acceptedClient.wholeAnswer Platform.embedded.sendBufLimit [7, 8, 9] 0 1 (viewThree 0))
        (run (flowStep Platform.embedded.sendBufLimit)
          (acceptedClient.step Platform.embedded.sendBufLimit
            (.request 0 .get (some "bytes=1-".toList) (viewThree 0)), [])
          [.sent 5 (viewThree 0), .error (viewThree 502), .sent 300 (viewThree 502)]) ∧
      occurrences (flowStep Platform.embedded.sendBufLimit) (fun x e => 0 < x.1.leaving e)
          (acceptedClient.step Platform.embedded.sendBufLimit
            (.request 0 .get (some "bytes=1-".toList) (viewThree 0)), [])
          [.sent 5 (viewThree 0), .error (viewThree 502), .sent 300 (viewThree 502)] ≤
        (acceptedClient.wholeAnswer Platform.embedded.sendBufLimit [7, 8, 9] 0 1
          (viewThree 0)).length :=
  cached_file_delivered .embedded [7, 8, 9] acceptedClient 0 (some "bytes=1-".toList) 1
    (viewThree 0) [.sent 5 (viewThree 0), .error (viewThree 502), .sent 300 (viewThree 502)]
    rfl rfl rfl (by decide) (by decide) (by decide) (by decide) (viewThree_complete 0)
    (by decide +kernel) (by
      intro e he
      simp only [List.mem_cons, List.not_mem_nil, or_false] at he
      rcases he with rfl | rfl | rfl
      · exact ⟨by rintro ⟨⟩, fun v hv => Option.some.inj hv ▸ viewThree_complete 0⟩
      · exact ⟨by rintro ⟨⟩, fun v hv => Option.some.inj hv ▸ viewThree_complete 502⟩
      · exact ⟨by rintro ⟨⟩, fun v hv => Option.some.inj hv ▸ viewThree_complete 502⟩)

end Client

end Libms
