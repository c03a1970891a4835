import Mathlib
import Libms.Session.MsSession

/-! # What a transfer does

    One call of `try_transfer_data`, and one call of `on_send`, as a relation
    between the states before and after it, with one constructor for each
    way through the function.

    * `Transfer`, `Body`: the ways through `try_transfer_data`.
    * `Counted`: the ways through `on_send`.
    * `sendBody_eq`, `sendBody_wraps`: what `mg_send` is given.
    * `headText_length`: how long a head can get. -/

namespace Libms

open CInt Text

theorem Platform.sendBufLimit_le (p : Platform) : p.sendBufLimit ≤ 4096 := by
  cases p <;> decide

/-- A head is not much longer than the headers it is given. -/
theorem headText_length {code len : Int} (extra : List Char) (hcode : code = 200 ∨ code = 206)
    (hlen : len.natAbs < 10 ^ 20) :
    (Connection.headText code len extra).length ≤ extra.length + 150 := by
  have hdigits := printInt_length_le (by decide) hlen
  have hline : (printInt code ++ " ".toList ++ mgStatusMessage code).length ≤ 30 := by
    rcases hcode with rfl | rfl
    · decide
    · decide
  unfold Connection.headText
  simp only [List.length_append] at hline ⊢
  split <;> split <;>
    simp only [List.length_append, List.length_nil, String.reduceToList, List.length_cons] <;>
    omega

theorem bytesOf_length (t : List Char) : (bytesOf t).length = t.length :=
  List.length_map _

namespace Client

variable {limit : Nat} {v : TaskView} {c : Client}

/-! ## Through `try_transfer_data` -/

/-- The condition that `try_transfer_data` asserts first. -/
def Balanced (c : Client) : Prop :=
  c.session.sending + c.session.headerSending = c.connection.sendMbuf.length

instance (c : Client) : Decidable c.Balanced := inferInstanceAs (Decidable (_ = _))

/-- After the look at the first kilobyte and the head. -/
def headed (limit : Nat) (v : TaskView) (m : Bool) (c : Client) : Client :=
  (c.setSession { c.session with isMedia := m }).sendHead limit v

/-- The ways through `try_transfer_data`. -/
inductive Transfer (limit : Nat) (v : TaskView) (c : Client) : Client → Prop
  | entry (h : ¬ c.Balanced) : Transfer limit v c (c.fail .entry)
  | idle (h : c.Balanced) (hready : ¬ Ready limit v c.session) : Transfer limit v c c
  | storage (h : c.Balanced) (hready : Ready limit v c.session) :
      Transfer limit v c (c.fail .storage)
  | head (m : Bool) (h : c.Balanced) (hready : Ready limit v c.session)
      (hmethod : c.session.method = .head) :
      Transfer limit v c
        { c.headed limit v m with
          connection := { (c.headed limit v m).connection with sendAndClose := true } }
  | body (m : Bool) (h : c.Balanced) (hready : Ready limit v c.session)
      (hmethod : c.session.method = .get) :
      Transfer limit v c ((c.headed limit v m).body limit v)

theorem probe_cases (v : TaskView) (c : Client) :
    c.probe v = c.fail .storage ∨
      ∃ m, c.probe v = c.setSession { c.session with isMedia := m } := by
  unfold probe
  split
  · cases v.read 0 (min 1024 (sizeT v.filesize)) with
    | none => exact Or.inl rfl
    | some bytes => exact Or.inr ⟨_, rfl⟩
  · exact Or.inr ⟨c.session.isMedia, rfl⟩

theorem sendHead_method : (c.sendHead limit v).session.method = c.session.method := by
  unfold sendHead
  split <;> rfl

theorem tryTransfer_transfer (hfault : c.fault = none) :
    Transfer limit v c (c.tryTransfer limit v) := by
  unfold tryTransfer
  split
  · rename_i h
    exact .entry h
  · rename_i h
    have hbalanced : c.Balanced := by
      by_contra hnot
      exact h hnot
    split
    · rename_i hready
      unfold transfer
      rcases probe_cases v c with hprobe | ⟨m, hprobe⟩
      · rw [hprobe]
        exact .storage hbalanced hready
      · -- the look at the first bytes changes `is_media` only
        rw [hprobe]
        have hnone : (c.setSession { c.session with isMedia := m }).fault.isSome = false := by
          show c.fault.isSome = false
          rw [hfault]
          rfl
        have hmethod : ((c.setSession { c.session with isMedia := m }).sendHead limit
            v).session.method = c.session.method := sendHead_method
        simp only [hnone, hmethod, Bool.false_eq_true, if_false]
        by_cases hhead : c.session.method = .head
        · rw [if_pos hhead]
          exact .head m hbalanced hready hhead
        · have hget : c.session.method = .get := by
            cases hm : c.session.method with
            | get => rfl
            | head => exact absurd hm hhead
          rw [if_neg hhead]
          exact .body m hbalanced hready hget
    · rename_i hready
      exact .idle hbalanced hready

/-! ## The head -/

/-- A head that is already out stays. -/
theorem headed_of_sent {m : Bool} (hsent : c.connection.headerSend = true) :
    c.headed limit v m = c.setSession { c.session with isMedia := m } :=
  if_pos hsent

/-- The head of a session that has sent nothing. -/
def head (limit : Nat) (v : TaskView) (c : Client) : List UInt8 :=
  bytesOf <| Connection.headText (if c.session.method = .head then 200 else 206) c.session.len
    (headerStr limit v c.session)

theorem headed_of_fresh {m : Bool} (hunsent : c.connection.headerSend = false) :
    c.headed limit v m =
      { c with
        connection :=
          { c.connection with
            sendMbuf := c.connection.sendMbuf ++ c.head limit v
            headerSend := true }
        session :=
          { c.session with
            isMedia := m
            headerSending := c.session.headerSending +
              (c.connection.sendMbuf ++ c.head limit v).length } } := by
  have hnot : ¬ (c.setSession { c.session with isMedia := m }).connection.headerSend = true := by
    show ¬ c.connection.headerSend = true
    rw [hunsent]
    decide
  exact if_neg hnot

theorem headed_headerSend {m : Bool} : (c.headed limit v m).connection.headerSend = true := by
  cases hsent : c.connection.headerSend with
  | true =>
    rw [headed_of_sent hsent]
    exact hsent
  | false => rw [headed_of_fresh hsent]

/-- Of the session the head touches `header_sending` only. -/
theorem headed_session {m : Bool} : ∃ unsent,
    (c.headed limit v m).session = { c.session with isMedia := m, headerSending := unsent } := by
  cases hsent : c.connection.headerSend with
  | true => exact ⟨c.session.headerSending, by rw [headed_of_sent hsent]; rfl⟩
  | false => exact ⟨_, by rw [headed_of_fresh hsent]⟩

theorem headed_frame {m : Bool} : (c.headed limit v m).log = c.log ∧
    (c.headed limit v m).fault = c.fault ∧ (c.headed limit v m).live = c.live := by
  unfold headed sendHead
  split <;> exact ⟨rfl, rfl, rfl⟩

/-- A session that is ready stays ready behind its head. -/
theorem headed_ready {m : Bool} (h : Ready limit v c.session) :
    Ready limit v (c.headed limit v m).session := by
  obtain ⟨unsent, hsession⟩ := @headed_session limit v c m
  rw [hsession]
  exact h

/-! ## The body part -/

/-- The session after a read of the body part. -/
def took (limit : Nat) (v : TaskView) (bytes : List UInt8) (c : Client) : Client :=
  { c with
    session := { c.session with buf := c.session.buf ++ bytes }
    log :=
      { c.log with
        asked := c.log.asked ++ [(c.readFrom, wanted limit v c.session c.readFrom)] } }

/-- The first range assert fails: the read would go past the range. -/
def PastRange (limit : Nat) (v : TaskView) (c : Client) : Prop :=
  c.session.reqLen ≠ 0 ∧ c.session.reqPos + c.session.reqLen <
    c.readFrom + toInt64 (wanted limit v c.session c.readFrom)

/-- The ways through the body part. -/
inductive Body (limit : Nat) (v : TaskView) (c : Client) : Client → Prop
  | range (h : c.PastRange limit v) : Body limit v c (c.fail .range)
  | storage (h : ¬ c.PastRange limit v) : Body limit v c ((c.took limit v []).fail .storage)
  | empty (bytes : List UInt8) (h : ¬ c.PastRange limit v)
      (hread : v.read c.readFrom (wanted limit v c.session c.readFrom) = some bytes)
      (hbuf : c.session.buf ++ bytes = []) : Body limit v c (c.took limit v bytes)
  | send (bytes : List UInt8) (h : ¬ c.PastRange limit v)
      (hread : v.read c.readFrom (wanted limit v c.session c.readFrom) = some bytes)
      (hbuf : c.session.buf ++ bytes ≠ []) :
      Body limit v c ((c.took limit v bytes).sendBody limit)

theorem body_body : Body limit v c (c.body limit v) := by
  unfold body
  by_cases hpast : c.PastRange limit v
  · simp only [if_pos (show _ ∧ _ from hpast)]
    exact .range hpast
  · simp only [if_neg (show ¬ (_ ∧ _) from hpast)]
    cases hread : v.read c.readFrom (wanted limit v c.session c.readFrom) with
    | none =>
      have h := Body.storage hpast
      rw [show c.took limit v [] = { c with
        log :=
          { c.log with
            asked := c.log.asked ++ [(c.readFrom, wanted limit v c.session c.readFrom)] } } by
        simp [took]] at h
      exact h
    | some bytes =>
      show Body limit v c (if (c.session.buf ++ bytes).length = 0 then c.took limit v bytes
        else (c.took limit v bytes).sendBody limit)
      split
      · rename_i hbuf
        exact .empty bytes hpast hread (List.length_eq_zero_iff.mp hbuf)
      · rename_i hbuf
        exact .send bytes hpast hread fun h => hbuf (List.length_eq_zero_iff.mpr h)

/-! ## The end of `try_transfer_data` -/

/-- `len -= header_sending` wraps. -/
def Wraps (limit : Nat) (s : Session) : Prop :=
  limit < s.buf.length + s.headerSending ∧ s.buf.length < s.headerSending

instance (limit : Nat) (s : Session) : Decidable (Wraps limit s) :=
  inferInstanceAs (Decidable (_ ∧ _))

/-- The first `k` bytes of the session's buffer are moved to the send buffer. -/
def move (k : Nat) (c : Client) : Client :=
  { c with
    connection :=
      { c.connection with sendMbuf := c.connection.sendMbuf ++ c.session.buf.take k }
    session :=
      { c.session with
        sending := c.session.sending + k
        buf := c.session.buf.drop k }
    log := { c.log with appended := c.log.appended ++ c.session.buf.take k } }

/-- After a wrap `sending` has lost the bytes of the head. -/
def wrap (c : Client) : Client :=
  { c with
    session :=
      { c.session with
        sending := c.session.sending + c.session.buf.length - c.session.headerSending }
    log := { c.log with wrapped := true } }

/-- Without a wrap some bytes are moved, if the second range assert holds. -/
theorem sendBody_eq (hsmall : c.session.buf.length < 2 ^ 31) (hwraps : ¬ Wraps limit c.session)
    (hrange : c.session.reqLen ≠ 0 →
      c.session.pos + c.session.sending + c.session.buf.length ≤
        c.session.reqPos + c.session.reqLen) :
    ∃ k ≤ c.session.buf.length, c.sendBody limit = c.move k := by
  -- all of the buffer, or all but as many bytes as the head has
  have hlen : ∃ k ≤ c.session.buf.length, sendLen limit c.session = (k : Int) := by
    unfold sendLen
    unfold Wraps at hwraps
    split
    · refine ⟨c.session.buf.length - c.session.headerSending, by omega, by omega⟩
    · exact ⟨c.session.buf.length, le_refl _, rfl⟩
  obtain ⟨k, hk, hlen⟩ := hlen
  refine ⟨k, hk, ?_⟩
  have hsize : sizeT (k : Int) = k := sizeT_natCast (by omega)
  have hsend : toInt32 (k : Int) = k := toInt32_of_range (by omega) (by omega)
  have hword : toInt64 (k : Int) = k := toInt64_of_range (by omega) (by omega)
  have hnc : c.connection.mgSend c.session.buf (k : Int) =
      { c.connection with sendMbuf := c.connection.sendMbuf ++ c.session.buf.take k } := by
    unfold Connection.mgSend
    rw [if_neg (by omega), Int.toNat_natCast]
  have hassert : ¬ (c.session.reqLen ≠ 0 ∧ c.session.reqPos + c.session.reqLen <
      c.session.pos + c.session.sending + (k : Int)) := by
    intro h
    have := hrange h.1
    omega
  unfold sendBody
  simp only [hlen, hsize, hsend, hword, hnc, hassert, if_false, if_pos hk, List.drop_left',
    setSession]
  unfold move
  simp

/-- After a wrap `mg_send` gets nothing through, and `sending` is short of
    what is in the send buffer. -/
theorem sendBody_wraps (hhead : c.session.headerSending < 2 ^ 31)
    (hwraps : Wraps limit c.session)
    (hrange : c.session.reqLen ≠ 0 →
      c.session.pos + c.session.sending ≤ c.session.reqPos + c.session.reqLen) :
    c.sendBody limit = c.wrap := by
  obtain ⟨hover, hless⟩ := hwraps
  have hlen : sendLen limit c.session =
      (c.session.buf.length : Int) - c.session.headerSending := if_pos hover
  have hneg : (c.session.buf.length : Int) - c.session.headerSending < 0 := by omega
  -- as a `size_t` the length is huge, as the `int` of `mg_send` it is negative
  have hsend := toInt32_sizeT_of_neg (by omega) hneg
  have hword : toInt64 (sizeT ((c.session.buf.length : Int) - c.session.headerSending)) =
      (c.session.buf.length : Int) - c.session.headerSending :=
    toInt64_sizeT (by omega) (by omega)
  have hnc : c.connection.mgSend c.session.buf
      ((c.session.buf.length : Int) - c.session.headerSending) = c.connection := by
    unfold Connection.mgSend
    rw [if_pos hneg]
  have hassert : ¬ (c.session.reqLen ≠ 0 ∧ c.session.reqPos + c.session.reqLen <
      c.session.pos + c.session.sending +
        ((c.session.buf.length : Int) - c.session.headerSending)) := by
    intro h
    have := hrange h.1
    omega
  -- `mbuf_remove` refuses to remove that much
  have hkept : ¬ sizeT ((c.session.buf.length : Int) - c.session.headerSending) ≤
      c.session.buf.length := by
    have := sizeT_of_neg (by omega) hneg
    omega
  unfold sendBody
  simp only [hlen, hsend, hword, hnc, hassert, hkept, if_false, setSession]
  unfold wrap
  simp [hless, add_sub_assoc]

/-! ## Through `on_send` -/

/-- The state after `n` bytes have left the send buffer and are counted. -/
def counted (n : Nat) (c : Client) : Client :=
  { c with
    connection := { c.connection with sendMbuf := c.connection.sendMbuf.drop n }
    session := countBody (countHead n c.session).2 (countHead n c.session).1 }

/-- Head bytes leave before body bytes. -/
theorem countHead_spec (n : Nat) (s : Session) :
    ∃ h k, countHead n s = ({ s with headerSending := h }, k) ∧
      h + n = s.headerSending + k ∧ (h = 0 ∨ k = 0) := by
  unfold countHead
  split
  · split
    · exact ⟨_, _, rfl, by omega, by omega⟩
    · exact ⟨_, _, rfl, by omega, by omega⟩
  · have hzero : s.headerSending = 0 := by omega
    exact ⟨0, n, by rw [← hzero], by omega, by omega⟩

/-- The ways through `ms_session_close_if_need`. -/
inductive Closing (v : TaskView) (c : Client) : Client → Prop
  | none : Closing v c c
  | close (hsent : c.connection.headerSend = true) (hsending : c.session.sending = 0)
      (hhead : c.session.headerSending = 0) :
      Closing v c { c with connection := { c.connection with sendAndClose := true } }
  | reply (hsent : c.connection.headerSend = false) (hopen : c.connection.sendAndClose = false) :
      Closing v c
        { c with
          connection := c.connection.mgHttpSendError v.errno
          log :=
            { c.log with
              errorBytes := c.log.errorBytes + (Connection.errorText v.errno).length } }

theorem closeIfNeed_closing : Closing v c (c.closeIfNeed v) := by
  unfold closeIfNeed
  split
  · exact .none
  · split
    · exact .none
    · rename_i hneed
      split
      · rename_i hsent
        exact .close hsent (by omega) (by omega)
      · rename_i hsent
        split
        · rename_i hopen
          exact .reply (Bool.eq_false_iff.mpr hsent) hopen
        · exact .none

/-- `ms_session_close_if_need` hands no body byte to `mg_send`. -/
theorem closing_frame {c' : Client} (hc : Closing v c c') :
    c'.log.appended = c.log.appended ∧ c'.log.asked = c.log.asked ∧ c'.fault = c.fault ∧
      c'.live = c.live := by
  cases hc <;> exact ⟨rfl, rfl, rfl, rfl⟩

/-! ## What a transfer leaves alone -/

/-- The session is still open for the same range of the same task, and a
    closing connection is still closing. -/
structure SameReader (c c' : Client) : Prop where
  live : c'.live = c.live
  task : c'.session.task = c.session.task
  pos : c'.session.pos = c.session.pos
  len : c'.session.len = c.session.len
  reqPos : c'.session.reqPos = c.session.reqPos
  reqLen : c'.session.reqLen = c.session.reqLen
  closing : c.connection.sendAndClose = true → c'.connection.sendAndClose = true

theorem SameReader.trans {c'' : Client} (h : SameReader c c') (h' : SameReader c' c'') :
    SameReader c c'' where
  live := h'.live.trans h.live
  task := h'.task.trans h.task
  pos := h'.pos.trans h.pos
  len := h'.len.trans h.len
  reqPos := h'.reqPos.trans h.reqPos
  reqLen := h'.reqLen.trans h.reqLen
  closing := fun hclosing => h'.closing (h.closing hclosing)

theorem headed_sameReader (m : Bool) : SameReader c (c.headed limit v m) := by
  unfold headed sendHead
  split
  · exact ⟨rfl, rfl, rfl, rfl, rfl, rfl, id⟩
  · exact ⟨rfl, rfl, rfl, rfl, rfl, rfl, id⟩

theorem mgSend_sendAndClose (nc : Connection) (buf : List UInt8) (len : Int) :
    (nc.mgSend buf len).sendAndClose = nc.sendAndClose := by
  unfold Connection.mgSend
  split <;> rfl

/-- The client as it is put together at the end of a transfer. -/
theorem sameReader_of_parts {nc : Connection} {s : Session} {log : Log} {fault : Option Fault}
    (htask : s.task = c.session.task) (hpos : s.pos = c.session.pos) (hlen : s.len = c.session.len)
    (hreqPos : s.reqPos = c.session.reqPos) (hreqLen : s.reqLen = c.session.reqLen)
    (hclosing : c.connection.sendAndClose = true → nc.sendAndClose = true) :
    SameReader c ⟨nc, s, c.live, log, fault⟩ :=
  ⟨rfl, htask, hpos, hlen, hreqPos, hreqLen, hclosing⟩

theorem sendBody_sameReader : SameReader c (c.sendBody limit) := by
  have hclosing := mgSend_sendAndClose c.connection c.session.buf
    (toInt32 (sizeT (sendLen limit c.session)))
  unfold sendBody
  dsimp only
  split
  · exact sameReader_of_parts rfl rfl rfl rfl rfl fun h => hclosing.trans h
  · exact sameReader_of_parts rfl rfl rfl rfl rfl fun h => hclosing.trans h

/-- `try_transfer_data` leaves the reader alone. -/
theorem Transfer.sameReader (h : Transfer limit v c c') : SameReader c c' := by
  cases h with
  | entry => exact ⟨rfl, rfl, rfl, rfl, rfl, rfl, id⟩
  | idle => exact ⟨rfl, rfl, rfl, rfl, rfl, rfl, id⟩
  | storage => exact ⟨rfl, rfl, rfl, rfl, rfl, rfl, id⟩
  | head m => exact { @headed_sameReader limit v c m with closing := fun _ => rfl }
  | body m =>
    refine (@headed_sameReader limit v c m).trans ?_
    generalize c.headed limit v m = d
    have hbody := @body_body limit v d
    generalize d.body limit v = c' at hbody ⊢
    cases hbody with
    | range => exact ⟨rfl, rfl, rfl, rfl, rfl, rfl, id⟩
    | storage => exact ⟨rfl, rfl, rfl, rfl, rfl, rfl, id⟩
    | empty => exact ⟨rfl, rfl, rfl, rfl, rfl, rfl, id⟩
    | send bytes =>
      have htook : SameReader d (d.took limit v bytes) := ⟨rfl, rfl, rfl, rfl, rfl, rfl, id⟩
      exact htook.trans sendBody_sameReader

theorem Closing.sameReader (h : Closing v c c') : SameReader c c' := by
  cases h with
  | none => exact ⟨rfl, rfl, rfl, rfl, rfl, rfl, id⟩
  | close => exact ⟨rfl, rfl, rfl, rfl, rfl, rfl, fun _ => rfl⟩
  | reply => exact ⟨rfl, rfl, rfl, rfl, rfl, rfl, fun _ => rfl⟩

/-! ## Through `MG_EV_SEND` -/

/-- The ways through `MG_EV_SEND` of `n` bytes. -/
inductive Sent (limit : Nat) (v : TaskView) (n : Nat) (c : Client) : Client → Prop
  | ignored (h : c.connection.sendAndClose = true) :
      Sent limit v n c
        { c with
          connection := { c.connection with sendMbuf := c.connection.sendMbuf.drop n }
          log := { c.log with ignored := c.log.ignored + n } }
  | head (h : c.connection.sendAndClose = false) (hlen : c.session.len = 0) :
      Sent limit v n c
        { c with
          connection := { c.connection with sendMbuf := c.connection.sendMbuf.drop n }
          session := (countHead n c.session).1 }
  | drained (h : c.connection.sendAndClose = false) (s : Session)
      (hlen : 0 < c.session.len ∧ c.session.len < (countHead n c.session).2) :
      Sent limit v n c
        ({ c with
          connection := { c.connection with sendMbuf := c.connection.sendMbuf.drop n }
          session := s }.fail .drained)
  | finish (h : c.connection.sendAndClose = false) (hopen : c.session.len ≠ 0)
      (hlen : (c.counted n).session.len = 0) (hsending : (c.counted n).session.sending = 0) :
      Sent limit v n c { c.counted n with live := false }
  | transfer (h : c.connection.sendAndClose = false) (hopen : c.session.len ≠ 0)
      (hlen : (c.counted n).session.len ≠ 0 ∨ (c.counted n).session.sending ≠ 0)
      {c₁ c₂ : Client} (ht : Transfer limit v (c.counted n) c₁) (hc : Closing v c₁ c₂) :
      Sent limit v n c c₂

/-- On a closing connection `on_send` does nothing. -/
theorem Sent.of_closing {n : Nat} (hs : Sent limit v n c c')
    (hclosing : c.connection.sendAndClose = true) :
    c' = { c with
      connection := { c.connection with sendMbuf := c.connection.sendMbuf.drop n }
      log := { c.log with ignored := c.log.ignored + n } } := by
  have hnot : ¬ c.connection.sendAndClose = false := by
    rw [hclosing]
    exact Bool.noConfusion
  cases hs with
  | ignored => rfl
  | head hopen => exact absurd hopen hnot
  | drained hopen => exact absurd hopen hnot
  | finish hopen => exact absurd hopen hnot
  | transfer hopen => exact absurd hopen hnot

theorem sent_sent (n : Nat) (hlive : c.live = true) (hfault : c.fault = none) :
    Sent limit v n c (c.sent limit v n) := by
  obtain ⟨h, k, hcount, -, -⟩ := countHead_spec n c.session
  have hsent : c.sent limit v n = ({ c with
      connection := { c.connection with sendMbuf := c.connection.sendMbuf.drop n } } :
        Client).onSend limit v n := if_pos hlive
  rw [hsent]
  unfold onSend
  by_cases hclosing : c.connection.sendAndClose = true
  · rw [if_pos (by exact hclosing)]
    exact .ignored hclosing
  · have hopen : c.connection.sendAndClose = false := Bool.eq_false_iff.mpr hclosing
    rw [if_neg (by exact hclosing)]
    -- the head on its way does not change the length
    have hlen : (countHead n c.session).1.len = c.session.len := by rw [hcount]
    simp only [hlen]
    by_cases hzero : c.session.len = 0
    · rw [if_pos hzero]
      exact .head hopen hzero
    · rw [if_neg hzero]
      split
      · rename_i hshort
        exact .drained hopen _ hshort
      · show Sent limit v n c
          (if (c.counted n).session.len = 0 ∧ (c.counted n).session.sending = 0 then
            { c.counted n with live := false }
          else ((c.counted n).tryTransfer limit v).closeIfNeed v)
        split
        · rename_i hdone
          exact .finish hopen hzero hdone.1 hdone.2
        · rename_i hmore
          exact .transfer hopen hzero (by omega) (tryTransfer_transfer hfault) closeIfNeed_closing

end Client

end Libms
