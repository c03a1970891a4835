import Mathlib
import Libms.Framework.Runs
import Libms.Session.Stream

/-! # One response

    What a session appends to its connection, over all its events: nothing
    yet, a head with body bytes behind it, or an error reply.

    * `wireStep`: an event, with the bytes it appends.
    * `Wired`: the three states, by the flags of the connection.
    * `one_response`: a session gives one response, as long as no data comes
      once its error reply has left. `try_transfer_data` looks at
      `MS_F_HEADER_SEND` alone and then begins a second one. -/

namespace Libms

open Runs Text

/-- What happens to a session after its request. -/
inductive SessionEvent where
  | recv (v : TaskView)
  | contentSize (v : TaskView)
  | error (v : TaskView)
  | sent (n : Nat) (v : TaskView)
  | close

/-- The event of the client. -/
def SessionEvent.client : SessionEvent → Client.ClientEvent
  | .recv v => .recv v
  | .contentSize v => .contentSize v
  | .error v => .error v
  | .sent n v => .sent n v
  | .close => .close

/-- What the session sees of its task during the event. -/
def SessionEvent.view? : SessionEvent → Option TaskView
  | .recv v => some v
  | .contentSize v => some v
  | .error v => some v
  | .sent _ v => some v
  | .close => none

namespace Client

/-- How many bytes leave the send buffer. -/
def leaving (c : Client) : SessionEvent → Nat
  | .sent n _ => if 0 < n ∧ n ≤ c.connection.sendMbuf.length then n else 0
  | _ => 0

/-- The request, and the bytes that the session appends at once. -/
def openWire (limit task : Nat) (method : Method) (r1 r2 : Int) (v : TaskView) (c : Client) :
    Client × List UInt8 :=
  let c' := ((c.openSession task method r1 r2 v).tryTransfer limit v).closeIfNeed v
  (c', c'.connection.sendMbuf.drop c.connection.sendMbuf.length)

/-- One event, and the bytes appended so far. -/
def wireStep (limit : Nat) (x : Client × List UInt8) (e : SessionEvent) : Client × List UInt8 :=
  if x.1.fault.isSome then x
  else
    let c := x.1.step limit e.client
    (c, x.2 ++ c.connection.sendMbuf.drop (x.1.connection.sendMbuf.length - x.1.leaving e))

/-- At most one response is on the wire: a head and then body bytes only, or
    an error reply and nothing else. -/
inductive OneResponse (c : Client) : List UInt8 → Prop
  | silent (happended : c.log.appended = []) : OneResponse c []
  | answer (code len : Int) (extra : List Char) (hcode : code = 200 ∨ code = 206) :
      OneResponse c (bytesOf (Connection.headText code len extra) ++ c.log.appended)
  | error (code : Int) (happended : c.log.appended = []) :
      OneResponse c (bytesOf (Connection.errorText code))

/-- The condition on an event: data that comes for a session whose error
    reply was given and has left finds nothing to transfer. -/
def NoLateTransfer (limit : Nat) (x : Client × List UInt8) : SessionEvent → Prop
  | .recv v => x.1.live = true → 0 < x.1.log.errorBytes → x.1.connection.sendMbuf = [] →
      ¬ (Ready limit v x.1.session ∧ (x.1.probe v).fault = none)
  | _ => True

variable {limit : Nat} {v : TaskView} {c c' c'' : Client} {w x y : List UInt8}

/-! ## The ways through an event -/

/-- Bytes leave the send buffer. -/
def drain (n : Nat) (c : Client) : Client :=
  { c with connection := { c.connection with sendMbuf := c.connection.sendMbuf.drop n } }

/-- What an event of a session without a failed assert can do. -/
inductive Moved (limit : Nat) (c : Client) : SessionEvent → Client → Prop
  | idle (e : SessionEvent) (h : c.leaving e = 0) : Moved limit c e c
  | recv (v : TaskView) (hlive : c.live = true) :
      Moved limit c (.recv v) ((c.tryTransfer limit v).closeIfNeed v)
  | contentSize (v : TaskView) (hlive : c.live = true) :
      Moved limit c (.contentSize v) (c.onContentSizeFrom v)
  | error (v : TaskView) (hlive : c.live = true) : Moved limit c (.error v) (c.closeIfNeed v)
  | sent (n : Nat) (v : TaskView) (hpos : 0 < n) (hn : n ≤ c.connection.sendMbuf.length)
      (hlive : c.live = true) {c' : Client} (hs : Sent limit v n c c') :
      Moved limit c (.sent n v) c'
  | drain (n : Nat) (v : TaskView) (hpos : 0 < n) (hn : n ≤ c.connection.sendMbuf.length)
      (hover : c.live = false) : Moved limit c (.sent n v) (c.drain n)
  | close : Moved limit c .close { c with live := false }

theorem step_moved (e : SessionEvent) (hfault : c.fault = none) :
    Moved limit c e (c.step limit e.client) := by
  have hrunning : ¬ c.fault.isSome = true := by
    rw [hfault]
    exact Bool.false_ne_true
  unfold step
  rw [if_neg hrunning]
  cases e with
  | recv v =>
    dsimp only [SessionEvent.client]
    split
    · rename_i hlive
      exact .recv v hlive
    · exact .idle _ rfl
  | contentSize v =>
    dsimp only [SessionEvent.client]
    split
    · rename_i hlive
      exact .contentSize v hlive
    · exact .idle _ rfl
  | error v =>
    dsimp only [SessionEvent.client]
    split
    · rename_i hlive
      exact .error v hlive
    · exact .idle _ rfl
  | close => exact .close
  | sent n v =>
    dsimp only [SessionEvent.client]
    split
    · rename_i hn
      cases hlive : c.live with
      | true => exact .sent n v hn.1 hn.2 hlive (sent_sent n hlive hfault)
      | false =>
        -- there is no session to tell
        have hnot : ¬ (c.drain n).live = true := by
          show ¬ c.live = true
          rw [hlive]
          exact Bool.false_ne_true
        have hleft : c.sent limit v n = c.drain n := if_neg hnot
        rw [hleft]
        exact .drain n v hn.1 hn.2 hlive
    · rename_i hn
      exact .idle _ (if_neg hn)

theorem leaving_sent {n : Nat} (hpos : 0 < n) (hn : n ≤ c.connection.sendMbuf.length) :
    c.leaving (.sent n v) = n := if_pos ⟨hpos, hn⟩

/-! ## What a transfer appends -/

/-- Body bytes `x` were appended, and no flag of the head or the error reply
    has changed. -/
structure Adds (c c' : Client) (x : List UInt8) : Prop where
  sendMbuf : c'.connection.sendMbuf = c.connection.sendMbuf ++ x
  appended : c'.log.appended = c.log.appended ++ x
  headerSend : c'.connection.headerSend = c.connection.headerSend
  errorBytes : c'.log.errorBytes = c.log.errorBytes

theorem Adds.nothing (hnc : c'.connection.sendMbuf = c.connection.sendMbuf)
    (happended : c'.log.appended = c.log.appended)
    (hhead : c'.connection.headerSend = c.connection.headerSend)
    (herror : c'.log.errorBytes = c.log.errorBytes) : Adds c c' [] where
  sendMbuf := by rw [hnc, List.append_nil]
  appended := by rw [happended, List.append_nil]
  headerSend := hhead
  errorBytes := herror

theorem Adds.trans (h : Adds c c' x) (h' : Adds c' c'' y) : Adds c c'' (x ++ y) where
  sendMbuf := by rw [h'.sendMbuf, h.sendMbuf, List.append_assoc]
  appended := by rw [h'.appended, h.appended, List.append_assoc]
  headerSend := h'.headerSend.trans h.headerSend
  errorBytes := h'.errorBytes.trans h.errorBytes

/-- What `mg_send` takes of the buffer. -/
theorem mgSend_sendMbuf (nc : Connection) (buf : List UInt8) (len : Int) :
    ∃ x, (nc.mgSend buf len).sendMbuf = nc.sendMbuf ++ x ∧
      (nc.mgSend buf len).headerSend = nc.headerSend := by
  unfold Connection.mgSend
  split
  · exact ⟨[], (List.append_nil _).symm, rfl⟩
  · exact ⟨buf.take len.toNat, rfl, rfl⟩

theorem sendBody_adds : ∃ x, Adds c (c.sendBody limit) x := by
  obtain ⟨x, hmbuf, hhead⟩ := mgSend_sendMbuf c.connection c.session.buf
    (CInt.toInt32 (CInt.sizeT (sendLen limit c.session)))
  -- what the log records is what was appended to the send buffer
  have hnew : (c.connection.mgSend c.session.buf
      (CInt.toInt32 (CInt.sizeT (sendLen limit c.session)))).sendMbuf.drop
        c.connection.sendMbuf.length = x := by
    rw [hmbuf, List.drop_left]
  refine ⟨x, ?_⟩
  unfold sendBody
  dsimp only
  rw [hnew]
  split
  · exact ⟨hmbuf, rfl, hhead, rfl⟩
  · exact ⟨hmbuf, rfl, hhead, rfl⟩

theorem Body.adds (h : Body limit v c c') : ∃ x, Adds c c' x := by
  cases h with
  | range => exact ⟨[], .nothing rfl rfl rfl rfl⟩
  | storage => exact ⟨[], .nothing rfl rfl rfl rfl⟩
  | empty => exact ⟨[], .nothing rfl rfl rfl rfl⟩
  | send bytes =>
    obtain ⟨x, hx⟩ := @sendBody_adds limit (c.took limit v bytes)
    have htook : Adds c (c.took limit v bytes) [] := .nothing rfl rfl rfl rfl
    exact ⟨x, htook.trans hx⟩

/-- Behind the head only body bytes come. -/
theorem Transfer.adds (h : Transfer limit v c c') (hsent : c.connection.headerSend = true) :
    ∃ x, Adds c c' x := by
  have hheaded : ∀ m, Adds c (c.headed limit v m) [] := by
    intro m
    rw [headed_of_sent hsent]
    exact .nothing rfl rfl rfl rfl
  cases h with
  | entry => exact ⟨[], .nothing rfl rfl rfl rfl⟩
  | idle => exact ⟨[], .nothing rfl rfl rfl rfl⟩
  | storage => exact ⟨[], .nothing rfl rfl rfl rfl⟩
  | head m => exact ⟨[], { hheaded m with }⟩
  | body m =>
    obtain ⟨x, hx⟩ := (@body_body limit v (c.headed limit v m)).adds
    exact ⟨x, (hheaded m).trans hx⟩

/-- Before the head nothing is appended, or the head and body bytes are. -/
theorem Transfer.begins (h : Transfer limit v c c') (hunsent : c.connection.headerSend = false) :
    ((c' = c ∧ c.Balanced) ∨ ∃ f, c' = c.fail f) ∨
      ∃ x, Ready limit v c.session ∧
        c'.connection.sendMbuf = c.connection.sendMbuf ++ (c.head limit v ++ x) ∧
        c'.log.appended = c.log.appended ++ x ∧ c'.connection.headerSend = true ∧
        c'.log.errorBytes = c.log.errorBytes := by
  have hheaded : ∀ m, (c.headed limit v m).connection.sendMbuf =
      c.connection.sendMbuf ++ c.head limit v := by
    intro m
    rw [headed_of_fresh hunsent]
  have hlog : ∀ m, (c.headed limit v m).log = c.log := fun m => headed_frame.1
  cases h with
  | entry => exact Or.inl (Or.inr ⟨_, rfl⟩)
  | idle hbalanced => exact Or.inl (Or.inl ⟨rfl, hbalanced⟩)
  | storage => exact Or.inl (Or.inr ⟨_, rfl⟩)
  | head m _ hready =>
    refine Or.inr ⟨[], hready, ?_, ?_, headed_headerSend, congrArg Log.errorBytes (hlog m)⟩
    · rw [List.append_nil]
      exact hheaded m
    · rw [List.append_nil]
      exact congrArg Log.appended (hlog m)
  | body m _ hready =>
    obtain ⟨x, hx⟩ := (@body_body limit v (c.headed limit v m)).adds
    refine Or.inr ⟨x, hready, ?_, ?_, ?_, ?_⟩
    · rw [hx.sendMbuf, hheaded, List.append_assoc]
    · rw [hx.appended, hlog]
    · rw [hx.headerSend, headed_headerSend]
    · rw [hx.errorBytes, hlog]

/-! ## The states of a session -/

/-- The session has sent nothing, its head, or an error reply. -/
inductive Wired (c : Client) : List UInt8 → Prop
  | silent (hunsent : c.connection.headerSend = false) (herror : c.log.errorBytes = 0)
      (happended : c.log.appended = []) (hsending : c.session.sending = 0)
      (hhead : c.session.headerSending = 0) (hempty : c.fault = none → c.connection.sendMbuf = []) :
      Wired c []
  | answered (hsent : c.connection.headerSend = true) (herror : c.log.errorBytes = 0)
      (code len : Int) (extra : List Char) (hcode : code = 200 ∨ code = 206) :
      Wired c (bytesOf (Connection.headText code len extra) ++ c.log.appended)
  | refused (hunsent : c.connection.headerSend = false)
      (hclosing : c.connection.sendAndClose = true) (herror : 0 < c.log.errorBytes)
      (happended : c.log.appended = []) (hsending : c.session.sending = 0)
      (hhead : c.session.headerSending = 0) (code : Int) :
      Wired c (bytesOf (Connection.errorText code))

theorem Wired.oneResponse (h : Wired c w) : OneResponse c w := by
  cases h with
  | silent _ _ happended => exact .silent happended
  | answered _ _ code len extra hcode => exact .answer code len extra hcode
  | refused _ _ _ happended _ _ code => exact .error code happended

/-- Body bytes behind a head. -/
theorem Wired.adds (h : Wired c w) (hsent : c.connection.headerSend = true) (hx : Adds c c' x) :
    Wired c' (w ++ x) := by
  cases h with
  | silent hunsent => rw [hunsent] at hsent; cases hsent
  | refused hunsent => rw [hunsent] at hsent; cases hsent
  | answered _ herror code len extra hcode =>
    rw [List.append_assoc, ← hx.appended]
    exact .answered (hx.headerSend.trans hsent) (hx.errorBytes.trans herror) code len extra hcode

/-- Nothing is written, and the counters stay. Bytes may leave, the connection
    may be marked, and an assert may fail. -/
structure Unwritten (c c' : Client) : Prop where
  headerSend : c'.connection.headerSend = c.connection.headerSend
  sendAndClose : c.connection.sendAndClose = true → c'.connection.sendAndClose = true
  errorBytes : c'.log.errorBytes = c.log.errorBytes
  appended : c'.log.appended = c.log.appended
  sending : c'.session.sending = c.session.sending
  headerSending : c'.session.headerSending = c.session.headerSending
  empty : c.connection.sendMbuf = [] → c'.connection.sendMbuf = []
  fault : c'.fault = none → c.fault = none

theorem Wired.unwritten (h : Wired c w) (hu : Unwritten c c') : Wired c' w := by
  cases h with
  | silent hunsent herror happended hsending hhead hempty =>
    exact .silent (hu.headerSend.trans hunsent) (hu.errorBytes.trans herror)
      (hu.appended.trans happended) (hu.sending.trans hsending) (hu.headerSending.trans hhead)
      fun hfault => hu.empty (hempty (hu.fault hfault))
  | answered hsent herror code len extra hcode =>
    rw [← hu.appended]
    exact .answered (hu.headerSend.trans hsent) (hu.errorBytes.trans herror) code len extra hcode
  | refused hunsent hclosing herror happended hsending hhead code =>
    have hpos : 0 < c'.log.errorBytes := hu.errorBytes.symm ▸ herror
    exact .refused (hu.headerSend.trans hunsent) (hu.sendAndClose hclosing) hpos
      (hu.appended.trans happended) (hu.sending.trans hsending) (hu.headerSending.trans hhead) code

theorem Wired.fail (h : Wired c w) (f : Fault) : Wired (c.fail f) w :=
  h.unwritten ⟨rfl, id, rfl, rfl, rfl, rfl, id, fun hnone => by cases hnone⟩

/-- A transfer of a session that gave no error reply. -/
theorem Wired.transfer (h : Wired c w) (herror : c.log.errorBytes = 0)
    (ht : Transfer limit v c c') :
    ∃ x, c'.connection.sendMbuf = c.connection.sendMbuf ++ x ∧ Wired c' (w ++ x) := by
  cases hsent : c.connection.headerSend with
  | true =>
    obtain ⟨x, hx⟩ := ht.adds hsent
    exact ⟨x, hx.sendMbuf, h.adds hsent hx⟩
  | false =>
    rcases ht.begins hsent with (⟨rfl, -⟩ | ⟨f, rfl⟩) | ⟨x, -, hmbuf, happended', hsent', herror'⟩
    · exact ⟨[], (List.append_nil _).symm, by rwa [List.append_nil]⟩
    · exact ⟨[], (List.append_nil _).symm, by rw [List.append_nil]; exact h.fail f⟩
    · refine ⟨_, hmbuf, ?_⟩
      cases h with
      -- the head is the first thing on the wire
      | silent _ _ happended =>
        rw [happended, List.nil_append] at happended'
        rw [List.nil_append, ← happended']
        refine .answered hsent' (herror'.trans herror) _ _ _ ?_
        split
        · exact Or.inl rfl
        · exact Or.inr rfl
      | answered hsent'' => rw [hsent] at hsent''; cases hsent''
      | refused _ _ hpos => omega

theorem errorText_length_pos (code : Int) : 0 < (Connection.errorText code).length := by
  have hstart : ∀ rest : List Char, 0 < ("HTTP/1.1 ".toList ++ rest).length := by
    intro rest
    rw [List.length_append]
    exact Nat.add_pos_left (by decide) _
  unfold Connection.errorText Connection.headText
  simp only [List.append_assoc]
  exact hstart _

/-- `ms_session_close_if_need`: the error reply is the first thing sent. -/
theorem Wired.closing (h : Wired c w) (hc : Closing v c c') :
    ∃ x, c'.connection.sendMbuf = c.connection.sendMbuf ++ x ∧ Wired c' (w ++ x) := by
  cases hc with
  | none => exact ⟨[], (List.append_nil _).symm, by rwa [List.append_nil]⟩
  | close hsent =>
    have hx : Adds c { c with connection := { c.connection with sendAndClose := true } } [] :=
      .nothing rfl rfl rfl rfl
    exact ⟨[], hx.sendMbuf, h.adds hsent hx⟩
  | reply hunsent hopen =>
    refine ⟨bytesOf (Connection.errorText v.errno), rfl, ?_⟩
    cases h with
    | silent _ herror happended hsending hhead _ =>
      refine @refused { c with
        connection := c.connection.mgHttpSendError v.errno
        log :=
          { c.log with
            errorBytes := c.log.errorBytes + (Connection.errorText v.errno).length } }
        hunsent rfl ?_ happended hsending hhead v.errno
      exact Nat.add_pos_right _ (errorText_length_pos v.errno)
    | answered hsent => rw [hunsent] at hsent; cases hsent
    | refused _ hclosing => rw [hopen] at hclosing; cases hclosing

theorem Unwritten.drain (n : Nat) : Unwritten c (c.drain n) := by
  refine ⟨rfl, id, rfl, rfl, rfl, rfl, ?_, id⟩
  intro hempty
  show c.connection.sendMbuf.drop n = []
  rw [hempty, List.drop_nil]

/-- `MG_EV_SEND`: only behind a head something is appended. -/
theorem Wired.sent (h : Wired c w) {n : Nat} (hfault : c.fault = none) (hpos : 0 < n)
    (hn : n ≤ c.connection.sendMbuf.length) (hs : Sent limit v n c c') :
    ∃ x, c'.connection.sendMbuf = c.connection.sendMbuf.drop n ++ x ∧ Wired c' (w ++ x) := by
  cases hsent : c.connection.headerSend with
  | false =>
    cases h with
    | silent _ _ _ _ _ hempty =>
      -- there is nothing to leave
      rw [hempty hfault] at hn
      exact absurd hn (Nat.not_le.mpr hpos)
    | answered hsent' => rw [hsent] at hsent'; cases hsent'
    | refused hunsent hclosing herror happended hsending hhead code =>
      -- behind an error reply the connection is closing, and `on_send` ignores it all
      rw [hs.of_closing hclosing]
      have hw := @Wired.refused c hunsent hclosing herror happended hsending hhead code
      refine ⟨[], (List.append_nil _).symm, ?_⟩
      rw [List.append_nil]
      exact hw.unwritten { @Unwritten.drain c n with }
  | true =>
    -- `d` is the client when the bytes have left
    generalize hd : c.drain n = d
    have hw : Wired d w := hd ▸ h.unwritten (.drain n)
    have hmbuf : d.connection.sendMbuf = c.connection.sendMbuf.drop n := by rw [← hd]; rfl
    have hdsent : d.connection.headerSend = true := by rw [← hd]; exact hsent
    rw [← hmbuf]
    have hadded : ∀ {c' x}, Adds d c' x →
        ∃ x, c'.connection.sendMbuf = d.connection.sendMbuf ++ x ∧ Wired c' (w ++ x) :=
      fun hx => ⟨_, hx.sendMbuf, hw.adds hdsent hx⟩
    cases hs with
    | ignored => exact hadded (by subst hd; exact .nothing rfl rfl rfl rfl)
    | head => exact hadded (by subst hd; exact .nothing rfl rfl rfl rfl)
    | drained => exact hadded (by subst hd; exact .nothing rfl rfl rfl rfl)
    | finish => exact hadded (by subst hd; exact .nothing rfl rfl rfl rfl)
    | transfer _ _ _ ht hc =>
      have hcounted : Adds d (c.counted n) [] := by
        subst hd
        exact .nothing rfl rfl rfl rfl
      obtain ⟨x, hx⟩ := ht.adds (hcounted.headerSend.trans hdsent)
      have hx' := hcounted.trans hx
      obtain ⟨y, hy, hw'⟩ := (hw.adds hdsent hx').closing hc
      refine ⟨[] ++ x ++ y, ?_, ?_⟩
      · rw [hy, hx'.sendMbuf, List.append_assoc]
      · rw [← List.append_assoc]
        exact hw'

/-- A transfer that finds nothing to do, or fails, after an error reply. -/
theorem refused_transfer (hfault : c.fault = none) (hsending : c.session.sending = 0)
    (hhead : c.session.headerSending = 0)
    (hlate : c.connection.sendMbuf = [] →
      ¬ (Ready limit v c.session ∧ (c.probe v).fault = none)) :
    c.tryTransfer limit v = c ∨ ∃ f, c.tryTransfer limit v = c.fail f := by
  unfold tryTransfer
  split
  · exact Or.inr ⟨_, rfl⟩
  · rename_i hbalanced
    rw [hsending, hhead] at hbalanced
    have hempty : c.connection.sendMbuf = [] := by
      apply List.length_eq_zero_iff.mp
      omega
    split
    · rename_i hready
      -- the look at the first kilobyte must have failed
      rcases probe_cases v c with hprobe | ⟨m, hprobe⟩
      · refine Or.inr ⟨.storage, ?_⟩
        unfold transfer
        rw [hprobe]
        rfl
      · have hnone : (c.probe v).fault = none := by
          rw [hprobe]
          exact hfault
        exact absurd ⟨hready, hnone⟩ (hlate hempty)
    · exact Or.inl rfl

/-- `on_recv` -/
theorem Wired.recv (h : Wired c w) (limit : Nat) (v : TaskView) (hfault : c.fault = none)
    (hlate : 0 < c.log.errorBytes → c.connection.sendMbuf = [] →
      ¬ (Ready limit v c.session ∧ (c.probe v).fault = none)) :
    ∃ x, ((c.tryTransfer limit v).closeIfNeed v).connection.sendMbuf =
      c.connection.sendMbuf ++ x ∧ Wired ((c.tryTransfer limit v).closeIfNeed v) (w ++ x) := by
  have htransfer : ∃ x, (c.tryTransfer limit v).connection.sendMbuf =
      c.connection.sendMbuf ++ x ∧ Wired (c.tryTransfer limit v) (w ++ x) := by
    -- behind an error reply nothing may be transferred any more
    rcases Nat.eq_zero_or_pos c.log.errorBytes with herror | herror
    · exact h.transfer herror (tryTransfer_transfer hfault)
    · cases h with
      | silent _ hzero => omega
      | answered _ hzero => omega
      | refused hunsent hclosing _ happended hsending hhead code =>
        have hw := @refused c hunsent hclosing herror happended hsending hhead code
        refine ⟨[], ?_, ?_⟩
        · rcases refused_transfer hfault hsending hhead (hlate herror) with hsame | ⟨f, hfail⟩
          · rw [hsame, List.append_nil]
          · rw [hfail, List.append_nil]
            rfl
        · rw [List.append_nil]
          rcases refused_transfer hfault hsending hhead (hlate herror) with hsame | ⟨f, hfail⟩
          · rw [hsame]
            exact hw
          · rw [hfail]
            exact hw.fail f
  obtain ⟨x, hx, hw⟩ := htransfer
  obtain ⟨y, hy, hw'⟩ := hw.closing (@closeIfNeed_closing v (c.tryTransfer limit v))
  refine ⟨x ++ y, ?_, ?_⟩
  · rw [hy, hx, List.append_assoc]
  · rw [← List.append_assoc]
    exact hw'

/-- `on_content_size_from` touches the length only. -/
theorem Wired.contentSize (h : Wired c w) : Wired (c.onContentSizeFrom v) w := by
  unfold onContentSizeFrom
  split
  · exact h
  · split
    · exact h.unwritten ⟨rfl, id, rfl, rfl, rfl, rfl, id, id⟩
    · exact h

theorem Wired.close (h : Wired c w) : Wired { c with live := false } w :=
  h.unwritten ⟨rfl, id, rfl, rfl, rfl, rfl, id, id⟩

/-! ## Runs -/

/-- The request: the session starts silent. -/
theorem openWire_wired (limit task : Nat) (method : Method) (r1 r2 : Int) (v : TaskView)
    (c : Client) : Wired (openWire limit task method r1 r2 v c).1
      (openWire limit task method r1 r2 v c).2 := by
  unfold openWire
  dsimp only
  generalize hopened : c.openSession task method r1 r2 v = d
  have hmbuf : d.connection.sendMbuf = c.connection.sendMbuf := by rw [← hopened]; rfl
  have hsilent : (d.fault = none → d.connection.sendMbuf = []) → Wired d [] := by
    subst hopened
    exact .silent rfl rfl rfl rfl rfl
  have hfault : d.fault = none := by rw [← hopened]; rfl
  have herror : d.log.errorBytes = 0 := by rw [← hopened]; rfl
  rw [← hmbuf]
  by_cases hempty : d.connection.sendMbuf = []
  · obtain ⟨x, hx, hw⟩ := (hsilent fun _ => hempty).recv limit v hfault
      (fun hpos => by omega)
    rw [hx, List.drop_left]
    exact hw
  · -- bytes of an older session are in flight: the entry assert fails
    have hentry : d.tryTransfer limit v = d.fail .entry := by
      unfold tryTransfer
      rw [if_pos]
      intro hbalanced
      have hzero : d.session.sending = 0 ∧ d.session.headerSending = 0 := by
        rw [← hopened]
        exact ⟨rfl, rfl⟩
      rw [hzero.1, hzero.2] at hbalanced
      exact hempty (List.length_eq_zero_iff.mp (by omega))
    have hstays : (d.fail .entry).closeIfNeed v = d.fail .entry := if_pos rfl
    rw [hentry, hstays]
    have hdrop : (d.fail .entry).connection.sendMbuf.drop d.connection.sendMbuf.length = [] :=
      List.drop_length
    rw [hdrop]
    subst hopened
    exact @Wired.silent (Client.fail _ .entry) rfl rfl rfl rfl rfl fun hnone => by cases hnone

theorem contentSize_sendMbuf :
    (c.onContentSizeFrom v).connection.sendMbuf = c.connection.sendMbuf := by
  unfold onContentSizeFrom
  split
  · rfl
  · split <;> rfl

/-- **Step lemma.** What is appended keeps the states of a session. -/
theorem step_wired {e : SessionEvent} (h : Wired c w) (hfault : c.fault = none)
    (he : NoLateTransfer limit (c, w) e) :
    ∃ x, (c.step limit e.client).connection.sendMbuf =
        c.connection.sendMbuf.drop (c.leaving e) ++ x ∧
      Wired (c.step limit e.client) (w ++ x) := by
  have hmoved := @step_moved limit c e hfault
  revert hmoved
  generalize c.step limit e.client = c'
  intro hmoved
  -- an event that neither sends nor appends
  have hsame : ∀ c' : Client, Wired c' w → c'.connection.sendMbuf = c.connection.sendMbuf →
      ∃ x, c'.connection.sendMbuf = c.connection.sendMbuf.drop 0 ++ x ∧ Wired c' (w ++ x) := by
    intro c' hw hmbuf
    exact ⟨[], by rw [hmbuf, List.append_nil, List.drop_zero], by rwa [List.append_nil]⟩
  cases hmoved with
  | idle e hnone =>
    rw [hnone]
    exact hsame c h rfl
  | recv v hlive => exact h.recv limit v hfault (he hlive)
  | contentSize v => exact hsame _ h.contentSize contentSize_sendMbuf
  | error v => exact h.closing closeIfNeed_closing
  | close => exact hsame _ h.close rfl
  | sent n v hpos hn _ hs =>
    rw [leaving_sent hpos hn]
    exact h.sent hfault hpos hn hs
  | drain n v hpos hn =>
    rw [leaving_sent hpos hn]
    exact ⟨[], (List.append_nil _).symm, by rw [List.append_nil]; exact h.unwritten (.drain n)⟩

theorem leaving_le (e : SessionEvent) : c.leaving e ≤ c.connection.sendMbuf.length := by
  unfold leaving
  split
  · split
    · rename_i hn
      exact hn.2
    · exact Nat.zero_le _
  · exact Nat.zero_le _

theorem wireStep_wired {x : Client × List UInt8} {e : SessionEvent} (h : Wired x.1 x.2)
    (he : NoLateTransfer limit x e) : Wired (wireStep limit x e).1 (wireStep limit x e).2 := by
  unfold wireStep
  split
  · exact h
  · rename_i hrunning
    obtain ⟨y, hy, hw⟩ := step_wired h (Option.not_isSome_iff_eq_none.mp hrunning) he
    have hdrop : (x.1.step limit e.client).connection.sendMbuf.drop
        (x.1.connection.sendMbuf.length - x.1.leaving e) = y := by
      rw [hy, ← List.length_drop, List.drop_left]
    dsimp only
    rw [hdrop]
    exact hw

/-- **One response.** From the request on, whatever happens to the session
    and the connection: if no data comes for a session whose error reply was
    given and has left, then there is at most one response on the wire. -/
theorem one_response (limit task : Nat) (method : Method) (r1 r2 : Int) (v : TaskView) (c : Client)
    (es : List SessionEvent)
    (hes : Along (wireStep limit) (NoLateTransfer limit)
      (openWire limit task method r1 r2 v c) es) :
    OneResponse (run (wireStep limit) (openWire limit task method r1 r2 v c) es).1
      (run (wireStep limit) (openWire limit task method r1 r2 v c) es).2 := by
  have hwired := run_invariant (P := fun x : Client × List UInt8 => Wired x.1 x.2)
    (fun x e hx he => wireStep_wired hx he) (openWire_wired limit task method r1 r2 v c) hes
  exact hwired.oneResponse

/-- Data for a request that is being answered. -/
theorem one_response_three :
    OneResponse
      (run (wireStep 4096) (openWire 4096 0 .get 0 3 (TaskView.ofFile [1, 2, 3]) acceptedClient)
        [.recv (TaskView.ofFile [1, 2, 3])]).1
      (run (wireStep 4096) (openWire 4096 0 .get 0 3 (TaskView.ofFile [1, 2, 3]) acceptedClient)
        [.recv (TaskView.ofFile [1, 2, 3])]).2 :=
  one_response 4096 0 .get 0 3 (TaskView.ofFile [1, 2, 3]) acceptedClient
    [.recv (TaskView.ofFile [1, 2, 3])] ⟨fun _ herror => absurd herror (by decide +kernel), trivial⟩

/-- Where body bytes are, there is a head before them. -/
theorem OneResponse.of_appended (h : OneResponse c w) (happended : c.log.appended ≠ []) :
    ∃ code len extra, (code = 200 ∨ code = 206) ∧
      w = bytesOf (Connection.headText code len extra) ++ c.log.appended := by
  cases h with
  | silent hnone => exact absurd hnone happended
  | error _ hnone => exact absurd hnone happended
  | answer code len extra hcode => exact ⟨code, len, extra, hcode, rfl⟩

/-- The status of a head is in its first twelve bytes. -/
theorem headText_status {code : Int} (hcode : code = 200 ∨ code = 206) (len : Int)
    (extra : List Char) (body : List UInt8) :
    (bytesOf (Connection.headText code len extra) ++ body).take 12 =
      bytesOf ("HTTP/1.1 ".toList ++ printInt code) := by
  have hlength : (bytesOf ("HTTP/1.1 ".toList ++ printInt code)).length = 12 := by
    rcases hcode with rfl | rfl <;> decide
  have hsplit : ∃ rest, bytesOf (Connection.headText code len extra) ++ body =
      bytesOf ("HTTP/1.1 ".toList ++ printInt code) ++ rest := by
    unfold Connection.headText bytesOf
    simp only [List.map_append, List.append_assoc]
    exact ⟨_, rfl⟩
  obtain ⟨rest, hrest⟩ := hsplit
  rw [hrest, ← hlength, List.take_left]

/-- A task that failed before it learned its size. -/
def failedTask : TaskView := ⟨0, [], 502, fun _ _ => none⟩

/-- The same task, when another of its pipes has brought the file. -/
def lateTask : TaskView := { TaskView.ofFile [1, 2, 3] with errno := 502 }

/-- The error reply leaves, and then data comes. -/
def lateData : List SessionEvent :=
  [.sent (Connection.errorText 502).length failedTask, .recv lateTask]

/-- A 206 head and the file follow the error reply. -/
theorem second_response :
    ¬ OneResponse
      (run (wireStep 4096) (openWire 4096 0 .get 0 3 failedTask acceptedClient) lateData).1
      (run (wireStep 4096) (openWire 4096 0 .get 0 3 failedTask acceptedClient) lateData).2 := by
  have happended : (run (wireStep 4096) (openWire 4096 0 .get 0 3 failedTask acceptedClient)
      lateData).1.log.appended = [1, 2, 3] := by decide +kernel
  have hstart : (run (wireStep 4096) (openWire 4096 0 .get 0 3 failedTask acceptedClient)
      lateData).2.take 12 = bytesOf "HTTP/1.1 502".toList := by decide +kernel
  intro h
  obtain ⟨code, len, extra, hcode, hwire⟩ := h.of_appended (by rw [happended]; simp)
  rw [hwire, headText_status hcode] at hstart
  rcases hcode with rfl | rfl
  · exact absurd hstart (by decide)
  · exact absurd hstart (by decide)

end Client

end Libms
