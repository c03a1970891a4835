import Mathlib
import Libms.Session.Stream

/-! # The range of a session

    A request for the bytes `a` to `b` of a file. The transfer that sends the
    head may keep bytes back in the session's buffer; the next one asks for
    what `reader.len - sending` leaves, as if the buffer were empty.

    * `Covers`: nothing is kept back, or more than a buffer is left of the
      range, or the range ends with the file.
    * `pastRange_iff`: the first range assert fails iff this does not hold.
    * `range_respected`: a run that transfers only then respects the range. -/

namespace Libms

open CInt Runs

namespace Client

variable {limit : Nat} {file : List UInt8} {a b : Nat} {v : TaskView} {c c' : Client}

/-- The session stays in its range: no read of the body part asks for a byte
    behind `b`, not too many bytes are handed to `mg_send`, the range asserts
    hold, and a session that `on_send` finishes has sent them all. -/
structure InRange (a b : Nat) (c : Client) : Prop where
  asked : ∀ q ∈ c.log.asked, q.1 + q.2 ≤ (b : Int) + 1
  total : (c.log.appended.length : Int) ≤ b - a + 1
  range : c.fault ≠ some .range
  sent : c.fault ≠ some .sent
  finished : c.live = false →
    (c.log.appended.length : Int) = b - a + 1 ∧ c.connection.sendMbuf = []

/-- `try_transfer_data` gets to its body part. -/
def ReachesBody (limit : Nat) (v : TaskView) (c : Client) : Prop :=
  c.Balanced ∧ Ready limit v c.session ∧ c.session.method = .get

/-- No byte is kept back in the session's buffer, or the range ends with the
    file, or what is left of the range besides the bytes in flight fills a buffer. -/
def Covers (limit F b : Nat) (s : Session) : Prop :=
  s.buf = [] ∨ b + 1 = F ∨ (limit : Int) ≤ s.len - s.sending

/-- The body part is reached with this condition only. -/
def KeepsRange (limit F b : Nat) (c : Client) : StreamEvent → Prop
  | .transfer v => c.ReachesBody limit v → Covers limit F b c.session
  | .sent n v => c.connection.sendAndClose = false →
      (c.counted n).ReachesBody limit v → Covers limit F b (c.counted n).session
  | .contentSize _ => True

/-! ## The range assert -/

/-- The bytes appended end inside the range. -/
theorem Steady.total (h : Steady limit file a (b - a + 1) c) (hab : a ≤ b) :
    (c.log.appended.length : Int) ≤ b - a + 1 := by
  have htally := h.sound.tally
  have hpos := h.reqPos
  have hlen := h.reqLen
  obtain ⟨hend, hleft⟩ := h.sound.ranged (by omega)
  rcases h.sound.held with hheld | ⟨hsending, -⟩ <;> omega

/-- The next read starts inside the range. -/
theorem Steady.nextOffset_le (h : Steady limit file a (b - a + 1) c) (hab : a ≤ b) :
    nextOffset c.session ≤ b + 1 := by
  have hpos := h.reqPos
  have hlen := h.reqLen
  obtain ⟨hend, hleft⟩ := h.sound.ranged (by omega)
  unfold nextOffset
  rcases h.sound.held with hheld | ⟨hsending, hbuf⟩
  · omega
  · rw [hbuf, List.length_nil]
    omega

/-- Where the next read ends: at the end of the file, of what is left besides
    the bytes in flight, or of the space in the buffer. -/
theorem wanted_end {F : Nat} {s : Session} {pos : Int} (hlimit : limit ≤ 4096)
    (hsize : v.filesize = F) (hfile : 0 < F) (hsmall : s.buf.length ≤ limit) (hpos : pos ≤ F)
    (hleft : 0 ≤ s.len - s.sending ∧ s.len - s.sending < 2 ^ 64) :
    pos + toInt64 (wanted limit v s pos) =
      min (F : Int) (pos + min (s.len - s.sending) (limit - s.buf.length)) := by
  have hsizeT : (sizeT (s.len - s.sending) : Int) = s.len - s.sending :=
    sizeT_of_nonneg hleft.1 hleft.2
  have hspace : ((if sizeT (s.len - s.sending) < limit - s.buf.length
      then sizeT (s.len - s.sending) else limit - s.buf.length : Nat) : Int) =
      min (s.len - s.sending) (limit - s.buf.length) := by
    split
    · rename_i hless
      rw [hsizeT, min_eq_left (by omega)]
    · rename_i hmore
      rw [Nat.cast_sub hsmall, min_eq_right (by omega)]
  have hrange : 0 ≤ min (s.len - s.sending) ((limit : Int) - s.buf.length) ∧
      min (s.len - s.sending) ((limit : Int) - s.buf.length) ≤ 4096 := by
    clear hspace hsizeT
    exact ⟨le_min hleft.1 (by omega), (min_le_right _ _).trans (by omega)⟩
  unfold wanted
  simp only [hsize, hspace]
  generalize min (s.len - s.sending) ((limit : Int) - s.buf.length) = space at hrange hspace ⊢
  have hword : toInt64 space = space := toInt64_of_range (by omega) (by omega)
  rw [hword]
  clear hsizeT hword hleft hsmall hlimit
  split
  · -- cut at the end of the file
    clear hspace
    rw [toInt64_sizeT (by omega) (by omega), min_eq_left (by omega)]
    omega
  · rw [hspace, toInt64_of_range (by omega) (by omega), min_eq_right (by omega)]

/-- **When the range assert fails**: bytes are kept back, and what is left of
    the range fits into less than a buffer and is not the end of the file. -/
theorem Steady.pastRange_iff (h : Steady limit file a (b - a + 1) c) (hlimit : limit ≤ 4096)
    (hab : a ≤ b) (hb : b < file.length) (hfile : file.length < 2 ^ 63)
    (hbalanced : c.Balanced) (hsize : v.filesize = file.length) :
    c.PastRange limit v ↔ ¬ Covers limit file.length b c.session := by
  have hpos := h.reqPos
  have hlen := h.reqLen
  obtain ⟨hend, hleft⟩ := h.sound.ranged (by omega)
  have hfrom := hbalanced.readFrom
  have hnext := h.nextOffset_le hab
  have hinside : c.readFrom ≤ file.length := by omega
  have hbounds : 0 ≤ c.session.len - c.session.sending ∧
      c.session.len - c.session.sending < 2 ^ 64 := by
    have hforward := h.sound.forward
    have hnonneg := h.sound.nonneg
    rcases h.sound.held with hheld | ⟨hsending, -⟩ <;> omega
  have hstop := wanted_end (v := v) hlimit hsize (by omega) h.sound.small hinside hbounds
  unfold nextOffset at hfrom
  unfold PastRange Covers
  rw [hstop, lt_min_iff]
  clear hstop
  constructor
  · intro ⟨_, hfileEnd, hpast⟩ hcovers
    have hleft := min_le_left (c.session.len - c.session.sending)
      ((limit : Int) - c.session.buf.length)
    have hspace := min_le_right (c.session.len - c.session.sending)
      ((limit : Int) - c.session.buf.length)
    rcases hcovers with hnil | hlast | hfull
    · rw [hnil] at hfrom hleft hpast
      simp only [List.length_nil] at hfrom hleft hpast
      omega
    · omega
    · omega
  · intro hnot
    push Not at hnot
    obtain ⟨hkept, hlast, hshort⟩ := hnot
    have hbuf := List.length_pos_iff.mpr hkept
    refine ⟨by omega, by omega, ?_⟩
    rcases le_total (c.session.len - c.session.sending) ((limit : Int) - c.session.buf.length)
      with hle | hle
    · rw [min_eq_left hle]
      omega
    · rw [min_eq_right hle]
      omega

/-! ## One event -/

/-- An open session without a failed range assert has no more to show. -/
theorem inRange_of_live (hlive : c.live = true)
    (hasked : ∀ q ∈ c.log.asked, q.1 + q.2 ≤ (b : Int) + 1)
    (htotal : (c.log.appended.length : Int) ≤ b - a + 1)
    (hrange : c.fault ≠ some .range) (hsent : c.fault ≠ some .sent) : InRange a b c := by
  refine ⟨hasked, htotal, hrange, hsent, ?_⟩
  intro hclosed
  rw [hlive] at hclosed
  cases hclosed

/-- Another assert fails. -/
theorem InRange.fail (h : InRange a b c) (hlive : c.live = true) {f : Fault} (hrange : f ≠ .range)
    (hsent : f ≠ .sent) : InRange a b (c.fail f) :=
  inRange_of_live hlive h.asked h.total (fun heq => hrange (Option.some.inj heq))
    (fun heq => hsent (Option.some.inj heq))

/-- A read that passes the range assert asks for bytes of the range. -/
theorem Steady.asked (h : Steady limit file a (b - a + 1) c) (hr : InRange a b c)
    (hlimit : limit ≤ 4096) (hab : a ≤ b) (hb : b < file.length) (hbalanced : c.Balanced)
    (hsize : v.filesize = file.length) (hpast : ¬ c.PastRange limit v) {bytes : List UInt8} :
    ∀ q ∈ (c.took limit v bytes).log.asked, q.1 + q.2 ≤ (b : Int) + 1 := by
  intro q hq
  rcases List.mem_append.mp hq with hbefore | hnow
  · exact hr.asked q hbefore
  · rw [List.mem_singleton.mp hnow]
    have hfrom := hbalanced.readFrom
    have hnext := h.nextOffset_le hab
    have hinside : c.readFrom ≤ file.length := by omega
    have hword := (wanted_spec hlimit hsize (by omega) h.sound.small hinside).2.2
    have hpos := h.reqPos
    have hlen := h.reqLen
    unfold PastRange at hpast
    rw [hword] at hpast
    by_contra hbehind
    exact hpast ⟨by omega, by omega⟩

/-- The size is known behind the early returns. -/
theorem Ready.filesize {s : Session} (h : Ready limit v s) (hv : v.Serves file) :
    v.filesize = file.length := by
  rcases hv.filesize with hzero | hsize
  · exact absurd hzero h.2.2
  · exact hsize

/-- Nothing of this changes. -/
theorem InRange.frame (h : InRange a b c) (hasked : c'.log.asked = c.log.asked)
    (happended : c'.log.appended = c.log.appended) (hfault : c'.fault = c.fault)
    (hlive : c'.live = true) : InRange a b c' := by
  refine inRange_of_live hlive ?_ ?_ ?_ ?_
  · rw [hasked]
    exact h.asked
  · rw [happended]
    exact h.total
  · rw [hfault]
    exact h.range
  · rw [hfault]
    exact h.sent

/-- The body part, with nothing kept back or with enough left. -/
theorem Begun.inRange {d : Client} (hbegun : Begun limit file.length v c d)
    (h : Steady limit file a (b - a + 1) d) (hr : InRange a b d) (hlive : d.live = true)
    (hv : v.Serves file) (hlimit : limit ≤ 4096) (hfile : file.length < 2 ^ 63) (hab : a ≤ b)
    (hb : b < file.length) (hcovers : Covers limit file.length b d.session) :
    InRange a b (d.body limit v) ∧ (d.body limit v).live = true := by
  have hsize := hbegun.ready.filesize hv
  have hpast : ¬ d.PastRange limit v := fun hpast =>
    (h.pastRange_iff hlimit hab hb hfile hbegun.balanced hsize).mp hpast hcovers
  have hasked : ∀ bytes, ∀ q ∈ (d.took limit v bytes).log.asked, q.1 + q.2 ≤ (b : Int) + 1 :=
    fun bytes => h.asked hr hlimit hab hb hbegun.balanced hsize hpast
  have htook : ∀ bytes, InRange a b (d.took limit v bytes) := fun bytes =>
    inRange_of_live hlive (hasked bytes) hr.total hr.range hr.sent
  have hbody := hbegun.body hv.bounded hlimit
  generalize d.body limit v = c' at *
  cases hbody with
  | range hfail => exact absurd hfail hpast
  | storage => exact ⟨(htook []).fail hlive (by decide) (by decide), hlive⟩
  | empty bytes => exact ⟨htook bytes, hlive⟩
  | moved bytes k _ hread hk =>
    -- what is handed to `mg_send` was read, and ends where the read did
    have hmoved := (h.took hv hlimit hbegun.balanced hbegun.ready hbegun.headerSend hpast
      hread).move hbegun.headerSend hk
    exact ⟨inRange_of_live hlive (hasked bytes) (hmoved.total hab) hr.range hr.sent, hlive⟩
  | wrapped bytes =>
    -- a wrapped length is negative as an `int`, and nothing is appended
    exact ⟨inRange_of_live hlive (hasked bytes) hr.total hr.range hr.sent, hlive⟩

/-- **A transfer** that keeps nothing back, or asks for a full buffer, or
    serves the end of the file, respects the range. -/
theorem Steady.transfer_inRange (h : Steady limit file a (b - a + 1) c) (hr : InRange a b c)
    (hlive : c.live = true) (hv : v.Serves file) (hlimit : limit ≤ 4096)
    (hfile : file.length < 2 ^ 63) (hab : a ≤ b) (hb : b < file.length)
    (hok : c.ReachesBody limit v → Covers limit file.length b c.session)
    (ht : Transfer limit v c c') : InRange a b c' ∧ c'.live = true := by
  cases ht with
  | entry => exact ⟨hr.fail hlive (by decide) (by decide), hlive⟩
  | idle => exact ⟨hr, hlive⟩
  | storage => exact ⟨hr.fail hlive (by decide) (by decide), hlive⟩
  | head m hbalanced hready =>
    obtain ⟨hlog, hfault, hlive'⟩ := @headed_frame limit v c m
    rw [hlive] at hlive'
    exact ⟨hr.frame (congrArg Log.asked hlog) (congrArg Log.appended hlog) hfault hlive', hlive'⟩
  | body m hbalanced hready hmethod =>
    -- the head part leaves buffer and range as they were
    have hbegun := h.sound.begun hfile hbalanced hready m
    obtain ⟨_, _, hsession⟩ := hbegun.session
    obtain ⟨hlog, hfault, hlive'⟩ := hbegun.frame
    have hcovers : Covers limit file.length b (c.headed limit v m).session := by
      rw [hsession]
      exact hok ⟨hbalanced, hready, hmethod⟩
    rw [hlive] at hlive'
    have hr' : InRange a b (c.headed limit v m) :=
      hr.frame (congrArg Log.asked hlog) (congrArg Log.appended hlog) hfault hlive'
    exact hbegun.inRange (h.headed hfile hbalanced hready.2.1) hr' hlive' hv hlimit hfile hab hb
      hcovers

/-- `ms_session_close_if_need` leaves all of this alone. -/
theorem InRange.closing (h : InRange a b c) (hlive : c.live = true) (hc : Closing v c c') :
    InRange a b c' := by
  obtain ⟨happended, hasked, hfault, hlive'⟩ := closing_frame hc
  exact h.frame hasked happended hfault (hlive'.trans hlive)

/-- **A send**, with the transfer it brings. -/
theorem Steady.sent_inRange (h : Steady limit file a (b - a + 1) c) (hr : InRange a b c)
    (hlive : c.live = true) (hv : v.Serves file) (hlimit : limit ≤ 4096)
    (hfile : file.length < 2 ^ 63) (hab : a ≤ b) (hb : b < file.length) {n : Nat}
    (hn : n ≤ c.connection.sendMbuf.length)
    (hok : c.connection.sendAndClose = false → (c.counted n).ReachesBody limit v →
      Covers limit file.length b (c.counted n).session)
    (hs : Sent limit v n c c') : InRange a b c' := by
  cases hs with
  | ignored => exact inRange_of_live hlive hr.asked hr.total hr.range hr.sent
  | head => exact inRange_of_live hlive hr.asked hr.total hr.range hr.sent
  | drained =>
    exact inRange_of_live hlive hr.asked hr.total (by decide : some Fault.drained ≠ some .range)
      (by decide : some Fault.drained ≠ some .sent)
  | finish hopen _ hlen hsending =>
    refine ⟨hr.asked, hr.total, hr.range, hr.sent, ?_⟩
    intro _
    -- the range is sent and nothing is in flight: so all of it was appended
    obtain ⟨head, k, hcount, hsum, hsplit, hk⟩ := h.sound.counts hopen hn
    have hreqPos := h.reqPos
    have hreqLen := h.reqLen
    obtain ⟨hend, hleft⟩ := h.sound.ranged (by omega)
    have htally := h.sound.tally
    have hbalanced := h.sound.balanced hopen
    unfold Balanced at hbalanced
    unfold Client.counted at hlen hsending
    rw [hcount] at hlen hsending
    simp only [countBody, if_pos hleft] at hlen hsending
    constructor
    · show (c.log.appended.length : Int) = b - a + 1
      omega
    · show c.connection.sendMbuf.drop n = []
      exact List.drop_eq_nil_of_le (by omega)
  | transfer hopen _ hmore ht hc =>
    have hcounted : InRange a b (c.counted n) :=
      inRange_of_live hlive hr.asked hr.total hr.range hr.sent
    obtain ⟨hr', hlive'⟩ := (h.counted hopen hn hmore).transfer_inRange hcounted hlive hv hlimit
      hfile hab hb (hok hopen) ht
    exact hr'.closing hlive' hc

/-! ## Whole runs -/

theorem streamStep_inRange (hs : Streams limit file a (b - a + 1) c) (hr : InRange a b c)
    {e : StreamEvent} (hv : e.view.Serves file) (hlimit : limit ≤ 4096)
    (hfile : file.length < 2 ^ 63) (hab : a ≤ b) (hb : b < file.length)
    (hok : KeepsRange limit file.length b c e) : InRange a b (c.streamStep limit e) := by
  unfold streamStep
  split
  · exact hr
  · rename_i hgoing
    obtain ⟨hfault, hlive, hstate⟩ := hs.going hgoing
    cases e with
    | transfer v =>
      have ht := @tryTransfer_transfer limit v c hfault
      rcases hstate with hsteady | hshort
      · exact (hsteady.transfer_inRange hr hlive hv hlimit hfile hab hb hok ht).1
      · show InRange a b (c.tryTransfer limit v)
        rw [transfer_of_not_balanced hshort.not_balanced ht]
        exact hr.fail hlive (by decide) (by decide)
    | sent n v =>
      simp only
      split
      · rename_i hn
        have hsent := @sent_sent limit v c n hlive hfault
        rcases hstate with hsteady | hshort
        · exact hsteady.sent_inRange hr hlive hv hlimit hfile hab hb hn.2 hok hsent
        · obtain ⟨hfault', hlive', happended, hasked⟩ := hshort.sent hn.2 hsent
          refine inRange_of_live (by rw [hlive', hlive]) ?_ ?_ ?_ ?_
          · rw [hasked]
            exact hr.asked
          · rw [happended]
            exact hr.total
          · rcases hfault' with hf | hf <;> rw [hf] <;> decide
          · rcases hfault' with hf | hf <;> rw [hf] <;> decide
      · exact hr
    | contentSize v =>
      show InRange a b (c.onContentSizeFrom v)
      unfold Client.onContentSizeFrom
      split
      · exact hr
      · split
        · exact inRange_of_live hlive hr.asked hr.total hr.range hr.sent
        · exact hr

/-- The transfer that a request starts with keeps nothing back. -/
theorem request_inRange {task : Nat} {method : Method} {rangeHdr : Option (List Char)}
    (hv : v.Serves file) (hlimit : limit ≤ 4096) (hfile : file.length < 2 ^ 63)
    (hopen : c.connection.sendAndClose = false) (hab : a ≤ b) (hb : b < file.length)
    (hrange : requestedRange rangeHdr = some ((a : Int), (b : Int) - a + 1)) :
    InRange a b ((c.openSession task method a (b - a + 1) v).tryTransfer limit v) := by
  have ht := @tryTransfer_transfer limit v (c.openSession task method a (b - a + 1) v) rfl
  have hopened : InRange a b (c.openSession task method a (b - a + 1) v) := by
    refine inRange_of_live rfl ?_ ?_ (by decide : none ≠ some Fault.range)
      (by decide : none ≠ some Fault.sent)
    · intro q hq
      cases hq
    · show ((0 : Nat) : Int) ≤ b - a + 1
      omega
  by_cases hempty : c.connection.sendMbuf = []
  · have hsteady : Steady limit file a (b - a + 1)
        (c.openSession task method a (b - a + 1) v) :=
      openSession_steady hv hopen hrange (by omega) hempty
    exact (hsteady.transfer_inRange hopened rfl hv hlimit hfile hab hb (fun _ => Or.inl rfl) ht).1
  · rw [transfer_of_not_balanced (openSession_not_balanced hempty) ht]
    exact hopened.fail rfl (by decide) (by decide)

/-- **The range of a session.** In every run of a session for the bytes `a`
    to `b` whose transfers get to the body part with `Covers` only, the
    session stays in its range in every state. -/
theorem range_respected (p : Platform) (file : List UInt8) (c : Client) (task : Nat)
    (method : Method) (rangeHdr : Option (List Char)) (a b : Nat) (v : TaskView)
    (es : List StreamEvent) (hfile : file.length < 2 ^ 63)
    (hopen : c.connection.sendAndClose = false) (hab : a ≤ b) (hb : b < file.length)
    (hrange : requestedRange rangeHdr = some ((a : Int), (b : Int) - a + 1))
    (hv : v.Serves file) (hes : ∀ e ∈ es, e.view.Serves file)
    (hok : Along (streamStep p.sendBufLimit) (KeepsRange p.sendBufLimit file.length b)
      ((c.openSession task method a (b - a + 1) v).tryTransfer p.sendBufLimit v) es) :
    InRange a b (run (streamStep p.sendBufLimit)
      ((c.openSession task method a (b - a + 1) v).tryTransfer p.sendBufLimit v) es) := by
  have hlimit := p.sendBufLimit_le
  have hstart : Streams p.sendBufLimit file a (b - a + 1)
      ((c.openSession task method a (b - a + 1) v).tryTransfer p.sendBufLimit v) ∧
      InRange a b ((c.openSession task method a (b - a + 1) v).tryTransfer p.sendBufLimit v) :=
    ⟨request_streams hv hlimit hfile hopen hrange (by omega),
      request_inRange hv hlimit hfile hopen hab hb hrange⟩
  have hstep : ∀ c e, Streams p.sendBufLimit file a (b - a + 1) c ∧ InRange a b c →
      KeepsRange p.sendBufLimit file.length b c e ∧ e.view.Serves file →
      Streams p.sendBufLimit file a (b - a + 1) (c.streamStep p.sendBufLimit e) ∧
        InRange a b (c.streamStep p.sendBufLimit e) := by
    intro c e h hok
    exact ⟨streamStep_streams h.1 hok.2 hlimit hfile,
      streamStep_inRange h.1 h.2 hok.2 hlimit hfile hab hb hok.1⟩
  exact (run_invariant hstep hstart (hok.and (along_of_forall hes))).2

/-- Two bytes of a file of three. -/
theorem range_respected_two :
    InRange 0 1 (run (streamStep Platform.desktop.sendBufLimit)
      ((acceptedClient.openSession 0 .get (0 : Nat) ((1 : Nat) - (0 : Nat) + 1)
        (TaskView.ofFile [7, 8, 9])).tryTransfer Platform.desktop.sendBufLimit
          (TaskView.ofFile [7, 8, 9]))
      [.sent 5 (TaskView.ofFile [7, 8, 9])]) := by
  apply range_respected .desktop [7, 8, 9] acceptedClient 0 .get (some "bytes=0-1".toList) 0 1
    (TaskView.ofFile [7, 8, 9]) [.sent 5 (TaskView.ofFile [7, 8, 9])] (by decide) rfl (by decide)
    (by decide) (by decide) (TaskView.ofFile_serves _)
  · intro e he
    rw [List.mem_singleton.mp he]
    exact TaskView.ofFile_serves _
  · exact ⟨fun _ _ => Or.inl (by decide +kernel), trivial⟩

/-- A file of five thousand bytes. -/
def servedFile : List UInt8 := List.replicate 5000 1

/-- The session for the first 4200 bytes of it, after the first transfer. -/
def keepingBack : Client :=
  (acceptedClient.openSession 0 .get 0 4200 (TaskView.ofFile servedFile)).tryTransfer
    Platform.desktop.sendBufLimit (TaskView.ofFile servedFile)

/-- The first transfer reads 4096 bytes and keeps as many back as the head is
    long. When all of the send buffer has left, the next one asks past the range. -/
theorem range_exceeded :
    requestedRange (some "bytes=0-4199".toList) = some (0, 4200) ∧
      (TaskView.ofFile servedFile).Serves servedFile ∧
      keepingBack.connection.sendMbuf.length = 4096 ∧
      ¬ InRange 0 4199 (run (streamStep Platform.desktop.sendBufLimit) keepingBack
        [.sent 4096 (TaskView.ofFile servedFile)]) := by
  refine ⟨by decide, TaskView.ofFile_serves _, by decide +kernel, ?_⟩
  intro h
  exact h.range (by decide +kernel)

end Client

end Libms
