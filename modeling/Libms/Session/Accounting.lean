import Mathlib
import Libms.Framework.Runs
import Libms.Session.Sound

/-! # The accounts of a connection

    All events of a connection and of the tasks of its sessions: requests one
    after the other, notifications, task errors and sends. The entry assert
    of `try_transfer_data` and the subtraction `len -= header_sending` go
    wrong in four ways, and only in these:

    * a request while bytes of an earlier response are in the send buffer;
    * `on_recv` while an error reply is on its way;
    * `on_recv` after bytes left with `MG_F_SEND_AND_CLOSE` set;
    * body bytes that neither fit the buffer beside the head nor are as long.

    `accounting_holds` is about the runs without these, `accounting_breaks`
    has one run for each. -/

namespace Libms

open CInt Runs

/-- A task with a file of zeros, the first bytes of which are cached. -/
def TaskView.zeros (contentType : List Char) (errno : Int) (F cached : Nat) : TaskView where
  filesize := F
  contentType := contentType
  errno := errno
  read pos n := some (List.replicate (min n (cached - pos.toNat)) 0)

theorem TaskView.zeros_bounded {contentType : List Char} {errno : Int} {F cached : Nat}
    (hcached : cached ≤ F) : (TaskView.zeros contentType errno F cached).Bounded F where
  filesize := Or.inr rfl
  length pos n bytes hread := by
    cases hread
    rw [List.length_replicate]
    exact Nat.min_le_left _ _
  inside pos n bytes hread hpast := by
    cases hread
    have hzero : cached - pos.toNat = 0 := by omega
    rw [hzero, Nat.min_zero]
    rfl

namespace Client

variable {limit F : Nat} {v : TaskView} {c c' : Client} {size : Nat → Nat}

/-! ## What goes wrong -/

/-- The bytes of the head that are unsent when the body part begins. -/
def pendingHead (limit : Nat) (v : TaskView) (c : Client) : Nat :=
  if c.connection.headerSend then c.session.headerSending else (c.head limit v).length

/-- `try_transfer_data` gets to its body part. -/
def EntersBody (limit : Nat) (v : TaskView) (c : Client) : Prop :=
  Ready limit v c.session ∧ c.session.method = .get

/-- The bytes that are ready fit the buffer beside the head, or are as long as
    the head. Nothing is asked of a read behind the range, which fails the range assert. -/
def Fits (limit : Nat) (v : TaskView) (c : Client) : Prop :=
  c.PastRange limit v ∨
    ∀ bytes, v.read (nextOffset c.session) (wanted limit v c.session (nextOffset c.session)) =
      some bytes →
        let ready := c.session.buf.length + bytes.length
        ready = 0 ∨ ready + c.pendingHead limit v ≤ limit ∨ c.pendingHead limit v ≤ ready

/-- The event does none of what goes wrong. -/
def KeepsAccounts (limit : Nat) (c : Client) : ClientEvent → Prop
  | .request task method rangeHdr v =>
    ∀ r1 r2, requestedRange rangeHdr = some (r1, r2) →
      c.connection.sendMbuf = [] ∧
        ((c.openSession task method r1 r2 v).EntersBody limit v →
          Fits limit v (c.openSession task method r1 r2 v))
  | .recv v => c.live = true →
      c.log.ignored = c.log.errorBytes ∧ (c.EntersBody limit v → Fits limit v c)
  | .sent n v => c.live = true → c.connection.sendAndClose = false →
      (c.counted n).EntersBody limit v → Fits limit v (c.counted n)
  | _ => True

/-- The tasks of the sessions answer as tasks with files of these sizes do. -/
def Answers (size : Nat → Nat) (c : Client) : ClientEvent → Prop
  | .request task _ _ v => v.Bounded (size task)
  | .recv v => v.Bounded (size c.session.task)
  | .contentSize v => v.Bounded (size c.session.task)
  | .error v => v.Bounded (size c.session.task)
  | .sent _ v => v.Bounded (size c.session.task)
  | .close => True

/-! ## One transfer -/

/-- The accounts are right. -/
structure Accounted (limit : Nat) (size : Nat → Nat) (c : Client) : Prop where
  entry : c.fault ≠ some .entry
  wrapped : c.log.wrapped = false
  sound : c.fault = none → c.live = true → Sound limit (size c.session.task) c

/-- A state in which another assert has failed. -/
theorem accounted_of_fault {f : Fault} (hfault : c.fault = some f) (hentry : f ≠ .entry)
    (hwrapped : c.log.wrapped = false) : Accounted limit size c := by
  refine ⟨?_, hwrapped, ?_⟩
  · rw [hfault]
    intro heq
    exact hentry (Option.some.inj heq)
  · intro hnone
    rw [hfault] at hnone
    cases hnone

/-- What is unsent of the head behind the head part. -/
theorem headed_pendingHead {m : Bool} (h : Sound limit F c) (hbalanced : c.Balanced) :
    (c.headed limit v m).session.headerSending = c.pendingHead limit v := by
  unfold pendingHead
  cases hsent : c.connection.headerSend with
  | true =>
    rw [headed_of_sent hsent]
    rfl
  | false =>
    -- the send buffer is empty yet, and then holds the head only
    obtain ⟨hsending, hhead, -⟩ := h.fresh hsent
    unfold Balanced at hbalanced
    rw [headed_of_fresh hsent]
    simp only [List.length_append, Bool.false_eq_true, if_false]
    omega

/-- The head changes nothing of what the body part asks for. -/
theorem headed_asks {m : Bool} (hbalanced : c.Balanced)
    (hbalanced' : (c.headed limit v m).Balanced) :
    (c.headed limit v m).readFrom = nextOffset c.session ∧
      (∀ pos, wanted limit v (c.headed limit v m).session pos = wanted limit v c.session pos) ∧
      ((c.headed limit v m).PastRange limit v ↔ c.PastRange limit v) := by
  obtain ⟨unsent, hsession⟩ := @headed_session limit v c m
  have hfrom := hbalanced'.readFrom
  unfold PastRange
  rw [hfrom, hbalanced.readFrom, hsession]
  exact ⟨rfl, fun _ => rfl, Iff.rfl⟩

/-- The body part of a session whose ready bytes fit. -/
theorem Begun.accounted (h : Sound limit (size c.session.task) c)
    (hbalanced : c.Balanced) {m : Bool}
    (hbegun : Begun limit (size c.session.task) v c (c.headed limit v m)) (hfault : c.fault = none)
    (hwrapped : c.log.wrapped = false) (hv : v.Bounded (size c.session.task))
    (hlimit : limit ≤ 4096) (hfits : Fits limit v c) :
    Accounted limit size ((c.headed limit v m).body limit v) := by
  obtain ⟨hfrom, hwanted, hpast'⟩ := headed_asks (m := m) hbalanced hbegun.balanced
  have hunsent := headed_pendingHead (v := v) (m := m) h hbalanced
  obtain ⟨_, _, hsession⟩ := hbegun.session
  obtain ⟨hlog, hfault', -⟩ := hbegun.frame
  have hbuf' : (c.headed limit v m).session.buf = c.session.buf := by rw [hsession]
  have htask : (c.headed limit v m).session.task = c.session.task := by rw [hsession]
  have hbody := hbegun.body hv hlimit
  generalize c.headed limit v m = d at *
  rw [← htask] at hbody
  have hnone : d.fault ≠ some .entry := by
    rw [hfault', hfault]
    decide
  have hwrapped' : d.log.wrapped = false := by rw [hlog, hwrapped]
  generalize d.body limit v = c' at *
  cases hbody with
  | range => exact accounted_of_fault rfl (by decide) hwrapped'
  | storage => exact accounted_of_fault rfl (by decide) hwrapped'
  | empty bytes _ _ htook => exact ⟨hnone, hwrapped', fun _ _ => htook⟩
  | moved bytes k _ _ hk htook =>
    exact ⟨hnone, hwrapped', fun _ _ => htook.move hbegun.headerSend hk⟩
  | wrapped bytes hpast hread hbuf hwraps =>
    -- what is ready fits beside the head, or is as long
    rw [hfrom, hwanted] at hread
    have hpos := List.length_pos_iff.mpr hbuf
    have hless : (d.session.buf ++ bytes).length < d.session.headerSending := hwraps.2
    have hover : limit < (d.session.buf ++ bytes).length + d.session.headerSending := hwraps.1
    have hpos' : 0 < (d.session.buf ++ bytes).length := hpos
    rw [hunsent] at hless hover
    rw [hbuf', List.length_append] at hpos' hless hover
    rcases hfits with hpastBefore | hfits
    · exact absurd (hpast'.mpr hpastBefore) hpast
    · rcases hfits bytes hread with hzero | hboth | hlong <;> omega

/-- **A transfer of a sound session** whose ready bytes fit. -/
theorem Sound.transfer_accounted (h : Sound limit (size c.session.task) c)
    (hbalanced : c.Balanced) (hfault : c.fault = none) (hwrapped : c.log.wrapped = false)
    (hv : v.Bounded (size c.session.task)) (hlimit : limit ≤ 4096)
    (hsize : size c.session.task < 2 ^ 63) (hfits : c.EntersBody limit v → Fits limit v c)
    (ht : Transfer limit v c c') : Accounted limit size c' := by
  cases ht with
  | entry hnot => exact absurd hbalanced hnot
  | idle =>
    refine ⟨?_, hwrapped, fun _ _ => h⟩
    rw [hfault]
    decide
  | storage => exact accounted_of_fault rfl (by decide) hwrapped
  | head m _ hready =>
    -- a `HEAD` request is answered, and `MG_F_SEND_AND_CLOSE` is set
    have hheaded := (h.headed (v := v) (m := m) hsize hbalanced hready.2.1).1
    obtain ⟨unsent, hsession⟩ := @headed_session limit v c m
    obtain ⟨hlog, hfault', -⟩ := @headed_frame limit v c m
    refine ⟨?_, ?_, ?_⟩
    · show (c.headed limit v m).fault ≠ some .entry
      rw [hfault', hfault]
      decide
    · show (c.headed limit v m).log.wrapped = false
      rw [hlog]
      exact hwrapped
    · intro _ _
      show Sound limit (size (c.headed limit v m).session.task) _
      rw [hsession]
      exact hheaded.close
  | body m _ hready hmethod =>
    have hbegun := h.begun (v := v) hsize hbalanced hready m
    exact hbegun.accounted h hbalanced hfault hwrapped hv hlimit (hfits ⟨hready, hmethod⟩)

/-! ## One event -/

theorem Accounted.closing (h : Accounted limit size c) (hc : Closing v c c') :
    Accounted limit size c' := by
  obtain ⟨-, -, hfault, hlive⟩ := closing_frame hc
  refine ⟨?_, ?_, ?_⟩
  · rw [hfault]
    exact h.entry
  · have hwrapped := h.wrapped
    cases hc <;> exact hwrapped
  · intro hnone hopen
    rw [hfault] at hnone
    rw [hlive] at hopen
    have hsound := (h.sound hnone hopen).closing hc
    cases hc <;> exact hsound

/-- **A send of a sound session**, with the transfer it brings. -/
theorem Sound.sent_accounted (h : Sound limit (size c.session.task) c) (hfault : c.fault = none)
    (hwrapped : c.log.wrapped = false) (hv : v.Bounded (size c.session.task))
    (hlimit : limit ≤ 4096) (hsize : size c.session.task < 2 ^ 63) {n : Nat}
    (hn : n ≤ c.connection.sendMbuf.length)
    (hfits : c.connection.sendAndClose = false → (c.counted n).EntersBody limit v →
      Fits limit v (c.counted n))
    (hs : Sent limit v n c c') : Accounted limit size c' := by
  have hentry : c.fault ≠ some .entry := by
    rw [hfault]
    decide
  cases hs with
  | ignored hclosing => exact ⟨hentry, hwrapped, fun _ _ => h.ignored hclosing hn⟩
  | head hopen hlen =>
    obtain ⟨head, k, hcount, -⟩ := countHead_spec n c.session
    have hsound := h.counted_head hopen hn hlen
    rw [hcount] at hsound ⊢
    exact ⟨hentry, hwrapped, fun _ _ => hsound⟩
  | drained hopen _ hshort => exact absurd hshort (h.not_drained hopen hn)
  | finish =>
    refine ⟨hentry, hwrapped, ?_⟩
    intro _ hlive
    cases hlive
  | transfer hopen _ hmore ht hc =>
    obtain ⟨head, k, hcount, -⟩ := countHead_spec n c.session
    have htask : (c.counted n).session.task = c.session.task := by
      unfold Client.counted
      rw [hcount]
      rfl
    -- the counters are right again before the transfer that follows
    have hsound := h.counted hopen hn hmore
    have hbalanced := hsound.balanced hopen
    rw [← htask] at hsound hv hsize
    exact (hsound.transfer_accounted hbalanced hfault hwrapped hv hlimit hsize (hfits hopen)
      ht).closing hc

/-- A request on a connection from which all has left. -/
theorem opened_accounted {task : Nat} {method : Method} {rangeHdr : Option (List Char)}
    {r1 r2 : Int} (hrange : requestedRange rangeHdr = some (r1, r2))
    (hempty : c.connection.sendMbuf = []) (hv : v.Bounded (size task)) (hlimit : limit ≤ 4096)
    (hsize : size task < 2 ^ 63)
    (hfits : (c.openSession task method r1 r2 v).EntersBody limit v →
      Fits limit v (c.openSession task method r1 r2 v)) :
    Accounted limit size
      (((c.openSession task method r1 r2 v).tryTransfer limit v).closeIfNeed v) := by
  have hsound : Sound limit (size task) (c.openSession task method r1 r2 v) :=
    openSession_sound hv hrange hempty
  -- both counters start at zero, as the send buffer does
  have hbalanced : (c.openSession task method r1 r2 v).Balanced := by
    show (0 : Int) + (0 : Nat) = (c.connection.sendMbuf.length : Int)
    rw [hempty]
    rfl
  have ht := @tryTransfer_transfer limit v (c.openSession task method r1 r2 v) rfl
  exact (hsound.transfer_accounted hbalanced rfl rfl hv hlimit hsize hfits ht).closing
    closeIfNeed_closing

/-- Data comes for a session whose error reply has left, if it had one. -/
theorem Accounted.recv (h : Accounted limit size c) (hfault : c.fault = none)
    (hlive : c.live = true) (hsettled : c.log.ignored = c.log.errorBytes)
    (hv : v.Bounded (size c.session.task)) (hlimit : limit ≤ 4096)
    (hsize : size c.session.task < 2 ^ 63) (hfits : c.EntersBody limit v → Fits limit v c) :
    Accounted limit size ((c.tryTransfer limit v).closeIfNeed v) := by
  have hsound := h.sound hfault hlive
  -- what was ignored and what was added without a counter cancel
  have hbalanced : c.Balanced := by
    have haccounts := hsound.accounts
    unfold Balanced
    omega
  exact (hsound.transfer_accounted hbalanced hfault h.wrapped hv hlimit hsize hfits
    (tryTransfer_transfer hfault)).closing closeIfNeed_closing

theorem Accounted.contentSize (h : Accounted limit size c) (hfault : c.fault = none)
    (hlive : c.live = true) (hv : v.Bounded (size c.session.task)) :
    Accounted limit size (c.onContentSizeFrom v) := by
  have hsound := (h.sound hfault hlive).onContentSizeFrom hv
  unfold Client.onContentSizeFrom at hsound ⊢
  split
  · exact h
  · rename_i hlen
    rw [if_neg hlen] at hsound
    split
    · rename_i hknown
      rw [if_pos hknown] at hsound
      exact ⟨h.entry, h.wrapped, fun _ _ => hsound⟩
    · exact h

/-- **One event.** -/
theorem step_accounted (h : Accounted limit size c) {e : ClientEvent}
    (hanswers : Answers size c e) (hkeeps : KeepsAccounts limit c e) (hlimit : limit ≤ 4096)
    (hsize : ∀ task, size task < 2 ^ 63) : Accounted limit size (c.step limit e) := by
  unfold Client.step
  split
  · exact h
  · rename_i hgoing
    have hfault : c.fault = none := by simpa using hgoing
    cases e with
    | request task method rangeHdr v =>
      cases hrange : requestedRange rangeHdr with
      | none =>
        simp only [hrange]
        exact accounted_of_fault rfl (by decide) h.wrapped
      | some range =>
        obtain ⟨r1, r2⟩ := range
        simp only [hrange]
        obtain ⟨hempty, hfits⟩ := hkeeps r1 r2 hrange
        exact opened_accounted hrange hempty hanswers hlimit (hsize task) hfits
    | recv v =>
      simp only
      split
      · rename_i hlive
        obtain ⟨hsettled, hfits⟩ := hkeeps hlive
        exact h.recv hfault hlive hsettled hanswers hlimit (hsize _) hfits
      · exact h
    | contentSize v =>
      simp only
      split
      · rename_i hlive
        exact h.contentSize hfault hlive hanswers
      · exact h
    | error v =>
      simp only
      split
      · exact h.closing closeIfNeed_closing
      · exact h
    | sent n v =>
      simp only
      split
      · rename_i hn
        by_cases hlive : c.live = true
        · exact (h.sound hfault hlive).sent_accounted hfault h.wrapped hanswers hlimit (hsize _)
            hn.2 (hkeeps hlive) (sent_sent n hlive hfault)
        · -- nobody counts what leaves a connection without a session
          show Accounted limit size (c.sent limit v n)
          unfold Client.sent
          rw [if_neg (by exact hlive)]
          exact ⟨h.entry, h.wrapped, fun _ hopen => absurd hopen hlive⟩
      · exact h
    | close => exact ⟨h.entry, h.wrapped, fun _ hlive => by cases hlive⟩

/-! ## Whole runs -/

/-- **The accounts of a connection.** In every run without an event that goes
    wrong, no call of `try_transfer_data` fails its entry assert and the
    subtraction `len -= header_sending` never wraps. -/
theorem accounting_holds (p : Platform) (size : Nat → Nat) (es : List ClientEvent)
    (hsize : ∀ task, size task < 2 ^ 63)
    (hanswers : Along (step p.sendBufLimit) (Answers size) acceptedClient es)
    (hkeeps : Along (step p.sendBufLimit) (KeepsAccounts p.sendBufLimit) acceptedClient es) :
    (run (step p.sendBufLimit) acceptedClient es).fault ≠ some .entry ∧
      (run (step p.sendBufLimit) acceptedClient es).log.wrapped = false := by
  have hstart : Accounted p.sendBufLimit size acceptedClient := by
    refine ⟨by decide, rfl, ?_⟩
    intro _ hlive
    cases hlive
  have hstep : ∀ c e, Accounted p.sendBufLimit size c →
      Answers size c e ∧ KeepsAccounts p.sendBufLimit c e →
        Accounted p.sendBufLimit size (c.step p.sendBufLimit e) :=
    fun c e h hok => step_accounted h hok.1 hok.2 p.sendBufLimit_le hsize
  have hend := run_invariant hstep hstart (hanswers.and hkeeps)
  exact ⟨hend.entry, hend.wrapped⟩

/-- A file of three bytes is asked for, and five bytes of the answer leave. -/
theorem accounting_holds_three :
    (run (step Platform.desktop.sendBufLimit) acceptedClient
        [.request 0 .get none (TaskView.zeros [] 0 3 3),
          .sent 5 (TaskView.zeros [] 0 3 3)]).fault ≠ some .entry ∧
      (run (step Platform.desktop.sendBufLimit) acceptedClient
        [.request 0 .get none (TaskView.zeros [] 0 3 3),
          .sent 5 (TaskView.zeros [] 0 3 3)]).log.wrapped = false := by
  have hbounded : (TaskView.zeros [] 0 3 3).Bounded 3 := TaskView.zeros_bounded (le_refl 3)
  apply accounting_holds .desktop (fun _ => 3) _ (fun _ => by decide)
  · exact ⟨hbounded, hbounded, trivial⟩
  · refine ⟨?_, ?_, trivial⟩
    · intro r1 r2 hrange
      cases hrange
      refine ⟨rfl, fun _ => Or.inr ?_⟩
      intro bytes hread
      cases hread
      exact Or.inr (Or.inl (by decide +kernel))
    · intro _ _ _
      refine Or.inr ?_
      intro bytes hread
      -- the whole file has been read
      rw [hbounded.inside _ _ _ hread (by decide +kernel)]
      exact Or.inl (by decide +kernel)

/-- What goes wrong, one run each: a second request before the first answer
    has left; a notification behind an error reply; a notification while the
    answer to a `HEAD` request leaves; a head that is longer than the first
    read and does not fit beside it. -/
theorem accounting_breaks :
    (run (step Platform.desktop.sendBufLimit) acceptedClient
        [.request 0 .get none (TaskView.zeros [] 0 3 3),
          .request 1 .get none (TaskView.zeros [] 0 3 3)]).fault = some .entry ∧
      (run (step Platform.desktop.sendBufLimit) acceptedClient
        [.request 0 .get none (TaskView.zeros [] 404 0 0),
          .recv (TaskView.zeros [] 404 0 0)]).fault = some .entry ∧
      (run (step Platform.desktop.sendBufLimit) acceptedClient
        [.request 0 .head none (TaskView.zeros [] 0 3 3), .sent 5 (TaskView.zeros [] 0 3 3),
          .recv (TaskView.zeros [] 0 3 3)]).fault = some .entry ∧
      (run (step Platform.desktop.sendBufLimit) acceptedClient
        [.request 0 .get none
          (TaskView.zeros (List.replicate 3000 'x') 0 5000 1500)]).log.wrapped = true := by
  refine ⟨?_, ?_, ?_, ?_⟩ <;> decide +kernel

end Client

end Libms
