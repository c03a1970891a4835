import Mathlib
import Libms.Framework.Runs
import Libms.Session.Stream
import Libms.Session.OneResponse

/-! # What is left of a range

    All sessions of one task, which learns the size of its file once. A
    session gets its length when it is opened or when the size is learned,
    and `on_send` takes from it what it adds to the position.

    * `Remaining`: position and length of a reader add up.
    * `Kept`: the states of an open session without a failed assert. In a
      `Short` state the length has wrapped, and the next event fails an
      assert; a session whose connection is closing counts nothing any more.
    * `SharedEvent`: an event of one session, or the head of a response. It
      stores the size first, and then tells all sessions.
    * `remaining_length`: the invariant over all runs. -/

namespace Libms

open CInt Runs

/-- The position and the length of a reader. -/
structure Remaining (F : Nat) (filesize : Int) (s : Session) : Prop where
  explicit : 0 < s.reqLen → s.pos + s.len = s.reqPos + s.reqLen
  -- what is left of a header like `bytes=5--3`, which names no range
  refused : s.reqLen < 0 →
    s.pos + s.len = s.reqPos + s.reqLen ∨ filesize ≠ 0 ∧ s.pos + s.len = F
  unknown : s.reqLen = 0 → filesize = 0 → s.len = 0
  known : s.reqLen = 0 → filesize ≠ 0 → s.pos + s.len = F

/-- A known size leaves no open-ended session waiting before the end. -/
theorem Remaining.not_waiting {F : Nat} {filesize : Int} {s : Session} (h : Remaining F filesize s)
    (hopen : s.reqLen = 0) (hknown : filesize ≠ 0) (hpos : s.pos < F) : 0 < s.len := by
  have := h.known hopen hknown
  omega

namespace Client

variable {limit F : Nat} {v : TaskView} {c c' : Client}

/-! ## One session -/

/-- The states of an open session. -/
inductive Kept (limit F : Nat) (c : Client) : Prop
  | sound (h : Sound limit F c)
  | short (h : Short c)
  | closing (hclosing : c.connection.sendAndClose = true) (hleft : 0 < c.session.len)

/-- A range is never used up while the session is open. -/
theorem Kept.left (h : Kept limit F c) (hranged : 0 < c.session.reqLen) : 0 < c.session.len := by
  cases h with
  | sound h => exact (h.ranged hranged).2
  | short h => exact h.left
  | closing _ hleft => exact hleft

theorem Kept.transfer (h : Kept limit F c) (hv : v.Bounded F) (hlimit : limit ≤ 4096)
    (hF : F < 2 ^ 63) (ht : Transfer limit v c c') (hnone : c'.fault = none) :
    Kept limit F c' := by
  cases h with
  | closing hclosing hleft =>
    have hsame := ht.sameReader
    exact .closing (hsame.closing hclosing) (by rw [hsame.len]; exact hleft)
  | short h =>
    rw [transfer_of_not_balanced h.not_balanced ht] at hnone
    cases hnone
  | sound h =>
    cases ht with
    | entry => cases hnone
    | idle => exact .sound h
    | storage => cases hnone
    | head m hbalanced hready => exact .sound (h.begun hF hbalanced hready m).sound.close
    | body m hbalanced hready =>
      have hbegun := h.begun hF hbalanced hready m
      have hbody := hbegun.body hv hlimit
      generalize c.headed limit v m = d at *
      generalize d.body limit v = c' at *
      cases hbody with
      | range => cases hnone
      | storage => cases hnone
      | empty _ _ _ htook => exact .sound htook
      | moved _ _ _ _ hk htook => exact .sound (htook.move hbegun.headerSend hk)
      -- after a wrap the counters are wrong for good; on a closing connection
      -- nobody looks at them
      | wrapped bytes _ _ hbuf hwraps htook =>
        cases hclosing : d.connection.sendAndClose with
        | false => exact .short (htook.wrap hbegun.balanced hclosing hbegun.headerSend hbuf hwraps)
        | true =>
          have hheld := htook.held_of_buffered hbuf
          have hnonneg := htook.nonneg
          have hpos := List.length_pos_iff.mpr hbuf
          refine .closing hclosing ?_
          show 0 < (d.took limit v bytes).session.len
          omega

theorem Kept.closeIfNeed (h : Kept limit F c) (hc : Closing v c c') : Kept limit F c' := by
  cases h with
  | sound h => exact .sound (h.closing hc)
  | closing hclosing hleft =>
    have hsame := hc.sameReader
    exact .closing (hsame.closing hclosing) (by rw [hsame.len]; exact hleft)
  | short h =>
    cases hc with
    | none => exact .short h
    -- the head of a short session is still in flight
    | close _ _ hhead =>
      have := h.head
      omega
    | reply hunsent =>
      rw [h.headerSend] at hunsent
      cases hunsent

theorem Remaining.of_sameReader {filesize : Int} (h : Remaining F filesize c.session)
    (hsame : SameReader c c') : Remaining F filesize c'.session where
  explicit hranged := by
    rw [hsame.reqLen] at hranged
    rw [hsame.pos, hsame.len, hsame.reqPos, hsame.reqLen]
    exact h.explicit hranged
  refused hnegative := by
    rw [hsame.reqLen] at hnegative
    rw [hsame.pos, hsame.len, hsame.reqPos, hsame.reqLen]
    exact h.refused hnegative
  unknown hopen := by
    rw [hsame.reqLen] at hopen
    rw [hsame.len]
    exact h.unknown hopen
  known hopen := by
    rw [hsame.reqLen] at hopen
    rw [hsame.pos, hsame.len]
    exact h.known hopen

/-- What holds of an open session without a failed assert. -/
structure Good (limit F : Nat) (filesize : Int) (c : Client) : Prop where
  remaining : Remaining F filesize c.session
  kept : Kept limit F c

section events

variable {filesize : Int}

theorem Good.transfer (h : Good limit F filesize c) (hv : v.Bounded F) (hlimit : limit ≤ 4096)
    (hF : F < 2 ^ 63) (ht : Transfer limit v c c') (hnone : c'.fault = none) :
    Good limit F filesize c' :=
  ⟨Remaining.of_sameReader h.remaining ht.sameReader, h.kept.transfer hv hlimit hF ht hnone⟩

theorem Good.closeIfNeed (h : Good limit F filesize c) (hc : Closing v c c') :
    Good limit F filesize c' :=
  ⟨Remaining.of_sameReader h.remaining hc.sameReader, h.kept.closeIfNeed hc⟩

/-- What `on_send` counts goes from the length to the position. -/
theorem Remaining.counted (h : Remaining F filesize c.session) (hsound : Sound limit F c)
    (hopen : c.connection.sendAndClose = false) {n : Nat} (hn : n ≤ c.connection.sendMbuf.length)
    (hlen : c.session.len ≠ 0) : Remaining F filesize (c.counted n).session := by
  obtain ⟨head, k, hcount, -, -, hk⟩ := hsound.counts hopen hn
  have hnonneg := hsound.nonneg
  have hheld := hsound.held
  unfold Client.counted
  rw [hcount]
  simp only [countBody]
  -- the end `pos + len` stays
  have hsum : c.session.pos + k +
      (if 0 < c.session.len then c.session.len - k else c.session.len) =
        c.session.pos + c.session.len := by
    split
    · omega
    · -- a reader behind the end of the file has nothing in flight
      rcases hheld with hheld | ⟨hsending, -⟩ <;> omega
  constructor
  · intro hranged
    exact hsum.trans (h.explicit hranged)
  · intro hnegative
    rcases h.refused hnegative with hrange | ⟨hknown, hend⟩
    · exact Or.inl (hsum.trans hrange)
    · exact Or.inr ⟨hknown, hsum.trans hend⟩
  · intro hzero hnone
    exact absurd (h.unknown hzero hnone) hlen
  · intro hzero hknown
    exact hsum.trans (h.known hzero hknown)

theorem Good.sent (h : Good limit F filesize c) (hv : v.Bounded F) (hlimit : limit ≤ 4096)
    (hF : F < 2 ^ 63) {n : Nat} (hn : n ≤ c.connection.sendMbuf.length) (hs : Sent limit v n c c')
    (hnone : c'.fault = none) (hlive : c'.live = true) : Good limit F filesize c' := by
  obtain ⟨hremaining, hkept⟩ := h
  cases hkept with
  | short hshort =>
    -- a short session fails at its next send
    rcases (hshort.sent hn hs).1 with hfault | hfault
    · rw [hfault] at hnone
      cases hnone
    · rw [hfault] at hnone
      cases hnone
  | closing hclosing hleft =>
    rw [hs.of_closing hclosing]
    exact ⟨{ hremaining with }, .closing hclosing hleft⟩
  | sound hsound =>
    cases hs with
    | ignored hclosing => exact ⟨{ hremaining with }, .sound (hsound.ignored hclosing hn)⟩
    | head hopen hlen =>
      obtain ⟨head, k, hcount, -⟩ := countHead_spec n c.session
      have hcounted := hsound.counted_head hopen hn hlen
      rw [hcount] at hcounted ⊢
      exact ⟨{ hremaining with }, .sound hcounted⟩
    | drained => cases hnone
    | finish => cases hlive
    | transfer hopen hlen hmore ht hc =>
      have hcounted : Good limit F filesize (c.counted n) :=
        ⟨Remaining.counted hremaining hsound hopen hn hlen, .sound (hsound.counted hopen hn hmore)⟩
      obtain ⟨-, -, hfault, -⟩ := closing_frame hc
      exact (hcounted.transfer hv hlimit hF ht (hfault ▸ hnone)).closeIfNeed hc

/-- The sessions are told the size: the one they know, or the one that was
    just learned. -/
theorem Good.contentSize (h : Good limit F filesize c) (hv : v.Bounded F)
    (hsize : filesize = 0 ∨ filesize = v.filesize) :
    Good limit F v.filesize (c.onContentSizeFrom v) := by
  obtain ⟨hremaining, hkept⟩ := h
  have hsized := hv.filesize
  unfold onContentSizeFrom
  by_cases hlen : 0 < c.session.len
  · rw [if_pos hlen]
    refine ⟨⟨hremaining.explicit, fun hnegative => ?_, fun hzero hnone => ?_,
      fun hzero hknown => ?_⟩, hkept⟩
    · rcases hremaining.refused hnegative with hrange | ⟨hknown, hend⟩
      · exact Or.inl hrange
      · exact Or.inr ⟨by omega, hend⟩
    · exact hremaining.unknown hzero (by omega)
    · -- a session with a length was told the size before
      apply hremaining.known hzero
      intro hnone
      have := hremaining.unknown hzero hnone
      omega
  · rw [if_neg hlen]
    by_cases hknown : 0 < v.filesize
    · -- a length that is not positive is set anew; the range was refused or open-ended
      rw [if_pos hknown]
      have hsum : c.session.pos + (v.filesize - c.session.pos) = F := by omega
      refine ⟨⟨fun hranged => absurd (hkept.left hranged) hlen,
        fun _ => Or.inr ⟨by omega, hsum⟩, fun _ hnone => by omega, fun _ _ => hsum⟩, ?_⟩
      cases hkept with
      | short hshort => exact absurd hshort.left hlen
      | closing _ hleft => exact absurd hleft hlen
      | sound hsound =>
        have htold := hsound.onContentSizeFrom hv
        unfold Client.onContentSizeFrom at htold
        rw [if_neg hlen, if_pos hknown] at htold
        exact .sound htold
    · rw [if_neg hknown]
      refine ⟨⟨hremaining.explicit, fun hnegative => ?_,
        fun hzero _ => hremaining.unknown hzero (by omega), fun _ hne => ?_⟩, hkept⟩
      · rcases hremaining.refused hnegative with hrange | ⟨hsome, -⟩
        · exact Or.inl hrange
        · omega
      · omega

/-- An event of an open session. -/
theorem Moved.good {e : SessionEvent} (hm : Moved limit c e c')
    (h : c.live = true → Good limit F filesize c)
    (hv : ∀ v ∈ e.view?, v.Bounded F ∧ v.filesize = filesize) (hlimit : limit ≤ 4096)
    (hF : F < 2 ^ 63) (hfault : c.fault = none) (hnone : c'.fault = none)
    (hlive : c'.live = true) : Good limit F filesize c' := by
  cases hm with
  | idle => exact h hlive
  | recv v hopen =>
    obtain ⟨hbounded, -⟩ := hv v rfl
    have hc := @closeIfNeed_closing v (c.tryTransfer limit v)
    obtain ⟨-, -, hfault', -⟩ := closing_frame hc
    exact ((h hopen).transfer hbounded hlimit hF (tryTransfer_transfer hfault)
      (hfault' ▸ hnone)).closeIfNeed hc
  | contentSize v hopen =>
    obtain ⟨hbounded, hsize⟩ := hv v rfl
    have htold := (h hopen).contentSize hbounded (Or.inr hsize.symm)
    rw [hsize] at htold
    exact htold
  | error v hopen => exact (h hopen).closeIfNeed closeIfNeed_closing
  | close => cases hlive
  | drain n v _ _ hover =>
    have hlive' : c.live = true := hlive
    rw [hover] at hlive'
    cases hlive'
  | sent n v _ hn hopen hs =>
    exact (h hopen).sent (hv v rfl).1 hlimit hF hn hs hnone hlive

/-- The reader of a new session. -/
theorem openSession_remaining {task : Nat} {method : Method} {r1 r2 : Int} (hv : v.Bounded F) :
    Remaining F v.filesize (c.openSession task method r1 r2 v).session := by
  have hsized := hv.filesize
  have hlen : (c.openSession task method r1 r2 v).session.len =
      if r2 = 0 ∧ 0 < v.filesize then v.filesize - r1 else r2 := rfl
  constructor
  · intro (hranged : 0 < r2)
    show r1 + (c.openSession task method r1 r2 v).session.len = r1 + r2
    rw [hlen, if_neg (by omega)]
  · intro (hnegative : r2 < 0)
    refine Or.inl ?_
    show r1 + (c.openSession task method r1 r2 v).session.len = r1 + r2
    rw [hlen, if_neg (by omega)]
  · intro (hzero : r2 = 0) hnone
    rw [hlen, if_neg (by omega)]
    exact hzero
  · intro (hzero : r2 = 0) hknown
    show r1 + (c.openSession task method r1 r2 v).session.len = F
    rw [hlen, if_pos ⟨hzero, by omega⟩]
    omega

/-- A request opens a session with the size that is known. -/
theorem request_good {task : Nat} {method : Method} {rangeHdr : Option (List Char)}
    (hv : v.Bounded F) (hlimit : limit ≤ 4096) (hF : F < 2 ^ 63) (hfault : c.fault = none)
    (hnone : (c.step limit (.request task method rangeHdr v)).fault = none) :
    Good limit F v.filesize (c.step limit (.request task method rangeHdr v)) := by
  unfold step at hnone ⊢
  rw [if_neg (by rw [hfault]; exact Bool.false_ne_true)] at hnone ⊢
  cases hrange : requestedRange rangeHdr with
  | none =>
    simp only [hrange] at hnone
    cases hnone
  | some range =>
    obtain ⟨r1, r2⟩ := range
    simp only [hrange] at hnone ⊢
    have ht := @tryTransfer_transfer limit v (c.openSession task method r1 r2 v) rfl
    have hc := @closeIfNeed_closing v ((c.openSession task method r1 r2 v).tryTransfer limit v)
    obtain ⟨-, -, hfault', -⟩ := closing_frame hc
    rw [hfault'] at hnone
    by_cases hempty : c.connection.sendMbuf = []
    · have hgood : Good limit F v.filesize (c.openSession task method r1 r2 v) :=
        ⟨openSession_remaining hv, .sound (openSession_sound hv hrange hempty)⟩
      exact (hgood.transfer hv hlimit hF ht hnone).closeIfNeed hc
    · -- an older response is in flight: the first transfer fails its assert
      rw [transfer_of_not_balanced (openSession_not_balanced hempty) ht] at hnone
      cases hnone

end events

end Client

/-! ## All sessions of a task -/

/-- A task whose file size is known or zero, and the connections with their
    sessions on it. -/
structure TaskSessions where
  filesize : Int
  clients : Nat → Client

/-- The answers of a task that knows this size. -/
def TaskView.sized (v : TaskView) (filesize : Int) : TaskView := { v with filesize := filesize }

def SessionEvent.sized (filesize : Int) : SessionEvent → SessionEvent
  | .recv v => .recv (v.sized filesize)
  | .contentSize v => .contentSize (v.sized filesize)
  | .error v => .error (v.sized filesize)
  | .sent n v => .sent n (v.sized filesize)
  | .close => .close

/-- What happens around a task: a request on connection `i`, an event of its
    session, the head of a response with the total it announces (zero for
    none), or something on connection `i` that is not for this task and ends
    its session here. -/
inductive SharedEvent where
  | request (i : Nat) (method : Method) (rangeHdr : Option (List Char)) (v : TaskView)
  | session (i : Nat) (e : SessionEvent)
  | response (announced reqLen pos size : Int) (v : TaskView)
  | elsewhere (i : Nat) (nc : Connection)

/-- The task has `F` bytes: that is the size it learns, and what its sessions
    read is inside. -/
def SharedEvent.Of (F : Nat) : SharedEvent → Prop
  | .request _ _ _ v => (v.sized F).Bounded F
  | .session _ e => ∀ v ∈ e.view?, (v.sized F).Bounded F
  | .response announced reqLen pos size v =>
    (v.sized F).Bounded F ∧ (0 < announced → announced = F) ∧ (reqLen = 0 → pos + size = F)
  | .elsewhere _ _ => True

namespace TaskSessions

/-- The connection `i` changes. -/
def setClient (x : TaskSessions) (i : Nat) (c : Client) : TaskSessions :=
  { x with clients := Function.update x.clients i c }

/-- `on_filesize` of the task. The readers do nothing then. -/
def onFilesize (filesize : Int) (x : TaskSessions) : TaskSessions := { x with filesize := filesize }

/-- `on_content_size` of the task: an open-ended answer gives the size, and
    every reader is told. -/
def onContentSize (limit : Nat) (reqLen pos size : Int) (v : TaskView) (x : TaskSessions) :
    TaskSessions :=
  let filesize := if reqLen = 0 then pos + size else x.filesize
  { filesize := filesize
    clients := fun i => (x.clients i).step limit (.contentSize (v.sized filesize)) }

/-- One event. -/
def step (limit : Nat) (x : TaskSessions) : SharedEvent → TaskSessions
  | .request i method rangeHdr v =>
    x.setClient i ((x.clients i).step limit (.request 0 method rangeHdr (v.sized x.filesize)))
  | .session i e => x.setClient i ((x.clients i).step limit (e.sized x.filesize).client)
  | .response announced reqLen pos size v =>
    let x := if 0 < announced then x.onFilesize announced else x
    x.onContentSize limit reqLen pos size v
  | .elsewhere i nc => x.setClient i { x.clients i with connection := nc, live := false }

/-- A task without sessions, before it knows the size. -/
def start : TaskSessions := ⟨0, fun _ => acceptedClient⟩

/-- The invariant. -/
structure Inv (limit F : Nat) (x : TaskSessions) : Prop where
  filesize : x.filesize = 0 ∨ x.filesize = F
  good : ∀ i, (x.clients i).fault = none → (x.clients i).live = true →
    Client.Good limit F x.filesize (x.clients i)

variable {limit F : Nat} {x : TaskSessions}

theorem sized_bounded {v : TaskView} {filesize : Int} (h : (v.sized F).Bounded F)
    (hsize : filesize = 0 ∨ filesize = F) : (v.sized filesize).Bounded F where
  filesize := hsize
  length := h.length
  inside := h.inside

theorem sized_view {e : SessionEvent} {filesize : Int}
    (h : ∀ v ∈ e.view?, (v.sized F).Bounded F) (hsize : filesize = 0 ∨ filesize = F) :
    ∀ v ∈ (e.sized filesize).view?, v.Bounded F ∧ v.filesize = filesize := by
  cases e with
  | recv v => rintro _ ⟨⟩; exact ⟨sized_bounded (h v rfl) hsize, rfl⟩
  | contentSize v => rintro _ ⟨⟩; exact ⟨sized_bounded (h v rfl) hsize, rfl⟩
  | error v => rintro _ ⟨⟩; exact ⟨sized_bounded (h v rfl) hsize, rfl⟩
  | sent n v => rintro _ ⟨⟩; exact ⟨sized_bounded (h v rfl) hsize, rfl⟩
  | close => rintro _ ⟨⟩

/-- An assert that has failed stays failed. -/
theorem fault_before {c : Client} {e : Client.ClientEvent} (hnone : (c.step limit e).fault = none) :
    c.fault = none := by
  cases hfault : c.fault with
  | none => rfl
  | some f =>
    unfold Client.step at hnone
    rw [if_pos (by rw [hfault]; rfl), hfault] at hnone
    cases hnone

/-- An event on one connection leaves the others alone. -/
theorem Inv.setClient (h : Inv limit F x) (i : Nat) {c : Client}
    (hc : c.fault = none → c.live = true → Client.Good limit F x.filesize c) :
    Inv limit F (x.setClient i c) := by
  refine ⟨h.filesize, fun j => ?_⟩
  by_cases hj : j = i
  · subst hj
    have hself : (x.setClient j c).clients j = c := Function.update_self ..
    rw [hself]
    exact hc
  · have hother : (x.setClient i c).clients j = x.clients j := Function.update_of_ne hj ..
    rw [hother]
    exact h.good j

/-- A session is told the size. It is called with what it knew before. -/
theorem told_good {c : Client} {v : TaskView} {old : Int}
    (h : c.fault = none → c.live = true → Client.Good limit F old c) (hv : v.Bounded F)
    (hold : old = 0 ∨ old = v.filesize)
    (hnone : (c.step limit (.contentSize v)).fault = none)
    (hlive : (c.step limit (.contentSize v)).live = true) :
    Client.Good limit F v.filesize (c.step limit (.contentSize v)) := by
  have hfault := fault_before hnone
  have hstep : c.step limit (.contentSize v) = if c.live then c.onContentSizeFrom v else c := by
    unfold Client.step
    rw [if_neg (by rw [hfault]; exact Bool.false_ne_true)]
  rw [hstep] at hlive ⊢
  cases hopen : c.live with
  | true => exact (h hfault hopen).contentSize hv hold
  | false =>
    rw [hopen] at hlive
    rw [if_neg Bool.false_ne_true, hopen] at hlive
    cases hlive

/-- The size is stored before it is told: the sessions know `old`, and the
    task the same or more. -/
theorem onContentSize_inv {old reqLen pos size : Int} {v : TaskView}
    (hgood : ∀ i, (x.clients i).fault = none → (x.clients i).live = true →
      Client.Good limit F old (x.clients i))
    (hfilesize : x.filesize = 0 ∨ x.filesize = F) (hold : old = 0 ∨ old = x.filesize)
    (hv : (v.sized F).Bounded F) (hsize : reqLen = 0 → pos + size = F) :
    Inv limit F (x.onContentSize limit reqLen pos size v) := by
  have hstored : (x.onContentSize limit reqLen pos size v).filesize =
      if reqLen = 0 then pos + size else x.filesize := rfl
  have hknown : (x.onContentSize limit reqLen pos size v).filesize = 0 ∨
      (x.onContentSize limit reqLen pos size v).filesize = F := by
    rw [hstored]
    split
    · rename_i hopen
      exact Or.inr (hsize hopen)
    · exact hfilesize
  refine ⟨hknown, fun i => told_good (hgood i) (sized_bounded hv hknown) ?_⟩
  show old = 0 ∨ old = (x.onContentSize limit reqLen pos size v).filesize
  rw [hstored]
  split
  · rename_i hopen
    have := hsize hopen
    omega
  · exact hold

theorem Inv.step (h : Inv limit F x) (hlimit : limit ≤ 4096) (hF : F < 2 ^ 63) {e : SharedEvent}
    (he : e.Of F) : Inv limit F (x.step limit e) := by
  cases e with
  | request i method rangeHdr v =>
    refine h.setClient i fun hnone _ => ?_
    exact Client.request_good (sized_bounded he h.filesize) hlimit hF (fault_before hnone) hnone
  | session i e =>
    refine h.setClient i fun hnone hlive => ?_
    have hfault := fault_before hnone
    exact (Client.step_moved (e.sized x.filesize) hfault).good (h.good i hfault)
      (sized_view he h.filesize) hlimit hF hfault hnone hlive
  | response announced reqLen pos size v =>
    obtain ⟨hv, hannounced, hsize⟩ := he
    by_cases htotal : 0 < announced
    · have hstep : x.step limit (.response announced reqLen pos size v) =
          (x.onFilesize announced).onContentSize limit reqLen pos size v := by
        simp only [TaskSessions.step, if_pos htotal]
      rw [hstep]
      refine onContentSize_inv h.good (Or.inr (hannounced htotal)) ?_ hv hsize
      rcases h.filesize with hunknown | hknown
      · exact Or.inl hunknown
      · exact Or.inr (hknown.trans (hannounced htotal).symm)
    · have hstep : x.step limit (.response announced reqLen pos size v) =
          x.onContentSize limit reqLen pos size v := by
        simp only [TaskSessions.step, if_neg htotal]
      rw [hstep]
      exact onContentSize_inv h.good h.filesize (Or.inr rfl) hv hsize
  | elsewhere i nc => exact h.setClient i fun _ hlive => by cases hlive

theorem start_inv : Inv limit F start := ⟨Or.inl rfl, fun _ _ hlive => by cases hlive⟩

end TaskSessions

/-- In every run of a task that learns its size once, the position and the
    length of every reader add up, and no open-ended session is left to wait
    once the size is known. -/
theorem remaining_length (p : Platform) (F : Nat) (es : List SharedEvent) (hF : F < 2 ^ 63)
    (hes : ∀ e ∈ es, e.Of F) (i : Nat)
    (hnone : ((run (TaskSessions.step p.sendBufLimit) .start es).clients i).fault = none)
    (hlive : ((run (TaskSessions.step p.sendBufLimit) .start es).clients i).live = true) :
    let x := run (TaskSessions.step p.sendBufLimit) .start es
    let s := (x.clients i).session
    Remaining F x.filesize s ∧ (s.reqLen = 0 → x.filesize ≠ 0 → s.pos < F → 0 < s.len) := by
  have hlimit := p.sendBufLimit_le
  have hstep : ∀ (x : TaskSessions) (e : SharedEvent), TaskSessions.Inv p.sendBufLimit F x →
      e.Of F → TaskSessions.Inv p.sendBufLimit F (x.step p.sendBufLimit e) :=
    fun _ _ hx he => hx.step hlimit hF he
  have hinv := run_invariant hstep TaskSessions.start_inv (along_of_forall hes)
  have hremaining := (hinv.good i hnone hlive).remaining
  exact ⟨hremaining, hremaining.not_waiting⟩

/-- A session waits for the size, is told it, and sends the file from its
    second byte on. -/
theorem remaining_length_three :
    let x := run (TaskSessions.step Platform.desktop.sendBufLimit) .start
      [.request 0 .get (some "bytes=1-".toList) (TaskView.ofFile [1, 2, 3]),
        .response 3 0 1 2 (TaskView.ofFile [1, 2, 3]),
        .session 0 (.recv (TaskView.ofFile [1, 2, 3]))]
    let s := (x.clients 0).session
    Remaining 3 x.filesize s ∧ (s.reqLen = 0 → x.filesize ≠ 0 → s.pos < 3 → 0 < s.len) := by
  have hbounded : (TaskView.ofFile [1, 2, 3]).Bounded 3 :=
    (TaskView.ofFile_serves [1, 2, 3]).bounded
  refine remaining_length .desktop 3 _ (by decide) ?_ 0 (by decide +kernel) (by decide +kernel)
  intro e he
  fin_cases he
  · exact hbounded
  · exact ⟨hbounded, fun _ => rfl, fun _ => rfl⟩
  · rintro v ⟨⟩
    exact hbounded

end Libms
