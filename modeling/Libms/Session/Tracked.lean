import Mathlib
import Libms.Framework.Runs
import Libms.Session.HeadNumbers

/-! # Where a session reads

    `wanted` is narrowed by three expressions of type `size_t`: the space
    left in the session's buffer, what is left of the range besides the
    bytes in flight, and what is left of the file. Each is a subtraction
    that may wrap.

    * `InBounds`: nothing wraps, and the read fits the buffer and the file.
    * `Posed.inBounds_iff`: when this is so.
    * `Tracked`: the states of a session whose reads were in bounds. A wrap of
      `len -= header_sending` leads to a `Short` state, or to a `Lame` one if
      the connection is closing.
    * `Moved.followed`: an event leads from a tracked state to another. -/

namespace Libms

open CInt Runs

namespace Client

/-- The read of the body part: no subtraction of `wanted` wraps, and the read
    fits what is left of the buffer and of a file of `F` bytes. -/
structure InBounds (limit F : Nat) (v : TaskView) (d : Client) : Prop where
  space : d.session.buf.length ≤ limit
  left : 0 ≤ d.session.len - d.session.sending
  rest : d.readFrom ≤ F
  fits : (wanted limit v d.session d.readFrom : Int) ≤ limit - d.session.buf.length
  inside : d.readFrom + wanted limit v d.session d.readFrom ≤ F

variable {limit F : Nat} {v : TaskView} {c c' d : Client}

/-! ## When a read is in bounds -/

/-- What a read needs to know of the session. -/
structure Posed (limit F : Nat) (s : Session) : Prop where
  small : s.buf.length ≤ limit
  floor : -(limit + 150 : Int) ≤ s.sending
  forward : s.reqPos ≤ s.pos
  held : s.sending + s.buf.length ≤ s.len ∨ (s.sending = 0 ∧ s.buf = [])
  reach : nextOffset s ≤ F ∨ (F < s.reqPos ∧ s.buf = [])

/-- A session that is ready has not lost more than it sends. -/
theorem Ready.sending_nonneg (h : Ready limit v c.session) (hlimit : limit ≤ 4096)
    (hfloor : -(limit + 150 : Int) ≤ c.session.sending) : 0 ≤ c.session.sending := by
  by_contra hneg
  have hwrapped := sizeT_of_neg (z := c.session.sending) (by omega) (by omega)
  have hready := h.1
  omega

/-- **A read is in bounds** iff the request starts inside the file or at its
    end and the length is not negative. -/
theorem Posed.inBounds_iff (h : Posed limit F d.session) (hlimit : limit ≤ 4096)
    (hbalanced : d.Balanced) (hready : Ready limit v d.session) (hsize : v.filesize = F)
    (hfile : 0 < F) : d.InBounds limit F v ↔ d.session.reqPos ≤ F ∧ 0 ≤ d.session.len := by
  have hfrom := hbalanced.readFrom
  have hsending := hready.sending_nonneg hlimit h.floor
  have hforward := h.forward
  constructor
  · intro hin
    have hrest := hin.rest
    have hleft := hin.left
    unfold nextOffset at hfrom
    exact ⟨by omega, by omega⟩
  · intro ⟨hstart, hlen⟩
    have hreach : nextOffset d.session ≤ F := by
      rcases h.reach with hreach | ⟨hpast, -⟩
      · exact hreach
      · omega
    rw [← hfrom] at hreach
    obtain ⟨hfits, hinside, -⟩ := wanted_spec (v := v) hlimit hsize hfile h.small hreach
    refine ⟨h.small, ?_, hreach, by omega, hinside⟩
    rcases h.held with hheld | ⟨hzero, -⟩ <;> omega

/-! ## The states of a session -/

/-- A sound session, and where its next read starts. -/
structure Within (limit F : Nat) (c : Client) : Prop where
  sound : Sound limit F c
  reach : nextOffset c.session ≤ F ∨ (F < c.session.reqPos ∧ c.session.buf = [])

/-- The length has wrapped on a closing connection. The counters are wrong
    for good, but on the safe side. -/
structure Lame (limit F : Nat) (c : Client) : Prop where
  closing : c.connection.sendAndClose = true
  headerSend : c.connection.headerSend = true
  head : c.session.headerSending ≤ limit + 150
  posed : Posed limit F c.session
  start : c.session.reqPos ≤ F
  left : 0 < c.session.len
  held : c.session.sending + c.session.buf.length ≤ c.session.len
  asked : 0 ≤ c.session.reqLen
  ranged : 0 < c.session.reqLen →
    c.session.pos + c.session.len = c.session.reqPos + c.session.reqLen
  openEnded : c.session.reqLen = 0 → c.session.pos + c.session.len = F

/-- The states of an open session without a failed assert. -/
inductive Tracked (limit F : Nat) (c : Client) : Prop
  | within (h : Within limit F c)
  | short (h : Short c)
  | lame (h : Lame limit F c)

theorem Within.posed (h : Within limit F c) : Posed limit F c.session where
  small := h.sound.small
  floor := by have := h.sound.nonneg; omega
  forward := h.sound.forward
  held := h.sound.held
  reach := h.reach

/-- What is left alone keeps the offset of the next read. -/
theorem Within.of_sound (h : Within limit F c) (hsound : Sound limit F c')
    (hoffset : nextOffset c'.session = nextOffset c.session)
    (hreqPos : c'.session.reqPos = c.session.reqPos)
    (hbuf : c.session.buf = [] → c'.session.buf = []) : Within limit F c' := by
  refine ⟨hsound, ?_⟩
  rw [hoffset, hreqPos]
  rcases h.reach with hreach | ⟨hpast, hnil⟩
  · exact Or.inl hreach
  · exact Or.inr ⟨hpast, hbuf hnil⟩

/-! ## A transfer -/

/-- Behind the start of its file a session reads nothing, and else it reads
    up to the end at most. -/
theorem Within.took (h : Within limit F d) (hv : v.Bounded F) (hlimit : limit ≤ 4096)
    (hbalanced : d.Balanced) (hready : Ready limit v d.session) {bytes : List UInt8}
    (hread : v.read d.readFrom (wanted limit v d.session d.readFrom) = some bytes)
    (htook : Sound limit F (d.took limit v bytes)) : Within limit F (d.took limit v bytes) := by
  have hanswer := h.sound.answer hv hlimit hready hread
  have hfrom := hbalanced.readFrom
  have hnonneg := h.sound.nonneg
  have hforward := h.sound.forward
  refine ⟨htook, ?_⟩
  show d.session.pos + d.session.sending + (d.session.buf ++ bytes).length ≤ (F : Int) ∨
    (F < d.session.reqPos ∧ d.session.buf ++ bytes = [])
  rw [List.length_append]
  unfold nextOffset at hfrom
  rcases h.reach with hreach | ⟨hpast, hnil⟩
  · unfold nextOffset at hreach
    rcases hanswer with hnone | ⟨-, hinside, -⟩
    · rw [hnone]
      exact Or.inl (by simpa using hreach)
    · exact Or.inl (by omega)
  · rcases hanswer with hnone | ⟨-, hinside, -⟩
    · rw [hnil, hnone]
      exact Or.inr ⟨hpast, rfl⟩
    · omega

/-- After a wrap the bytes in flight are counted too low. -/
theorem Within.wrap (h : Within limit F c) (hclosing : c.connection.sendAndClose = true)
    (hsent : c.connection.headerSend = true) (hbuf : c.session.buf ≠ [])
    (hwraps : Wraps limit c.session) : Lame limit F c.wrap := by
  have hsound := h.sound
  have hheld := hsound.held_of_buffered hbuf
  have hnonneg := hsound.nonneg
  have hforward := hsound.forward
  have hhead := hsound.head
  have hpos := List.length_pos_iff.mpr hbuf
  have hless := hwraps.2
  have hreach : nextOffset c.session ≤ F := by
    rcases h.reach with hreach | ⟨-, hnil⟩
    · exact hreach
    · exact absurd hnil hbuf
  have hasked : 0 ≤ c.session.reqLen := by
    by_contra hneg
    exact hbuf (hsound.refused (by omega)).2.2.1
  unfold nextOffset at hreach
  have hless' : c.session.sending + c.session.buf.length - c.session.headerSending +
      c.session.buf.length ≤ c.session.sending + c.session.buf.length := by omega
  have hoffset : c.session.pos + (c.session.sending + c.session.buf.length -
      c.session.headerSending) + c.session.buf.length ≤ F := by omega
  refine ⟨hclosing, hsent, hhead, ⟨hsound.small, ?_, hforward, Or.inl ?_, Or.inl hoffset⟩, ?_, ?_,
    ?_, hasked, fun hranged => (hsound.ranged hranged).1, ?_⟩
  · show -(limit + 150 : Int) ≤
      c.session.sending + c.session.buf.length - c.session.headerSending
    omega
  · exact hless'.trans hheld
  · show c.session.reqPos ≤ F
    omega
  · show 0 < c.session.len
    omega
  · exact hless'.trans hheld
  · intro hzero
    rcases hsound.openEnded hzero with hend | ⟨-, hunsent⟩
    · exact hend
    · rw [hsent] at hunsent
      cases hunsent

/-- **A transfer of a sound session.** -/
theorem Within.transfer (h : Within limit F c) (hv : v.Bounded F) (hlimit : limit ≤ 4096)
    (hF : F < 2 ^ 63) (ht : Transfer limit v c c') (hnone : c'.fault = none) :
    Tracked limit F c' := by
  cases ht with
  | entry => cases hnone
  | idle => exact .within h
  | storage => cases hnone
  | head m hbalanced hready =>
    obtain ⟨unsent, hsession⟩ := @headed_session limit v c m
    have hsound := (h.sound.begun hF hbalanced hready m).sound.close
    refine .within (h.of_sound hsound ?_ ?_ ?_)
    · show nextOffset (c.headed limit v m).session = nextOffset c.session
      rw [hsession]
      rfl
    · show (c.headed limit v m).session.reqPos = c.session.reqPos
      rw [hsession]
    · intro hnil
      show (c.headed limit v m).session.buf = []
      rw [hsession]
      exact hnil
  | body m hbalanced hready =>
    have hbegun := h.sound.begun hF hbalanced hready m
    obtain ⟨unsent, hsession⟩ := @headed_session limit v c m
    have hheaded : Within limit F (c.headed limit v m) := by
      refine h.of_sound hbegun.sound ?_ ?_ ?_
      · rw [hsession]
        rfl
      · rw [hsession]
      · intro hnil
        rw [hsession]
        exact hnil
    have hbody := hbegun.body hv hlimit
    generalize c.headed limit v m = d at *
    have htook : ∀ {bytes}, v.read d.readFrom (wanted limit v d.session d.readFrom) = some bytes →
        Sound limit F (d.took limit v bytes) → Within limit F (d.took limit v bytes) :=
      fun hread hsound => hheaded.took hv hlimit hbegun.balanced hbegun.ready hread hsound
    generalize d.body limit v = c' at *
    cases hbody with
    | range => cases hnone
    | storage => cases hnone
    | empty bytes _ hread hsound => exact .within (htook hread hsound)
    | moved bytes k _ hread hk hsound =>
      refine .within ((htook hread hsound).of_sound (hsound.move hbegun.headerSend hk) ?_ rfl ?_)
      · -- the bytes go from the buffer to the send buffer
        have hdrop : ((d.session.buf ++ bytes).drop k).length + k =
            (d.session.buf ++ bytes).length := by
          rw [List.length_drop]
          exact Nat.sub_add_cancel hk
        show d.session.pos + (d.session.sending + k) +
            (((d.session.buf ++ bytes).drop k).length : Int) =
          d.session.pos + d.session.sending + ((d.session.buf ++ bytes).length : Int)
        omega
      · intro hnil
        show (d.took limit v bytes).session.buf.drop k = []
        rw [hnil, List.drop_nil]
    | wrapped bytes _ hread hbuf hwraps hsound =>
      cases hclosing : d.connection.sendAndClose with
      | false =>
        exact .short (hsound.wrap hbegun.balanced hclosing hbegun.headerSend hbuf hwraps)
      | true => exact .lame ((htook hread hsound).wrap hclosing hbegun.headerSend hbuf hwraps)

/-! ## A lame session -/

/-- What is read behind a wrap is in bounds too. -/
theorem Lame.took (h : Lame limit F d) (hv : v.Bounded F) (hlimit : limit ≤ 4096)
    (hbalanced : d.Balanced) (hready : Ready limit v d.session) (hpast : ¬ d.PastRange limit v)
    {bytes : List UInt8}
    (hread : v.read d.readFrom (wanted limit v d.session d.readFrom) = some bytes) :
    Lame limit F (d.took limit v bytes) := by
  have hsize : v.filesize = F := hv.filesize.resolve_left hready.2.2
  have hfile : 0 < F := by
    have := hready.2.2
    omega
  have hlen := hv.length _ _ _ hread
  have hin := (h.posed.inBounds_iff hlimit hbalanced hready hsize hfile).mpr
    ⟨h.start, le_of_lt h.left⟩
  have hword := (wanted_spec (v := v) hlimit hsize hfile h.posed.small hin.rest).2.2
  have hfits := hin.fits
  have hinside := hin.inside
  have hfrom := hbalanced.readFrom
  unfold nextOffset at hfrom
  unfold PastRange at hpast
  rw [hword] at hpast
  have hlength : (d.session.buf ++ bytes).length = d.session.buf.length + bytes.length :=
    List.length_append
  have hranged := h.ranged
  have hopenEnded := h.openEnded
  have hasked := h.asked
  have hsmall : (d.session.buf ++ bytes).length ≤ limit := by omega
  have hoffset : d.session.pos + d.session.sending + ((d.session.buf ++ bytes).length : Int) ≤ F :=
    by omega
  have hheld : d.session.sending + ((d.session.buf ++ bytes).length : Int) ≤ d.session.len := by
    rcases hasked.eq_or_lt with hzero | hpos
    · have hend := hopenEnded hzero.symm
      omega
    · have hend := hranged hpos
      have hstop : ¬ (d.session.reqPos + d.session.reqLen <
          d.readFrom + (wanted limit v d.session d.readFrom : Int)) :=
        fun hlt => hpast ⟨by omega, hlt⟩
      omega
  exact ⟨h.closing, h.headerSend, h.head, ⟨hsmall, h.posed.floor, h.posed.forward, Or.inl hheld,
    Or.inl hoffset⟩, h.start, h.left, hheld, hasked, hranged, hopenEnded⟩

theorem Lame.reach (h : Lame limit F d) : nextOffset d.session ≤ F := by
  rcases h.posed.reach with hreach | ⟨hpast, -⟩
  · exact hreach
  · have := h.start
    omega

/-- Counting too little again. -/
theorem Lame.wrap (h : Lame limit F d) (hsending : 0 ≤ d.session.sending)
    (hwraps : Wraps limit d.session) : Lame limit F d.wrap := by
  have hless := hwraps.2
  have hhead := h.head
  have hreach := h.reach
  have hheld := h.held
  unfold nextOffset at hreach
  have hheld' : d.session.sending + d.session.buf.length - d.session.headerSending +
      d.session.buf.length ≤ d.session.len := by omega
  have hoffset : d.session.pos + (d.session.sending + d.session.buf.length -
      d.session.headerSending) + d.session.buf.length ≤ F := by omega
  refine { h with posed := ⟨h.posed.small, ?_, h.posed.forward, Or.inl hheld', Or.inl hoffset⟩,
                  held := hheld' }
  show -(limit + 150 : Int) ≤ d.session.sending + d.session.buf.length - d.session.headerSending
  omega

theorem Lame.move (h : Lame limit F d) {k : Nat} (hk : k ≤ d.session.buf.length) :
    Lame limit F (d.move k) := by
  have hsmall := h.posed.small
  have hfloor := h.posed.floor
  have hreach := h.reach
  have hheld := h.held
  unfold nextOffset at hreach
  have hdrop : (d.session.buf.drop k).length = d.session.buf.length - k := List.length_drop
  have hheld' : d.session.sending + k + ((d.session.buf.drop k).length : Int) ≤ d.session.len := by
    omega
  have hoffset : d.session.pos + (d.session.sending + k) + ((d.session.buf.drop k).length : Int) ≤
      F := by omega
  have hfloor' : -(limit + 150 : Int) ≤ d.session.sending + k := by omega
  have hsmall' : (d.session.buf.drop k).length ≤ limit := by omega
  exact { h with posed := ⟨hsmall', hfloor', h.posed.forward, Or.inl hheld', Or.inl hoffset⟩,
                 held := hheld' }

/-- **A transfer of a lame session.** -/
theorem Lame.transfer (h : Lame limit F c) (hv : v.Bounded F) (hlimit : limit ≤ 4096)
    (ht : Transfer limit v c c') (hnone : c'.fault = none) : Lame limit F c' := by
  cases ht with
  | entry => cases hnone
  | idle => exact h
  | storage => cases hnone
  | head m =>
    rw [headed_of_sent h.headerSend]
    exact { h with closing := rfl, posed := { h.posed with } }
  | body m hbalanced hready =>
    rw [headed_of_sent h.headerSend] at hnone ⊢
    have hd : Lame limit F (c.setSession { c.session with isMedia := m }) :=
      { h with posed := { h.posed with } }
    have hbalanced' : (c.setSession { c.session with isMedia := m }).Balanced := hbalanced
    have hready' : Ready limit v (c.setSession { c.session with isMedia := m }).session := hready
    generalize c.setSession { c.session with isMedia := m } = d at *
    have hsending := hready'.sending_nonneg hlimit hd.posed.floor
    have hbody := @body_body limit v d
    generalize d.body limit v = c' at *
    cases hbody with
    | range => cases hnone
    | storage => cases hnone
    | empty bytes hpast hread => exact hd.took hv hlimit hbalanced' hready' hpast hread
    | send bytes hpast hread hbuf =>
      have htook := hd.took hv hlimit hbalanced' hready' hpast hread
      have hhead := htook.head
      have hsmall := htook.posed.small
      have hheld := htook.held
      have hrange : (d.took limit v bytes).session.reqLen ≠ 0 →
          (d.took limit v bytes).session.pos + (d.took limit v bytes).session.sending +
            (d.took limit v bytes).session.buf.length ≤
          (d.took limit v bytes).session.reqPos + (d.took limit v bytes).session.reqLen := by
        intro hne
        have hend := htook.ranged (lt_of_le_of_ne htook.asked (Ne.symm hne))
        omega
      by_cases hwraps : Wraps limit (d.took limit v bytes).session
      · rw [sendBody_wraps (by omega) hwraps (fun hne => by have := hrange hne; omega)]
        exact htook.wrap hsending hwraps
      · obtain ⟨k, hk, heq⟩ := sendBody_eq (by omega) hwraps hrange
        rw [heq]
        exact htook.move hk

/-! ## One event -/

theorem Tracked.transfer (h : Tracked limit F c) (hv : v.Bounded F) (hlimit : limit ≤ 4096)
    (hF : F < 2 ^ 63) (ht : Transfer limit v c c') (hnone : c'.fault = none) :
    Tracked limit F c' := by
  cases h with
  | within h => exact h.transfer hv hlimit hF ht hnone
  | lame h => exact .lame (h.transfer hv hlimit ht hnone)
  | short h =>
    rw [transfer_of_not_balanced h.not_balanced ht] at hnone
    cases hnone

theorem Tracked.closing (h : Tracked limit F c) (hc : Closing v c c') : Tracked limit F c' := by
  cases h with
  | within h =>
    have hsession := hc.session
    refine .within (h.of_sound (h.sound.closing hc) ?_ ?_ ?_)
    · rw [hsession]
    · rw [hsession]
    · rw [hsession]
      exact id
  | lame h =>
    cases hc with
    | none => exact .lame h
    | close => exact .lame { h with closing := rfl, posed := { h.posed with } }
    | reply hunsent =>
      rw [h.headerSend] at hunsent
      cases hunsent
  | short h =>
    cases hc with
    | none => exact .short h
    -- the head of a short session is still in flight
    | close _ _ hhead =>
      have := h.head
      omega
    | reply hunsent =>
      rw [h.headerSend] at hunsent
      cases hunsent

/-- Counting leaves the offset of the next read where it is. -/
theorem counted_offset {n : Nat} :
    nextOffset (c.counted n).session = nextOffset c.session ∧
      (c.counted n).session.reqPos = c.session.reqPos ∧
      (c.counted n).session.buf = c.session.buf := by
  obtain ⟨head, k, hcount, -⟩ := countHead_spec n c.session
  unfold Client.counted
  rw [hcount]
  refine ⟨?_, rfl, rfl⟩
  show c.session.pos + k + (c.session.sending - k) + c.session.buf.length =
    c.session.pos + c.session.sending + c.session.buf.length
  omega

theorem Within.counted (h : Within limit F c) (hopen : c.connection.sendAndClose = false) {n : Nat}
    (hn : n ≤ c.connection.sendMbuf.length)
    (hmore : (c.counted n).session.len ≠ 0 ∨ (c.counted n).session.sending ≠ 0) :
    Within limit F (c.counted n) := by
  obtain ⟨hoffset, hreqPos, hbuf⟩ := @counted_offset c n
  refine h.of_sound (h.sound.counted hopen hn hmore) hoffset hreqPos ?_
  rw [hbuf]
  exact id

theorem Tracked.sent (h : Tracked limit F c) (hv : v.Bounded F) (hlimit : limit ≤ 4096)
    (hF : F < 2 ^ 63) {n : Nat} (hn : n ≤ c.connection.sendMbuf.length) (hs : Sent limit v n c c')
    (hnone : c'.fault = none) (hlive : c'.live = true) : Tracked limit F c' := by
  cases h with
  | short h =>
    -- a short session fails at its next send
    rcases (h.sent hn hs).1 with hfault | hfault
    · rw [hfault] at hnone
      cases hnone
    · rw [hfault] at hnone
      cases hnone
  | lame h =>
    rw [hs.of_closing h.closing]
    exact .lame { h with posed := { h.posed with } }
  | within h =>
    cases hs with
    | ignored hclosing =>
      exact .within (h.of_sound (h.sound.ignored hclosing hn) rfl rfl id)
    | head hopen hlen =>
      obtain ⟨head, k, hcount, -⟩ := countHead_spec n c.session
      have hsound := h.sound.counted_head hopen hn hlen
      rw [hcount] at hsound ⊢
      exact .within (h.of_sound hsound rfl rfl id)
    | drained => cases hnone
    | finish => cases hlive
    | transfer hopen hlen hmore ht hc =>
      have hcounted := h.counted hopen hn hmore
      obtain ⟨-, -, hfault, -⟩ := closing_frame hc
      exact (hcounted.transfer hv hlimit hF ht (hfault ▸ hnone)).closing hc

theorem Tracked.contentSize (h : Tracked limit F c) (hv : v.Bounded F) :
    Tracked limit F (c.onContentSizeFrom v) := by
  cases h with
  | within h =>
    have hsound := h.sound.onContentSizeFrom hv
    refine .within (h.of_sound hsound ?_ ?_ ?_)
    · unfold onContentSizeFrom
      split
      · rfl
      · split <;> rfl
    · unfold onContentSizeFrom
      split
      · rfl
      · split <;> rfl
    · unfold onContentSizeFrom
      split
      · exact id
      · split <;> exact id
  | short h =>
    have hsame : c.onContentSizeFrom v = c := if_pos h.left
    rw [hsame]
    exact .short h
  | lame h =>
    have hsame : c.onContentSizeFrom v = c := if_pos h.left
    rw [hsame]
    exact .lame h

/-- The session is closed, an assert has failed, or the state is tracked. -/
def Followed (limit F : Nat) (c : Client) : Prop :=
  c.fault = none → c.live = true → Tracked limit F c

theorem Moved.followed {e : SessionEvent} (hm : Moved limit c e c') (h : Followed limit F c)
    (hv : ∀ v ∈ e.view?, v.Bounded F) (hlimit : limit ≤ 4096) (hF : F < 2 ^ 63)
    (hfault : c.fault = none) : Followed limit F c' := by
  intro hnone hlive
  cases hm with
  | idle => exact h hfault hlive
  | recv v hopen =>
    have hc := @closeIfNeed_closing v (c.tryTransfer limit v)
    obtain ⟨-, -, hfault', -⟩ := closing_frame hc
    exact ((h hfault hopen).transfer (hv v rfl) hlimit hF (tryTransfer_transfer hfault)
      (hfault' ▸ hnone)).closing hc
  | contentSize v hopen => exact (h hfault hopen).contentSize (hv v rfl)
  | error v hopen => exact (h hfault hopen).closing closeIfNeed_closing
  | close => cases hlive
  | drain n v _ _ hover =>
    have hlive' : c.live = true := hlive
    rw [hover] at hlive'
    cases hlive'
  | sent n v _ hn hopen hs =>
    exact (h hfault hopen).sent (hv v rfl) hlimit hF hn hs hnone hlive

end Client

end Libms
