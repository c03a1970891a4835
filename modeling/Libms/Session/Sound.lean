import Mathlib
import Libms.Session.Transfer

/-! # The counters of a session

    The four counters a session keeps (`reader.pos`, `reader.len`,
    `sending`, `header_sending`), its buffer and the send buffer of its
    connection, as one invariant.

    * `TaskView.Bounded`: what a session relies on in the answers of its task.
    * `Sound`: the invariant.
    * `Sound.answer`: what the body part reads stays in the buffer, the file
      and the range.
    * `Sound.headed`, `Sound.took`, `Sound.move`, `Sound.counted`, ...: one
      lemma for each thing a step can do. -/

namespace Libms

open CInt Text

/-- The answers of a task with a file of `F` bytes: the size is known or not,
    and a read gives what was asked for at most, nothing past the end. -/
structure TaskView.Bounded (F : Nat) (v : TaskView) : Prop where
  filesize : v.filesize = 0 ∨ v.filesize = F
  length : ∀ pos n bytes, v.read pos n = some bytes → bytes.length ≤ n
  inside : ∀ pos n bytes, v.read pos n = some bytes → F ≤ pos → bytes = []

/-- A requested range is made of numbers of type `int64_t`. -/
theorem requestedRange_range {rangeHdr : Option (List Char)} {r1 r2 : Int}
    (h : requestedRange rangeHdr = some (r1, r2)) :
    (-2 ^ 63 ≤ r1 ∧ r1 < 2 ^ 63) ∧ -2 ^ 63 ≤ r2 ∧ r2 < 2 ^ 63 := by
  have hscan : ∀ header z, z ∈ httpParseRangeHeader header → -2 ^ 63 ≤ z ∧ z < 2 ^ 63 :=
    fun header z hz => scanf_range hz
  have hword : ∀ z, -2 ^ 63 ≤ toInt64 z ∧ toInt64 z < 2 ^ 63 := by
    intro z
    unfold toInt64
    omega
  cases rangeHdr with
  | none =>
    cases h
    decide
  | some header =>
    unfold requestedRange at h
    simp only [Option.map_some] at h
    specialize hscan header
    generalize httpParseRangeHeader header = values at h hscan
    -- `sscanf` assigns none, one or two of the numbers
    match values with
    | [] =>
      cases h
      decide
    | [z] =>
      cases h
      exact ⟨hscan _ (by simp), by decide, by decide⟩
    | z :: z' :: rest =>
      simp only at h
      split at h
      · split at h
        · cases h
          exact ⟨hscan _ (by simp), hword _⟩
        · cases h
      · cases h
        exact ⟨hscan _ (by simp), hscan _ (by simp)⟩

namespace Client

/-- **The invariant.** `F` is the length of the file. -/
structure Sound (limit F : Nat) (c : Client) : Prop where
  /-- All that is in the send buffer is counted, up to an error reply and
      what left after `MG_F_SEND_AND_CLOSE` was set. -/
  accounts : c.session.sending + c.session.headerSending + c.log.errorBytes =
    c.connection.sendMbuf.length + c.log.ignored
  settled : c.connection.sendAndClose = false → c.log.errorBytes = 0 ∧ c.log.ignored = 0
  nonneg : 0 ≤ c.session.sending
  head : c.session.headerSending ≤ limit + 150
  fresh : c.connection.headerSend = false →
    c.session.sending = 0 ∧ c.session.headerSending = 0 ∧ c.session.buf = [] ∧ c.log.appended = []
  small : c.session.buf.length ≤ limit
  /-- What is read and not yet sent is inside what is left of the range. -/
  held : c.session.sending + c.session.buf.length ≤ c.session.len ∨
    (c.session.sending = 0 ∧ c.session.buf = [])
  /-- The bytes handed to `mg_send` end where the bytes sent and in flight end. -/
  tally : c.session.pos + c.session.sending = c.session.reqPos + c.log.appended.length
  forward : c.session.reqPos ≤ c.session.pos
  ranged : 0 < c.session.reqLen →
    c.session.pos + c.session.len = c.session.reqPos + c.session.reqLen ∧ 0 < c.session.len
  openEnded : c.session.reqLen = 0 → c.session.pos + c.session.len = F ∨
    (c.session.len = 0 ∧ c.connection.headerSend = false)
  /-- A range of negative length reads nothing. -/
  refused : c.session.reqLen < 0 → c.log.appended = [] ∧ c.session.sending = 0 ∧
    c.session.buf = [] ∧ (c.session.len = c.session.reqLen ∨ c.session.pos + c.session.len = F)
  words : (-2 ^ 63 ≤ c.session.reqPos ∧ c.session.reqPos < 2 ^ 63) ∧
    -2 ^ 63 ≤ c.session.reqLen ∧ c.session.reqLen < 2 ^ 63

variable {limit F : Nat} {v : TaskView} {c : Client}

/-! ## Consequences -/

theorem Sound.balanced (h : Sound limit F c) (hopen : c.connection.sendAndClose = false) :
    c.Balanced := by
  obtain ⟨herror, hignored⟩ := h.settled hopen
  have haccounts := h.accounts
  unfold Balanced
  omega

/-- The offset of the next read, without the send buffer. -/
def nextOffset (s : Session) : Int := s.pos + s.sending + s.buf.length

theorem Balanced.readFrom (h : c.Balanced) : c.readFrom = nextOffset c.session := by
  unfold Balanced at h
  unfold Client.readFrom nextOffset
  omega

/-- Inside the file, the bytes asked for fit the buffer and the file. -/
theorem wanted_spec {s : Session} {pos : Int} (hlimit : limit ≤ 4096) (hsize : v.filesize = F)
    (hfile : 0 < F) (hsmall : s.buf.length ≤ limit) (hpos : pos ≤ F) :
    s.buf.length + wanted limit v s pos ≤ limit ∧ pos + wanted limit v s pos ≤ F ∧
      toInt64 (wanted limit v s pos) = wanted limit v s pos := by
  -- what is left of the range can only make it less than the space
  have hspace : (if sizeT (s.len - s.sending) < limit - s.buf.length then sizeT (s.len - s.sending)
      else limit - s.buf.length) ≤ limit - s.buf.length := by
    split <;> omega
  unfold wanted
  simp only [hsize]
  generalize (if sizeT (s.len - s.sending) < limit - s.buf.length then sizeT (s.len - s.sending)
      else limit - s.buf.length) = space at hspace ⊢
  have hword : toInt64 (space : Int) = space := toInt64_of_range (by omega) (by omega)
  rw [hword]
  split
  · -- cut at the end of the file, which is less than a buffer away
    have hcut : (sizeT ((F : Int) - pos) : Int) = F - pos :=
      sizeT_of_nonneg (by omega) (by omega)
    rw [hcut]
    refine ⟨by omega, by omega, toInt64_of_range (by omega) (by omega)⟩
  · exact ⟨by omega, by omega, hword⟩

/-- **What the body part reads.** Nothing, or bytes that fit the buffer, the
    file and what was asked for. -/
theorem Sound.answer (h : Sound limit F c) (hv : v.Bounded F) (hlimit : limit ≤ 4096)
    (hready : Ready limit v c.session) {bytes : List UInt8}
    (hread : v.read c.readFrom (wanted limit v c.session c.readFrom) = some bytes) :
    bytes = [] ∨
      (c.session.buf.length + bytes.length ≤ limit ∧ c.readFrom + bytes.length ≤ F ∧
        c.readFrom + bytes.length ≤
          c.readFrom + toInt64 (wanted limit v c.session c.readFrom)) := by
  have hsize : v.filesize = F := by
    rcases hv.filesize with hzero | hsize
    · exact absurd hzero hready.2.2
    · exact hsize
  have hfile : 0 < F := by
    have := hready.2.2
    omega
  by_cases hpast : F ≤ c.readFrom
  · -- behind the end `wanted` may have wrapped, but there is nothing to read
    exact Or.inl (hv.inside _ _ _ hread hpast)
  · obtain ⟨hfits, hinside, hword⟩ :=
      wanted_spec hlimit hsize hfile h.small (le_of_lt (not_le.mp hpast))
    have hlen := hv.length _ _ _ hread
    rw [hword]
    exact Or.inr ⟨by omega, by omega, by omega⟩

/-! ## Opening -/

/-- A session that is opened on an empty send buffer is sound. -/
theorem openSession_sound {task : Nat} {method : Method} {rangeHdr : Option (List Char)}
    {r1 r2 : Int} (hv : v.Bounded F) (hrange : requestedRange rangeHdr = some (r1, r2))
    (hempty : c.connection.sendMbuf = []) : Sound limit F (c.openSession task method r1 r2 v) := by
  have hlen : r2 ≠ 0 → (msSessionOpen task method r1 r2 v).len = r2 := by
    intro hne
    exact if_neg fun h => hne h.1
  constructor
  case accounts =>
    show (0 : Int) + (0 : Nat) + (0 : Nat) = (c.connection.sendMbuf.length : Int) + (0 : Nat)
    rw [hempty]
    rfl
  case settled => exact fun _ => ⟨rfl, rfl⟩
  case nonneg => exact le_refl 0
  case head => exact Nat.zero_le _
  case fresh => exact fun _ => ⟨rfl, rfl, rfl, rfl⟩
  case small => exact Nat.zero_le _
  case held => exact Or.inr ⟨rfl, rfl⟩
  case tally =>
    show r1 + 0 = r1 + (0 : Nat)
    omega
  case forward => exact le_refl r1
  case ranged =>
    intro (hpos : 0 < r2)
    show r1 + (msSessionOpen task method r1 r2 v).len = r1 + r2 ∧
      0 < (msSessionOpen task method r1 r2 v).len
    rw [hlen (by omega)]
    exact ⟨rfl, hpos⟩
  case openEnded =>
    -- the length is what the file has from the start on, if the size is known
    intro (hzero : r2 = 0)
    show r1 + (msSessionOpen task method r1 r2 v).len = F ∨
      ((msSessionOpen task method r1 r2 v).len = 0 ∧ false = false)
    unfold msSessionOpen
    simp only
    split
    · rename_i h
      rcases hv.filesize with hnone | hsize
      · omega
      · rw [hsize]
        exact Or.inl (by omega)
    · exact Or.inr ⟨hzero, trivial⟩
  case refused =>
    intro (hneg : r2 < 0)
    exact ⟨rfl, rfl, rfl, Or.inl (hlen (by omega))⟩
  case words => exact requestedRange_range hrange

/-! ## The head -/

/-- A head is at most 150 bytes longer than `header_str`. -/
theorem Sound.head_length (h : Sound limit F c) (hF : F < 2 ^ 63)
    (hunsent : c.connection.headerSend = false) : (c.head limit v).length ≤ limit + 150 := by
  obtain ⟨hsending, hhead, hbuf, happended⟩ := h.fresh hunsent
  have hwords := h.words
  -- nothing is appended, so the session stands at its start
  have htally := h.tally
  rw [happended, hsending] at htally
  simp only [List.length_nil] at htally
  have hlen : c.session.len.natAbs < 10 ^ 20 := by
    -- the length is the one asked for, what the file has, or unknown
    rcases lt_trichotomy c.session.reqLen 0 with hneg | hzero | hpos
    · rcases (h.refused hneg).2.2.2 with hlen | hlen <;> omega
    · rcases h.openEnded hzero with hlen | hlen <;> omega
    · have := h.ranged hpos
      omega
  unfold Client.head
  rw [bytesOf_length]
  have hcode : (if c.session.method = .head then (200 : Int) else 206) = 200 ∨
      (if c.session.method = .head then (200 : Int) else 206) = 206 := by
    split
    · exact Or.inl rfl
    · exact Or.inr rfl
  have htext := headText_length (headerStr limit v c.session) hcode hlen
  have hextra : (headerStr limit v c.session).length ≤ limit := length_snprintf_le _ _
  omega

/-- When the head goes out, all of the send buffer is head. -/
theorem Sound.headed (h : Sound limit F c) (hF : F < 2 ^ 63) (hbalanced : c.Balanced)
    (hlen : c.session.len ≠ 0) {m : Bool} :
    Sound limit F (c.headed limit v m) ∧ (c.headed limit v m).Balanced := by
  cases hsent : c.connection.headerSend with
  | true =>
    rw [headed_of_sent hsent]
    exact ⟨{ h with }, hbalanced⟩
  | false =>
    obtain ⟨hsending, hhead, hbuf, happended⟩ := h.fresh hsent
    -- the entry assert holds with both counters at zero: the buffer is empty
    have hempty : c.connection.sendMbuf.length = 0 := by
      unfold Balanced at hbalanced
      omega
    have hshort := h.head_length (v := v) hF hsent
    have haccounts := h.accounts
    rw [headed_of_fresh hsent]
    constructor
    · refine { h with accounts := ?_, head := ?_, fresh := ?_, openEnded := ?_ }
      · simp only [List.length_append] at *
        omega
      · simp only [List.length_append]
        omega
      · intro hunsent
        exact absurd hunsent.symm Bool.false_ne_true
      · -- the length is known now: else `try_transfer_data` had returned
        intro hzero
        rcases h.openEnded hzero with hfile | hnone
        · exact Or.inl hfile
        · exact absurd hnone.1 hlen
    · unfold Balanced
      simp only [List.length_append]
      omega

/-! ## The body part -/

/-- A range of negative length lets only empty reads through. -/
theorem Sound.refused_read (h : Sound limit F c) (hv : v.Bounded F) (hlimit : limit ≤ 4096)
    (hbalanced : c.Balanced) (hready : Ready limit v c.session) (hpast : ¬ c.PastRange limit v)
    (hneg : c.session.reqLen < 0) {bytes : List UInt8}
    (hread : v.read c.readFrom (wanted limit v c.session c.readFrom) = some bytes) :
    bytes = [] := by
  obtain ⟨happended, hsending, hbuf, -⟩ := h.refused hneg
  have htally := h.tally
  have hfrom := hbalanced.readFrom
  unfold nextOffset at hfrom
  rw [happended, hsending] at htally
  rw [hsending, hbuf] at hfrom
  simp only [List.length_nil] at htally hfrom
  -- the range ends before it starts, so a read that asks for a byte is past it
  rcases h.answer hv hlimit hready hread with hnil | ⟨-, -, hword⟩
  · exact hnil
  · by_contra hne
    apply hpast
    have hpos := List.length_pos_iff.mpr hne
    exact ⟨by omega, by omega⟩

/-- What is read goes to the buffer. -/
theorem Sound.took (h : Sound limit F c) (hv : v.Bounded F) (hlimit : limit ≤ 4096)
    (hbalanced : c.Balanced) (hready : Ready limit v c.session)
    (hsent : c.connection.headerSend = true) (hpast : ¬ c.PastRange limit v) {bytes : List UInt8}
    (hread : v.read c.readFrom (wanted limit v c.session c.readFrom) = some bytes) :
    Sound limit F (c.took limit v bytes) := by
  have hfrom := hbalanced.readFrom
  unfold nextOffset at hfrom
  have hanswer := h.answer hv hlimit hready hread
  have hsmall := h.small
  refine { h with fresh := ?_, small := ?_, held := ?_, refused := ?_ }
  · intro hunsent
    exact absurd (hunsent.symm.trans hsent) Bool.false_ne_true
  · show (c.session.buf ++ bytes).length ≤ limit
    rw [List.length_append]
    rcases hanswer with hnil | ⟨hfits, -, -⟩
    · rw [hnil]
      exact hsmall
    · exact hfits
  · show c.session.sending + (c.session.buf ++ bytes).length ≤ c.session.len ∨
      (c.session.sending = 0 ∧ c.session.buf ++ bytes = [])
    rcases hanswer with hnil | ⟨-, hfile, hword⟩
    · rw [hnil, List.append_nil]
      exact h.held
    · -- the end of what is read is not behind the end of the range
      rw [List.length_append]
      rcases lt_trichotomy c.session.reqLen 0 with hneg | hzero | hpos
      · -- negative: nothing is read
        have hnil := h.refused_read hv hlimit hbalanced hready hpast hneg hread
        rw [hnil, List.append_nil]
        exact h.held
      · -- to the end of the file, where every read ends at the latest
        rcases h.openEnded hzero with hend | ⟨-, hunsent⟩
        · exact Or.inl (by omega)
        · exact absurd (hunsent.symm.trans hsent) Bool.false_ne_true
      · -- a range: the read has passed the range assert
        have hend := (h.ranged hpos).1
        have hinside : ¬ (c.session.reqPos + c.session.reqLen <
            c.readFrom + toInt64 (wanted limit v c.session c.readFrom)) :=
          fun hlt => hpast ⟨by omega, hlt⟩
        exact Or.inl (by omega)
  · intro hneg
    obtain ⟨happended, hsending, hbuf, hlen⟩ := h.refused hneg
    have hnil := h.refused_read hv hlimit hbalanced hready hpast hneg hread
    refine ⟨happended, hsending, ?_, hlen⟩
    show c.session.buf ++ bytes = []
    rw [hbuf, hnil]
    rfl

/-- What is buffered is inside what is left. -/
theorem Sound.held_of_buffered (h : Sound limit F c) (hbuf : c.session.buf ≠ []) :
    c.session.sending + c.session.buf.length ≤ c.session.len := by
  rcases h.held with hheld | ⟨-, hnil⟩
  · exact hheld
  · exact absurd hnil hbuf

/-- What is buffered is inside the range. -/
theorem Sound.inRange (h : Sound limit F c) (hbuf : c.session.buf ≠ []) :
    c.session.reqLen ≠ 0 → c.session.pos + c.session.sending + c.session.buf.length ≤
      c.session.reqPos + c.session.reqLen := by
  intro hne
  have hheld := h.held_of_buffered hbuf
  rcases lt_or_gt_of_ne hne with hneg | hpos
  · -- a range of negative length buffers nothing
    exact absurd (h.refused hneg).2.2.1 hbuf
  · have hend := (h.ranged hpos).1
    omega

/-- Bytes go from the buffer to the send buffer. -/
theorem Sound.move (h : Sound limit F c) (hsent : c.connection.headerSend = true) {k : Nat}
    (hk : k ≤ c.session.buf.length) : Sound limit F (c.move k) := by
  have haccounts := h.accounts
  have hnonneg := h.nonneg
  have hsmall := h.small
  have htally := h.tally
  have htake : (c.session.buf.take k).length = k := List.length_take_of_le hk
  have hdrop : (c.session.buf.drop k).length = c.session.buf.length - k := List.length_drop
  refine { h with
    accounts := ?_, nonneg := ?_, fresh := ?_, small := ?_, held := ?_, tally := ?_, refused := ?_ }
  · show c.session.sending + k + c.session.headerSending + c.log.errorBytes =
      ((c.connection.sendMbuf ++ c.session.buf.take k).length : Int) + c.log.ignored
    rw [List.length_append, htake]
    omega
  · show 0 ≤ c.session.sending + k
    omega
  · intro hunsent
    exact absurd (hunsent.symm.trans hsent) Bool.false_ne_true
  · show (c.session.buf.drop k).length ≤ limit
    omega
  · -- what goes from one counter to the other stays inside what is left
    show c.session.sending + k + (c.session.buf.drop k).length ≤ c.session.len ∨
      (c.session.sending + k = 0 ∧ c.session.buf.drop k = [])
    rcases h.held with hheld | ⟨hsending, hnil⟩
    · exact Or.inl (by omega)
    · rw [hnil] at hk ⊢
      simp only [List.length_nil] at hk
      exact Or.inr ⟨by omega, List.drop_nil⟩
  · show c.session.pos + (c.session.sending + k) =
      c.session.reqPos + (c.log.appended ++ c.session.buf.take k).length
    rw [List.length_append, htake]
    omega
  · intro hneg
    obtain ⟨happended, hsending, hbuf, hlen⟩ := h.refused hneg
    rw [hbuf] at hk
    have hzero : k = 0 := by simpa using hk
    refine ⟨?_, ?_, ?_, hlen⟩
    · show c.log.appended ++ c.session.buf.take k = []
      rw [happended, hbuf, List.take_nil]
      rfl
    · show c.session.sending + k = 0
      omega
    · show c.session.buf.drop k = []
      rw [hbuf, List.drop_nil]

/-- Behind its head a session is ready for the body part. -/
structure Begun (limit F : Nat) (v : TaskView) (c d : Client) : Prop where
  sound : Sound limit F d
  balanced : d.Balanced
  headerSend : d.connection.headerSend = true
  ready : Ready limit v d.session
  sendAndClose : d.connection.sendAndClose = c.connection.sendAndClose
  session : ∃ m unsent, d.session = { c.session with isMedia := m, headerSending := unsent }
  frame : d.log = c.log ∧ d.fault = c.fault ∧ d.live = c.live

theorem Sound.begun (h : Sound limit F c) (hF : F < 2 ^ 63) (hbalanced : c.Balanced)
    (hready : Ready limit v c.session) (m : Bool) : Begun limit F v c (c.headed limit v m) := by
  obtain ⟨hsound, hbalanced'⟩ := h.headed (v := v) (m := m) hF hbalanced hready.2.1
  obtain ⟨unsent, hsession⟩ := @headed_session limit v c m
  refine ⟨hsound, hbalanced', headed_headerSend, headed_ready hready, ?_, ⟨m, unsent, hsession⟩,
    headed_frame⟩
  unfold Client.headed sendHead
  split <;> rfl

/-- **The body part of a sound session**: an assert fails, there is nothing
    to send, some bytes are moved, or the length wraps. -/
inductive SoundBody (limit F : Nat) (v : TaskView) (d : Client) : Client → Prop
  | range (hpast : d.PastRange limit v) : SoundBody limit F v d (d.fail .range)
  | storage (hpast : ¬ d.PastRange limit v) :
      SoundBody limit F v d ((d.took limit v []).fail .storage)
  | empty (bytes : List UInt8) (hpast : ¬ d.PastRange limit v)
      (hread : v.read d.readFrom (wanted limit v d.session d.readFrom) = some bytes)
      (h : Sound limit F (d.took limit v bytes)) : SoundBody limit F v d (d.took limit v bytes)
  | moved (bytes : List UInt8) (k : Nat) (hpast : ¬ d.PastRange limit v)
      (hread : v.read d.readFrom (wanted limit v d.session d.readFrom) = some bytes)
      (hk : k ≤ (d.took limit v bytes).session.buf.length)
      (h : Sound limit F (d.took limit v bytes)) :
      SoundBody limit F v d ((d.took limit v bytes).move k)
  | wrapped (bytes : List UInt8) (hpast : ¬ d.PastRange limit v)
      (hread : v.read d.readFrom (wanted limit v d.session d.readFrom) = some bytes)
      (hbuf : (d.took limit v bytes).session.buf ≠ [])
      (hwraps : Wraps limit (d.took limit v bytes).session)
      (h : Sound limit F (d.took limit v bytes)) :
      SoundBody limit F v d (d.took limit v bytes).wrap

theorem Begun.body {d : Client} (h : Begun limit F v c d) (hv : v.Bounded F)
    (hlimit : limit ≤ 4096) : SoundBody limit F v d (d.body limit v) := by
  have hbody := @body_body limit v d
  generalize d.body limit v = c' at hbody ⊢
  cases hbody with
  | range hpast => exact .range hpast
  | storage hpast => exact .storage hpast
  | empty bytes hpast hread =>
    exact .empty bytes hpast hread
      (h.sound.took hv hlimit h.balanced h.ready h.headerSend hpast hread)
  | send bytes hpast hread hbuf =>
    have htook := h.sound.took hv hlimit h.balanced h.ready h.headerSend hpast hread
    have hsmall := htook.small
    have hrange := htook.inRange hbuf
    -- either the subtraction of the head wraps, or `mg_send` gets a start of the buffer
    by_cases hwraps : Wraps limit (d.took limit v bytes).session
    · have hhead := htook.head
      rw [sendBody_wraps (by omega) hwraps (fun hne => by have := hrange hne; omega)]
      exact .wrapped bytes hpast hread hbuf hwraps htook
    · obtain ⟨k, hk, heq⟩ := sendBody_eq (by omega) hwraps hrange
      rw [heq]
      exact .moved bytes k hpast hread hk htook

/-! ## Sends and errors -/

/-- `MG_F_SEND_AND_CLOSE` may be set at any time. -/
theorem Sound.close (h : Sound limit F c) :
    Sound limit F { c with connection := { c.connection with sendAndClose := true } } := by
  refine { h with settled := ?_ }
  intro hopen
  exact absurd hopen.symm Bool.false_ne_true

/-- After `ms_session_close_if_need` the counters agree up to an error reply. -/
theorem Sound.closing {c' : Client} (h : Sound limit F c) (hc : Closing v c c') :
    Sound limit F c' := by
  cases hc with
  | none => exact h
  | close hsent hsending hhead => exact h.close
  | reply hsent hopen =>
    have haccounts := h.accounts
    refine { h with accounts := ?_, settled := ?_ }
    · -- the reply is in the send buffer, and on no counter of the session
      show c.session.sending + c.session.headerSending +
          ((c.log.errorBytes + (Connection.errorText v.errno).length : Nat) : Int) =
        ((c.connection.sendMbuf ++ bytesOf (Connection.errorText v.errno)).length : Int) +
          c.log.ignored
      rw [List.length_append, bytesOf_length]
      omega
    · intro hopen
      exact absurd hopen.symm Bool.false_ne_true

/-- Bytes that `on_send` ignores are in the accounts. -/
theorem Sound.ignored (h : Sound limit F c) (hclosing : c.connection.sendAndClose = true) {n : Nat}
    (hn : n ≤ c.connection.sendMbuf.length) :
    Sound limit F
      { c with
        connection := { c.connection with sendMbuf := c.connection.sendMbuf.drop n }
        log := { c.log with ignored := c.log.ignored + n } } := by
  have haccounts := h.accounts
  refine { h with accounts := ?_, settled := ?_ }
  · show c.session.sending + c.session.headerSending + c.log.errorBytes =
      ((c.connection.sendMbuf.drop n).length : Int) + (c.log.ignored + n : Nat)
    rw [List.length_drop]
    omega
  · intro hopen
    exact absurd (hopen.symm.trans hclosing) Bool.false_ne_true

/-- What `on_send` counts, as amounts. -/
theorem Sound.counts (h : Sound limit F c) (hopen : c.connection.sendAndClose = false) {n : Nat}
    (hn : n ≤ c.connection.sendMbuf.length) :
    ∃ head k, countHead n c.session = ({ c.session with headerSending := head }, k) ∧
      head + n = c.session.headerSending + k ∧ (head = 0 ∨ k = 0) ∧
        (k : Int) ≤ c.session.sending := by
  obtain ⟨head, k, hcount, hsum, hsplit⟩ := countHead_spec n c.session
  -- the entry condition bounds the body bytes that can leave
  have hbalanced := h.balanced hopen
  have hnonneg := h.nonneg
  unfold Balanced at hbalanced
  exact ⟨head, k, hcount, hsum, hsplit, by omega⟩

/-- What left and was counted keeps the invariant, or the session is at its end. -/
theorem Sound.counted (h : Sound limit F c) (hopen : c.connection.sendAndClose = false) {n : Nat}
    (hn : n ≤ c.connection.sendMbuf.length)
    (hmore : (c.counted n).session.len ≠ 0 ∨ (c.counted n).session.sending ≠ 0) :
    Sound limit F (c.counted n) := by
  obtain ⟨head, k, hcount, hsum, hsplit, hk⟩ := h.counts hopen hn
  obtain ⟨herror, hignored⟩ := h.settled hopen
  have haccounts := h.accounts
  have hheadlen := h.head
  have hheld := h.held
  have htally := h.tally
  unfold Client.counted at hmore ⊢
  rw [hcount] at hmore ⊢
  simp only [countBody] at hmore ⊢
  refine { h with
    accounts := ?_, nonneg := ?_, head := ?_, fresh := ?_, held := ?_, tally := ?_, forward := ?_,
    ranged := ?_, openEnded := ?_, refused := ?_ }
  · -- head and body share the bytes that left
    simp only [List.length_drop]
    omega
  · show 0 ≤ c.session.sending - k
    omega
  · show head ≤ limit + 150
    omega
  · -- nothing can leave before the head is sent
    intro hunsent
    obtain ⟨hsending, hhead, hbuf, happended⟩ := h.fresh hunsent
    refine ⟨?_, ?_, hbuf, happended⟩
    · show c.session.sending - k = 0
      omega
    · show head = 0
      omega
  · show c.session.sending - k + c.session.buf.length ≤ _ ∨ (c.session.sending - k = 0 ∧ _)
    rcases hheld with hheld | ⟨hsending, hbuf⟩
    · left
      simp only
      split <;> omega
    · exact Or.inr ⟨by omega, hbuf⟩
  · -- the position moves on by what leaves the counter
    show c.session.pos + k + (c.session.sending - k) =
      c.session.reqPos + c.log.appended.length
    omega
  · have := h.forward
    show c.session.reqPos ≤ c.session.pos + k
    omega
  · intro hpos
    obtain ⟨hend, hlen⟩ := h.ranged hpos
    simp only [if_pos hlen] at hmore ⊢
    refine ⟨by omega, ?_⟩
    -- all of a range sent means that nothing is in flight
    rcases hheld with hheld | ⟨hsending, -⟩ <;> omega
  · -- an open-ended session learns its length before its first byte leaves
    intro hzero
    rcases h.openEnded hzero with hend | ⟨hlen, hunsent⟩
    · left
      simp only
      split
      · omega
      · rcases hheld with hheld | ⟨hsending, -⟩ <;> omega
    · right
      simp only [hlen]
      exact ⟨rfl, hunsent⟩
  · -- a refused range has no body, so only head left
    intro hneg
    obtain ⟨happended, hsending, hbuf, hlen⟩ := h.refused hneg
    have hzero : k = 0 := by omega
    subst hzero
    refine ⟨happended, ?_, hbuf, ?_⟩
    · show c.session.sending - (0 : Nat) = 0
      omega
    · simp only
      split <;> omega

/-- `on_send` returns early when `reader.len` is zero: then only head was left. -/
theorem Sound.counted_head (h : Sound limit F c) (hopen : c.connection.sendAndClose = false)
    {n : Nat} (hn : n ≤ c.connection.sendMbuf.length) (hlen : c.session.len = 0) :
    Sound limit F
      { c with
        connection := { c.connection with sendMbuf := c.connection.sendMbuf.drop n }
        session := (countHead n c.session).1 } := by
  obtain ⟨head, k, hcount, hsum, hsplit, hk⟩ := h.counts hopen hn
  obtain ⟨herror, hignored⟩ := h.settled hopen
  have hnonneg := h.nonneg
  have haccounts := h.accounts
  have hheadlen := h.head
  rw [hcount]
  -- nothing is in flight when nothing is left
  have hzero : k = 0 := by
    rcases h.held with hheld | ⟨hsending, -⟩ <;> omega
  refine { h with accounts := ?_, head := ?_, fresh := ?_ }
  · simp only [List.length_drop]
    omega
  · show head ≤ limit + 150
    omega
  · intro hunsent
    obtain ⟨hsending, hhead, hbuf, happended⟩ := h.fresh hunsent
    refine ⟨hsending, ?_, hbuf, happended⟩
    show head = 0
    omega

/-- The assert in `on_send` holds: no more body bytes leave than are left. -/
theorem Sound.not_drained (h : Sound limit F c) (hopen : c.connection.sendAndClose = false)
    {n : Nat} (hn : n ≤ c.connection.sendMbuf.length) :
    ¬ (0 < c.session.len ∧ c.session.len < (countHead n c.session).2) := by
  obtain ⟨head, k, hcount, hsum, hsplit, hk⟩ := h.counts hopen hn
  rw [hcount]
  intro hshort
  have hlt : c.session.len < (k : Int) := hshort.2
  rcases h.held with hheld | ⟨hsending, -⟩ <;> omega

/-- The length of an open-ended session is learned late. -/
theorem Sound.onContentSizeFrom (h : Sound limit F c) (hv : v.Bounded F) :
    Sound limit F (c.onContentSizeFrom v) := by
  unfold Client.onContentSizeFrom
  split
  · exact h
  · rename_i hlen
    split
    · rename_i hknown
      have hsize : v.filesize = F := by
        rcases hv.filesize with hzero | hsize
        · omega
        · exact hsize
      refine { h with held := ?_, ranged := ?_, openEnded := ?_, refused := ?_ }
      · -- without a length there was nothing to read
        right
        show c.session.sending = 0 ∧ c.session.buf = []
        have hnonneg := h.nonneg
        rcases h.held with hheld | hheld
        · exact ⟨by omega, List.length_eq_zero_iff.mp (by omega)⟩
        · exact hheld
      · -- a range has its length from the start
        intro hpos
        exact absurd (h.ranged hpos).2 hlen
      · intro _
        left
        show c.session.pos + (v.filesize - c.session.pos) = F
        omega
      · intro hneg
        obtain ⟨happended, hsending, hbuf, -⟩ := h.refused hneg
        refine ⟨happended, hsending, hbuf, Or.inr ?_⟩
        show c.session.pos + (v.filesize - c.session.pos) = F
        omega
    · exact h

end Client

end Libms
