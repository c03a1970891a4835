import Mathlib
import Libms.Framework.Runs
import Libms.Storage.ReadWrite
import Libms.Session.Sound

/-! # The stream of a session

    The body bytes that `try_transfer_data` hands to `mg_send`, over a whole
    run of transfers and sends.

    * `TaskView.Serves`: a task whose reads are short prefixes of a file, as
      those of a storage are (`TaskView.ofStorage_serves`).
    * `Steady`, `Short`: the states of a run. In a steady state the bytes
      appended and buffered are the file from the start of the request on;
      a short state comes after a wrap and is left through the entry assert.
    * `stream_in_order`: what is appended is the file, in order. -/

namespace Libms

open CInt PartialMap Runs

/-- A task that answers with short prefixes of the bytes of a file. -/
structure TaskView.Serves (file : List UInt8) (v : TaskView) : Prop where
  filesize : v.filesize = 0 ∨ v.filesize = file.length
  read : ∀ pos n bytes, v.read pos n = some bytes → bytes <+: (file.drop pos.toNat).take n

theorem TaskView.Serves.bounded {file : List UInt8} {v : TaskView} (h : v.Serves file) :
    v.Bounded file.length where
  filesize := h.filesize
  length pos n bytes hread := by
    have hprefix := (h.read pos n bytes hread).length_le
    rw [List.length_take] at hprefix
    omega
  inside pos n bytes hread hpast := by
    have hprefix := h.read pos n bytes hread
    rw [List.drop_eq_nil_of_le (by omega), List.take_nil] at hprefix
    exact List.prefix_nil.mp hprefix

/-- A task that has the whole file. -/
def TaskView.ofFile (file : List UInt8) : TaskView where
  filesize := file.length
  contentType := "video/mp4".toList
  errno := 0
  read pos n := some ((file.drop pos.toNat).take n)

theorem TaskView.ofFile_serves (file : List UInt8) : (TaskView.ofFile file).Serves file where
  filesize := Or.inr rfl
  read pos n bytes hread := by
    cases hread
    exact List.prefix_refl _

/-- A task as the session of a storage sees it. -/
def TaskView.ofStorage (st : MemStorage) (contentType : List Char) (errno : Int) : TaskView where
  filesize := st.filesize
  contentType := contentType
  errno := errno
  read pos n := (st.storageRead pos n).map fun cells => cells.map fun byte => byte.getD 0

/-- A list of the bytes of a file from an offset on is a prefix of its rest. -/
theorem prefix_of_readRun {file : List UInt8} {m : Nat → Option UInt8}
    (hbytes : ∀ off byte, m off = some byte → file[off]? = some byte) (pos n : Nat) :
    readRun m pos n <+: (file.drop pos).take n := by
  rw [List.prefix_iff_getElem?]
  intro i hi
  have hcell := readRun_getElem? hi
  rw [List.getElem?_eq_getElem hi] at hcell
  have hn := @readRun_length_le _ m pos n
  rw [List.getElem?_take_of_lt (by omega), List.getElem?_drop]
  exact hbytes _ _ hcell.symm

/-- **A storage that holds bytes of a file serves it.** -/
theorem TaskView.ofStorage_serves {file : List UInt8} {st : MemStorage} {contentType : List Char}
    {errno : Int} (hsize : st.filesize = 0 ∨ st.filesize = file.length)
    (hfilled : st.Filled st.estimateSize)
    (hbytes : ∀ off byte, st.byteAt off = some byte → file[off]? = some byte) :
    (TaskView.ofStorage st contentType errno).Serves file where
  filesize := hsize
  read pos n bytes hread := by
    obtain ⟨cells, hcells, hbytes'⟩ := Option.map_eq_some_iff.mp hread
    rw [← hbytes']
    by_cases hassert : 0 ≤ pos ∧ (st.estimateSize = 0 ∨ pos + n ≤ st.estimateSize)
    · by_cases hzero : st.estimateSize = 0
      · -- without a size the table has no block
        have hnil : cells = [] := by
          unfold MemStorage.storageRead at hcells
          rw [if_pos hassert] at hcells
          split at hcells
          · exact (Option.some.inj hcells).symm
          · have hblocks : blockNum st.estimateSize = 0 := by rw [hzero]; rfl
            simp only [hblocks, Nat.zero_sub] at hcells
            exact (Option.some.inj hcells).symm
        rw [hnil]
        exact List.nil_prefix
      · obtain ⟨hpos, hfits⟩ := hassert
        have hspec := @MemStorage.storageRead_spec st pos.toNat n hfilled (by omega) (by omega)
        rw [Int.toNat_of_nonneg hpos, hcells] at hspec
        rw [Option.some.inj hspec, List.map_map]
        simpa using prefix_of_readRun hbytes pos.toNat n
    · unfold MemStorage.storageRead at hcells
      rw [if_neg hassert] at hcells
      cases hcells

/-- A prefix is extended by a prefix of the rest. -/
theorem prefix_append_of_drop {α : Type*} {xs ys l : List α} (hxs : xs <+: l)
    (hys : ys <+: l.drop xs.length) : xs ++ ys <+: l := by
  obtain ⟨rest, hrest⟩ := hxs
  rw [← hrest, List.drop_left] at hys
  rw [← hrest]
  exact (List.prefix_append_right_inj xs).mpr hys

/-- What happens to an open session: `try_transfer_data` is called, bytes
    leave the send buffer, or the size of the content is learned. -/
inductive StreamEvent where
  | transfer (v : TaskView)
  | sent (n : Nat) (v : TaskView)
  | contentSize (v : TaskView)

/-- What the session sees of its task during the event. -/
def StreamEvent.view : StreamEvent → TaskView
  | .transfer v => v
  | .sent _ v => v
  | .contentSize v => v

namespace Client

/-- One event of an open session. -/
def streamStep (limit : Nat) (c : Client) (e : StreamEvent) : Client :=
  if c.fault.isSome ∨ c.live = false then c
  else
    match e with
    | .transfer v => c.tryTransfer limit v
    | .sent n v => if 0 < n ∧ n ≤ c.connection.sendMbuf.length then c.sent limit v n else c
    | .contentSize v => c.onContentSizeFrom v

/-! ## The states of a run -/

/-- The counters agree, and what is appended and buffered is the file. -/
structure Steady (limit : Nat) (file : List UInt8) (start len : Int) (c : Client) : Prop where
  sound : Sound limit file.length c
  inside : 0 ≤ start
  reqPos : c.session.reqPos = start
  reqLen : c.session.reqLen = len
  /-- Before the end of the head the connection is closed for `HEAD` only. -/
  closing : c.connection.sendAndClose = true → c.connection.headerSend = true ∧
    (c.session.headerSending = 0 ∨ c.session.method = .head)
  content : c.log.appended ++ c.session.buf <+: file.drop start.toNat

/-- `len -= header_sending` has wrapped: `sending` is too small now. -/
structure Short (c : Client) : Prop where
  opened : c.connection.sendAndClose = false
  headerSend : c.connection.headerSend = true
  head : 0 < c.session.headerSending
  short : c.session.sending + c.session.headerSending < c.connection.sendMbuf.length
  left : 0 < c.session.len
  more : c.connection.sendMbuf.length - c.session.headerSending < c.session.len

/-- The session is closed, or an assert has failed. -/
def Over (c : Client) : Prop := c.fault.isSome ∨ c.live = false

/-- The invariant of a run. -/
structure Streams (limit : Nat) (file : List UInt8) (start len : Int) (c : Client) : Prop where
  inOrder : c.log.appended <+: file.drop start.toNat
  state : c.Over ∨ Steady limit file start len c ∨ Short c

variable {limit : Nat} {file : List UInt8} {start len : Int} {v : TaskView} {c c' : Client}

theorem over_fail (f : Fault) : (c.fail f).Over := Or.inl rfl

theorem Steady.inOrder (h : Steady limit file start len c) :
    c.log.appended <+: file.drop start.toNat :=
  (List.prefix_append _ _).trans h.content

theorem Steady.streams (h : Steady limit file start len c) : Streams limit file start len c :=
  ⟨h.inOrder, Or.inr (Or.inl h)⟩

/-! ## A transfer in a steady state -/

/-- The head changes neither the bytes nor the flags that matter. -/
theorem Steady.headed (h : Steady limit file start len c) (hfile : file.length < 2 ^ 63)
    (hbalanced : c.Balanced) (hlen : c.session.len ≠ 0) {m : Bool} :
    Steady limit file start len (c.headed limit v m) := by
  have hsound := (h.sound.headed (v := v) (m := m) hfile hbalanced hlen).1
  cases hsent : c.connection.headerSend with
  | true =>
    rw [headed_of_sent hsent] at hsound ⊢
    exact { h with sound := hsound }
  | false =>
    rw [headed_of_fresh hsent] at hsound ⊢
    refine { h with sound := hsound, closing := ?_ }
    intro hclosing
    exact absurd (hsent.symm.trans (h.closing hclosing).1) Bool.false_ne_true

/-- The bytes read go on where the buffer ends. -/
theorem Steady.took (h : Steady limit file start len c) (hv : v.Serves file) (hlimit : limit ≤ 4096)
    (hbalanced : c.Balanced) (hready : Ready limit v c.session)
    (hsent : c.connection.headerSend = true) (hpast : ¬ c.PastRange limit v) {bytes : List UInt8}
    (hread : v.read c.readFrom (wanted limit v c.session c.readFrom) = some bytes) :
    Steady limit file start len (c.took limit v bytes) := by
  refine { h with
    sound := h.sound.took hv.bounded hlimit hbalanced hready hsent hpast hread, content := ?_ }
  show c.log.appended ++ (c.session.buf ++ bytes) <+: file.drop start.toNat
  rw [← List.append_assoc]
  apply prefix_append_of_drop h.content
  -- `pos`, `sending` and the buffer say where the read starts
  have hfrom : c.readFrom.toNat = start.toNat + (c.log.appended ++ c.session.buf).length := by
    have htally := h.sound.tally
    have hstart := h.inside
    rw [hbalanced.readFrom, List.length_append]
    rw [h.reqPos] at htally
    unfold nextOffset
    omega
  have hprefix := hv.read _ _ _ hread
  rw [hfrom, ← List.drop_drop] at hprefix
  exact hprefix.trans (List.take_prefix _ _)

/-- Bytes moved to the send buffer are still in order. -/
theorem Steady.move (h : Steady limit file start len c) (hsent : c.connection.headerSend = true)
    {k : Nat} (hk : k ≤ c.session.buf.length) : Steady limit file start len (c.move k) := by
  refine { h with sound := h.sound.move hsent hk, content := ?_ }
  show c.log.appended ++ c.session.buf.take k ++ c.session.buf.drop k <+: _
  rw [List.append_assoc, List.take_append_drop]
  exact h.content

/-- The length wraps: the session of an open connection gets short. -/
theorem Sound.wrap {F : Nat} (h : Sound limit F c) (hbalanced : c.Balanced)
    (hopen : c.connection.sendAndClose = false) (hsent : c.connection.headerSend = true)
    (hbuf : c.session.buf ≠ []) (hwraps : Wraps limit c.session) : Short c.wrap := by
  have hpos : 0 < c.session.buf.length := List.length_pos_iff.mpr hbuf
  have hnonneg := h.nonneg
  have hheld := h.held_of_buffered hbuf
  obtain ⟨hover, hless⟩ := hwraps
  unfold Balanced at hbalanced
  refine ⟨hopen, hsent, ?_, ?_, ?_, ?_⟩
  · show 0 < c.session.headerSending
    omega
  · show c.session.sending + c.session.buf.length - c.session.headerSending +
      c.session.headerSending < (c.connection.sendMbuf.length : Int)
    omega
  · show 0 < c.session.len
    omega
  · show (c.connection.sendMbuf.length : Int) - c.session.headerSending < c.session.len
    omega

/-- A closing connection has no head in flight, so nothing wraps there. -/
theorem Steady.open_of_wraps (h : Steady limit file start len c)
    (hmethod : c.session.method = .get) (hwraps : Wraps limit c.session) :
    c.connection.sendAndClose = false := by
  by_contra hclosing
  rcases (h.closing (Bool.not_eq_false _ ▸ hclosing)).2 with hzero | hhead
  · have hless := hwraps.2
    omega
  · rw [hmethod] at hhead
    cases hhead

/-- **A transfer in a steady state.** -/
theorem Steady.transfer (h : Steady limit file start len c) (hv : v.Serves file)
    (hlimit : limit ≤ 4096) (hfile : file.length < 2 ^ 63) (ht : Transfer limit v c c') :
    Streams limit file start len c' ∧
      (c.connection.headerSend = true → c'.connection.headerSend = true) := by
  cases ht with
  | entry => exact ⟨⟨h.inOrder, Or.inl (over_fail _)⟩, id⟩
  | idle => exact ⟨h.streams, id⟩
  | storage => exact ⟨⟨h.inOrder, Or.inl (over_fail _)⟩, id⟩
  | head m hbalanced hready hmethod =>
    -- the head of a `HEAD` request is all there is, and the connection is closing
    have hheaded := h.headed (v := v) (m := m) hfile hbalanced hready.2.1
    have hsent := @headed_headerSend limit v c m
    refine ⟨Steady.streams ⟨hheaded.sound.close, h.inside, hheaded.reqPos, hheaded.reqLen, ?_,
      hheaded.content⟩, fun _ => hsent⟩
    intro _
    refine ⟨hsent, Or.inr ?_⟩
    obtain ⟨unsent, hsession⟩ := @headed_session limit v c m
    show (c.headed limit v m).session.method = .head
    rw [hsession]
    exact hmethod
  | body m hbalanced hready hmethod =>
    have hheaded := h.headed (v := v) (m := m) hfile hbalanced hready.2.1
    have hbegun := h.sound.begun hfile hbalanced hready m
    obtain ⟨_, _, hsession⟩ := hbegun.session
    have hmethod' : (c.headed limit v m).session.method = .get := by
      rw [hsession]
      exact hmethod
    have hbody := hbegun.body hv.bounded hlimit
    generalize c.headed limit v m = d at *
    have hsent := hbegun.headerSend
    have htook : ∀ {bytes}, ¬ d.PastRange limit v →
        v.read d.readFrom (wanted limit v d.session d.readFrom) = some bytes →
          Steady limit file start len (d.took limit v bytes) := fun hpast hread =>
      hheaded.took hv hlimit hbegun.balanced hbegun.ready hsent hpast hread
    generalize d.body limit v = c' at *
    cases hbody with
    | range => exact ⟨⟨hheaded.inOrder, Or.inl (over_fail _)⟩, fun _ => hsent⟩
    | storage => exact ⟨⟨hheaded.inOrder, Or.inl (over_fail _)⟩, fun _ => hsent⟩
    | empty bytes hpast hread => exact ⟨(htook hpast hread).streams, fun _ => hsent⟩
    | moved bytes k hpast hread hk =>
      exact ⟨((htook hpast hread).move hsent hk).streams, fun _ => hsent⟩
    | wrapped bytes hpast hread hbuf hwraps =>
      have hsteady := htook hpast hread
      have hshort := hsteady.sound.wrap hbegun.balanced (hsteady.open_of_wraps hmethod' hwraps)
        hsent hbuf hwraps
      exact ⟨⟨hsteady.inOrder, Or.inr (Or.inr hshort)⟩, fun _ => hsent⟩

/-- Closing an open stream changes no byte of it. -/
theorem Streams.closing (h : Streams limit file start len c)
    (hsent : c.connection.headerSend = true) (hc : Closing v c c') :
    Streams limit file start len c' := by
  cases hc with
  | none => exact h
  | close _ hsending hhead =>
    refine ⟨h.inOrder, ?_⟩
    rcases h.state with hover | hsteady | hshort
    · exact Or.inl hover
    · refine Or.inr (Or.inl ⟨hsteady.sound.close, hsteady.inside, hsteady.reqPos,
        hsteady.reqLen, ?_, hsteady.content⟩)
      intro _
      exact ⟨hsent, Or.inl hhead⟩
    · -- a short state has a head in flight, so it is not closed
      have := hshort.head
      omega
  | reply hunsent =>
    rw [hunsent] at hsent
    cases hsent

/-- Counting what was sent. -/
theorem Steady.counted (h : Steady limit file start len c)
    (hopen : c.connection.sendAndClose = false) {n : Nat} (hn : n ≤ c.connection.sendMbuf.length)
    (hmore : (c.counted n).session.len ≠ 0 ∨ (c.counted n).session.sending ≠ 0) :
    Steady limit file start len (c.counted n) := by
  have hsound := h.sound.counted hopen hn hmore
  obtain ⟨head, k, hcount, -⟩ := countHead_spec n c.session
  unfold Client.counted at hsound ⊢
  rw [hcount] at hsound ⊢
  refine ⟨hsound, h.inside, h.reqPos, h.reqLen, ?_, h.content⟩
  -- the flag is not set, so there is nothing to say about a closing connection
  intro hclosing
  rw [show c.connection.sendAndClose = true from hclosing] at hopen
  cases hopen

/-- **A send in a steady state.** -/
theorem Steady.sent (h : Steady limit file start len c) (hv : v.Serves file) (hlimit : limit ≤ 4096)
    (hfile : file.length < 2 ^ 63) {n : Nat} (hpos : 0 < n)
    (hn : n ≤ c.connection.sendMbuf.length) (hs : Sent limit v n c c') :
    Streams limit file start len c' := by
  cases hs with
  | ignored hclosing =>
    exact Steady.streams ⟨h.sound.ignored hclosing hn, h.inside, h.reqPos, h.reqLen, h.closing,
      h.content⟩
  | head hopen hlen =>
    obtain ⟨head, k, hcount, -⟩ := countHead_spec n c.session
    have hsound := h.sound.counted_head hopen hn hlen
    rw [hcount] at hsound ⊢
    refine Steady.streams ⟨hsound, h.inside, h.reqPos, h.reqLen, ?_, h.content⟩
    intro hclosing
    rw [show c.connection.sendAndClose = true from hclosing] at hopen
    cases hopen
  | drained => exact ⟨h.inOrder, Or.inl (over_fail _)⟩
  | finish => exact ⟨h.inOrder, Or.inl (Or.inr rfl)⟩
  | transfer hopen hlen hmore ht hc =>
    have hcounted := h.counted hopen hn hmore
    -- something has been sent, so the head has been
    have hsent : c.connection.headerSend = true := by
      by_contra hunsent
      obtain ⟨hsending, hhead, -⟩ := h.sound.fresh (Bool.not_eq_true _ ▸ hunsent)
      have hbalanced := h.sound.balanced hopen
      unfold Balanced at hbalanced
      omega
    obtain ⟨hstreams, hsent'⟩ := hcounted.transfer hv hlimit hfile ht
    exact hstreams.closing (hsent' hsent) hc

/-! ## A short state -/

/-- The next transfer of a short state fails the entry assert. -/
theorem transfer_of_not_balanced (h : ¬ c.Balanced) (ht : Transfer limit v c c') :
    c' = c.fail .entry := by
  cases ht with
  | entry => rfl
  | idle hbalanced => exact absurd hbalanced h
  | storage hbalanced => exact absurd hbalanced h
  | head _ hbalanced => exact absurd hbalanced h
  | body _ hbalanced => exact absurd hbalanced h

theorem Short.not_balanced (h : Short c) : ¬ c.Balanced := by
  intro hbalanced
  have := h.short
  unfold Balanced at hbalanced
  omega

/-- The next send of a short state fails an assert: it does not end the session. -/
theorem Short.sent (h : Short c) {n : Nat} (hn : n ≤ c.connection.sendMbuf.length)
    (hs : Sent limit v n c c') :
    (c'.fault = some .drained ∨ c'.fault = some .entry) ∧ c'.live = c.live ∧
      c'.log.appended = c.log.appended ∧ c'.log.asked = c.log.asked := by
  have hopen := h.opened
  have hleft := h.left
  have hshort := h.short
  have hmore := h.more
  obtain ⟨head, k, hcount, hsum, hsplit⟩ := countHead_spec n c.session
  cases hs with
  | ignored hclosing =>
    rw [hopen] at hclosing
    cases hclosing
  | head _ hlen => omega
  | drained => exact ⟨Or.inl rfl, rfl, rfl, rfl⟩
  | finish _ _ hlen =>
    -- the bytes left are more than those in the send buffer
    unfold Client.counted at hlen
    rw [hcount] at hlen
    simp only [countBody, if_pos hleft] at hlen
    omega
  | transfer _ _ _ ht hc =>
    -- counting takes the same off both sides
    have hnot : ¬ (c.counted n).Balanced := by
      unfold Balanced Client.counted
      rw [hcount]
      simp only [countBody, List.length_drop]
      omega
    obtain ⟨happended, hasked, hfault, hlive⟩ := closing_frame hc
    rw [transfer_of_not_balanced hnot ht] at happended hasked hfault hlive
    exact ⟨Or.inr hfault, hlive, happended, hasked⟩

/-! ## Whole runs -/

/-- A run that is not over is in a steady or a short state. -/
theorem Streams.going (h : Streams limit file start len c)
    (hgoing : ¬ (c.fault.isSome ∨ c.live = false)) :
    c.fault = none ∧ c.live = true ∧ (Steady limit file start len c ∨ Short c) := by
  refine ⟨?_, ?_, ?_⟩
  · cases hf : c.fault with
    | none => rfl
    | some f =>
      rw [hf] at hgoing
      exact absurd (Or.inl rfl) hgoing
  · cases hl : c.live with
    | true => rfl
    | false => exact absurd (Or.inr hl) hgoing
  · rcases h.state with hover | hstate
    · exact absurd hover hgoing
    · exact hstate

/-- **One event.** -/
theorem streamStep_streams (h : Streams limit file start len c) {e : StreamEvent}
    (hv : e.view.Serves file) (hlimit : limit ≤ 4096) (hfile : file.length < 2 ^ 63) :
    Streams limit file start len (c.streamStep limit e) := by
  unfold streamStep
  split
  · exact h
  · rename_i hgoing
    obtain ⟨hfault, hlive, hstate⟩ := h.going hgoing
    cases e with
    | transfer v =>
      have ht := @tryTransfer_transfer limit v c hfault
      rcases hstate with hsteady | hshort
      · exact (hsteady.transfer hv hlimit hfile ht).1
      · show Streams limit file start len (c.tryTransfer limit v)
        rw [transfer_of_not_balanced hshort.not_balanced ht]
        exact ⟨h.inOrder, Or.inl (over_fail _)⟩
    | sent n v =>
      simp only
      split
      · rename_i hn
        have hs := @sent_sent limit v c n hlive hfault
        rcases hstate with hsteady | hshort
        · exact hsteady.sent hv hlimit hfile hn.1 hn.2 hs
        · obtain ⟨hfault', -, happended, -⟩ := hshort.sent hn.2 hs
          refine ⟨?_, Or.inl (Or.inl ?_)⟩
          · rw [happended]
            exact h.inOrder
          · rcases hfault' with hf | hf <;> rw [hf] <;> rfl
      · exact h
    | contentSize v =>
      rcases hstate with hsteady | hshort
      · have hsound := hsteady.sound.onContentSizeFrom (v := v) hv.bounded
        show Streams limit file start len (c.onContentSizeFrom v)
        unfold Client.onContentSizeFrom at hsound ⊢
        split
        · exact h
        · rename_i hlen
          rw [if_neg hlen] at hsound
          split
          · rename_i hknown
            rw [if_pos hknown] at hsound
            exact Steady.streams ⟨hsound, hsteady.inside, hsteady.reqPos, hsteady.reqLen,
              hsteady.closing, hsteady.content⟩
          · exact h
      · -- a short session knows its length
        show Streams limit file start len (c.onContentSizeFrom v)
        unfold Client.onContentSizeFrom
        rw [if_pos hshort.left]
        exact h

/-- A session that was just opened for a request inside the file. -/
theorem openSession_steady {task : Nat} {method : Method} {rangeHdr : Option (List Char)}
    {r1 r2 : Int} (hv : v.Serves file) (hopen : c.connection.sendAndClose = false)
    (hrange : requestedRange rangeHdr = some (r1, r2)) (hr1 : 0 ≤ r1)
    (hempty : c.connection.sendMbuf = []) :
    Steady limit file r1 r2 (c.openSession task method r1 r2 v) := by
  refine ⟨openSession_sound hv.bounded hrange hempty, hr1, rfl, rfl, ?_, List.nil_prefix⟩
  intro hclosing
  rw [show c.connection.sendAndClose = true from hclosing] at hopen
  cases hopen

/-- A session starts with nothing to send of its own. -/
theorem openSession_not_balanced {task : Nat} {method : Method} {r1 r2 : Int}
    (hbusy : c.connection.sendMbuf ≠ []) : ¬ (c.openSession task method r1 r2 v).Balanced := by
  have hpos := List.length_pos_iff.mpr hbusy
  show ¬ (0 : Int) + (0 : Nat) = (c.connection.sendMbuf.length : Int)
  omega

/-- The transfer that a request starts with. -/
theorem request_streams {task : Nat} {method : Method} {rangeHdr : Option (List Char)}
    {r1 r2 : Int} (hv : v.Serves file) (hlimit : limit ≤ 4096) (hfile : file.length < 2 ^ 63)
    (hopen : c.connection.sendAndClose = false)
    (hrange : requestedRange rangeHdr = some (r1, r2)) (hr1 : 0 ≤ r1) :
    Streams limit file r1 r2 ((c.openSession task method r1 r2 v).tryTransfer limit v) := by
  have ht := @tryTransfer_transfer limit v (c.openSession task method r1 r2 v) rfl
  by_cases hempty : c.connection.sendMbuf = []
  · exact ((openSession_steady hv hopen hrange hr1 hempty).transfer hv hlimit hfile ht).1
  · -- bytes of an older response are in flight, and the entry assert fails
    rw [transfer_of_not_balanced (openSession_not_balanced hempty) ht]
    exact ⟨List.nil_prefix, Or.inl (over_fail _)⟩

/-- **Stream integrity.** Over every run of a session for a request that
    starts inside the file, the body bytes handed to `mg_send` are the bytes
    of the file from that start on, in order. -/
theorem stream_in_order (p : Platform) (file : List UInt8) (c : Client) (task : Nat)
    (method : Method) (rangeHdr : Option (List Char)) (r1 r2 : Int) (v : TaskView)
    (es : List StreamEvent) (hfile : file.length < 2 ^ 63)
    (hopen : c.connection.sendAndClose = false)
    (hrange : requestedRange rangeHdr = some (r1, r2)) (hr1 : 0 ≤ r1)
    (hv : v.Serves file) (hes : ∀ e ∈ es, e.view.Serves file) :
    (run (streamStep p.sendBufLimit)
      ((c.openSession task method r1 r2 v).tryTransfer p.sendBufLimit v) es).log.appended <+:
        file.drop r1.toNat := by
  have hlimit := p.sendBufLimit_le
  have hstart : Streams p.sendBufLimit file r1 r2
      ((c.openSession task method r1 r2 v).tryTransfer p.sendBufLimit v) :=
    request_streams hv hlimit hfile hopen hrange hr1
  have hstep : ∀ c e, Streams p.sendBufLimit file r1 r2 c → e.view.Serves file →
      Streams p.sendBufLimit file r1 r2 (c.streamStep p.sendBufLimit e) :=
    fun c e h hv => streamStep_streams h hv hlimit hfile
  exact (run_invariant hstep hstart (along_of_forall hes)).inOrder

/-- A request for a file of three bytes from its second byte on. -/
theorem stream_in_order_three :
    (run (streamStep Platform.desktop.sendBufLimit)
      ((acceptedClient.openSession 0 .get 1 0 (TaskView.ofFile [7, 8, 9])).tryTransfer
        Platform.desktop.sendBufLimit (TaskView.ofFile [7, 8, 9]))
      [.sent 5 (TaskView.ofFile [7, 8, 9]), .transfer (TaskView.ofFile [7, 8, 9])]).log.appended <+:
        [8, 9] :=
  stream_in_order .desktop [7, 8, 9] acceptedClient 0 .get (some "bytes=1-".toList) 1 0
    (TaskView.ofFile [7, 8, 9])
    [.sent 5 (TaskView.ofFile [7, 8, 9]), .transfer (TaskView.ofFile [7, 8, 9])] (by decide) rfl
    (by decide) (by decide) (TaskView.ofFile_serves _) (by
      intro e he
      simp only [List.mem_cons, List.not_mem_nil, or_false] at he
      rcases he with rfl | rfl
      · exact TaskView.ofFile_serves _
      · exact TaskView.ofFile_serves _)

end Client

end Libms
