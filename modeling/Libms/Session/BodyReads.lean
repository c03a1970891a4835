import Mathlib
import Libms.Framework.Runs
import Libms.Session.Tracked

/-! # The reads of the body part

    Which events of a session read for the body, and with which arguments. As
    long as the reads are in bounds, what the task would give past the end of
    its file does not matter, so it may be left out.

    * `bodyPart`: the state in which `try_transfer_data` gets to its body part.
    * `sessionStep_clip`: a step whose read is in bounds reads nothing past the
      end.
    * `Followed.step`, `Followed.run_iff`: a session stays tracked while its
      reads are in bounds.
    * `body_reads_in_bounds`: all reads of a run are in bounds iff each is
      reached with a start inside the file and a length that is not negative. -/

namespace Libms

open CInt Runs

/-- What a session relies on in a task with a file of `F` bytes: the size is
    known or not, and a read inside the file gives what was asked for at
    most. Nothing is said about a read that goes past the end. -/
structure TaskView.Reads (F : Nat) (v : TaskView) : Prop where
  filesize : v.filesize = 0 ∨ v.filesize = F
  length : ∀ (pos : Int) (n : Nat) (bytes : List UInt8), pos + n ≤ F →
    v.read pos n = some bytes → bytes.length ≤ n

/-- The reads past the end of the file are left out. -/
def TaskView.clip (F : Nat) (v : TaskView) : TaskView :=
  { v with read := fun pos (n : Nat) => if pos + n ≤ (F : Int) then v.read pos n else none }

theorem TaskView.Reads.bounded {F : Nat} {v : TaskView} (h : v.Reads F) :
    (v.clip F).Bounded F where
  filesize := h.filesize
  length pos n bytes hread := by
    have hclip : (if pos + n ≤ (F : Int) then v.read pos n else none) = some bytes := hread
    split at hclip
    · rename_i hinside
      exact h.length pos n bytes hinside hclip
    · cases hclip
  inside pos n bytes hread hpast := by
    have hclip : (if pos + n ≤ (F : Int) then v.read pos n else none) = some bytes := hread
    split at hclip
    · rename_i hinside
      have hlen := h.length pos n bytes hinside hclip
      exact List.length_eq_zero_iff.mp (by omega)
    · cases hclip

theorem TaskView.Bounded.reads {F : Nat} {v : TaskView} (h : v.Bounded F) : v.Reads F :=
  ⟨h.filesize, fun pos n bytes _ hread => h.length pos n bytes hread⟩

def SessionEvent.clip (F : Nat) : SessionEvent → SessionEvent
  | .recv v => .recv (v.clip F)
  | .contentSize v => .contentSize (v.clip F)
  | .error v => .error (v.clip F)
  | .sent n v => .sent n (v.clip F)
  | .close => .close

namespace Client

/-! ## Where the body part is reached -/

/-- The state in which a call of `try_transfer_data` gets to its body part. -/
def bodyPart (limit : Nat) (v : TaskView) (c : Client) : Option Client :=
  if c.Balanced ∧ Ready limit v c.session then
    let c := c.probe v
    if c.fault.isSome then none
    else
      let c := c.sendHead limit v
      if c.session.method = .head then none else some c
  else none

/-- The state in which an event calls `try_transfer_data`: `on_recv` does at
    once, `on_send` when it has counted and the session is not at its end. -/
def calls (c : Client) : SessionEvent → Option (Client × TaskView)
  | .recv v => if c.fault = none ∧ c.live = true then some (c, v) else none
  | .sent n v =>
    if (c.fault = none ∧ c.live = true ∧ 0 < n ∧ n ≤ c.connection.sendMbuf.length ∧
        c.connection.sendAndClose = false ∧ c.session.len ≠ 0) ∧
        ¬ (0 < c.session.len ∧ c.session.len < (countHead n c.session).2) ∧
        ¬ ((c.counted n).session.len = 0 ∧ (c.counted n).session.sending = 0) then
      some (c.counted n, v)
    else none
  | _ => none

/-- The read that an event brings is in bounds. -/
def ReadInBounds (limit F : Nat) (c : Client) (e : SessionEvent) : Prop :=
  ∀ p ∈ c.calls e, ∀ d ∈ p.1.bodyPart limit p.2, d.InBounds limit F p.2

/-- The condition on an event: its read belongs to a request that starts
    inside the file or at its end, and the length is not negative. -/
def StartsInside (limit F : Nat) (c : Client) (e : SessionEvent) : Prop :=
  ∀ p ∈ c.calls e, ∀ d ∈ p.1.bodyPart limit p.2, d.session.reqPos ≤ F ∧ 0 ≤ d.session.len

variable {limit F : Nat} {v : TaskView} {c c' d : Client}

/-- The way to the body part. -/
theorem bodyPart_spec (hd : d ∈ c.bodyPart limit v) :
    c.Balanced ∧ Ready limit v c.session ∧ c.session.method = .get ∧
      (∃ m, d = c.headed limit v m) ∧ c.tryTransfer limit v = d.body limit v := by
  unfold bodyPart at hd
  split at hd
  · rename_i hentry
    obtain ⟨hbalanced, hready⟩ := hentry
    have hcounts : ¬ c.session.sending + c.session.headerSending ≠ c.connection.sendMbuf.length :=
      not_not.mpr hbalanced
    have htry : c.tryTransfer limit v = c.transfer limit v := by
      unfold tryTransfer
      rw [if_neg hcounts, if_pos hready]
    dsimp only at hd
    split at hd
    · cases hd
    · rename_i hprobed
      split at hd
      · cases hd
      · rename_i hget
        cases hd
        rcases probe_cases v c with hprobe | ⟨m, hprobe⟩
        · rw [hprobe] at hprobed
          exact absurd rfl hprobed
        · have hmethod : c.session.method = .get := by
            rw [sendHead_method, hprobe] at hget
            cases hm : c.session.method with
            | get => rfl
            | head => exact absurd hm hget
          refine ⟨hbalanced, hready, hmethod, ⟨m, by rw [hprobe]; rfl⟩, ?_⟩
          rw [htry]
          unfold transfer
          simp only [if_neg hprobed, if_neg hget]
  · cases hd

/-! ## Reads past the end left out -/

theorem probe_clip (hready : Ready limit v c.session) (hv : v.filesize = 0 ∨ v.filesize = F)
    (hF : F < 2 ^ 63) : c.probe (v.clip F) = c.probe v := by
  have hsize : v.filesize = F := hv.resolve_left hready.2.2
  -- the first kilobyte, or as much as there is
  have hinside : (0 : Int) + (min 1024 (sizeT (v.filesize)) : Nat) ≤ F := by
    rw [hsize, sizeT_natCast (by omega)]
    omega
  have hread : (v.clip F).read 0 (min 1024 (sizeT v.filesize)) =
      v.read 0 (min 1024 (sizeT v.filesize)) := if_pos hinside
  unfold probe
  rw [show (v.clip F).filesize = v.filesize from rfl, hread]

theorem body_clip (hinside : d.readFrom + wanted limit v d.session d.readFrom ≤ F) :
    d.body limit (v.clip F) = d.body limit v := by
  have hwanted : wanted limit (v.clip F) d.session d.readFrom =
      wanted limit v d.session d.readFrom := rfl
  have hread : (v.clip F).read d.readFrom (wanted limit v d.session d.readFrom) =
      v.read d.readFrom (wanted limit v d.session d.readFrom) := if_pos hinside
  unfold body
  simp only [hwanted, hread]

/-- Where the read is in bounds, a transfer does not see the difference. -/
theorem tryTransfer_clip (hv : v.filesize = 0 ∨ v.filesize = F) (hF : F < 2 ^ 63)
    (hin : ∀ d ∈ c.bodyPart limit v, d.InBounds limit F v) :
    c.tryTransfer limit (v.clip F) = c.tryTransfer limit v := by
  unfold tryTransfer
  split
  · rfl
  · rename_i hentry
    by_cases hready : Ready limit v c.session
    · rw [if_pos hready, if_pos (show Ready limit (v.clip F) c.session from hready)]
      unfold transfer
      unfold bodyPart at hin
      rw [if_pos ⟨not_not.mp hentry, hready⟩] at hin
      rw [probe_clip hready hv hF]
      dsimp only at hin ⊢
      split
      · rfl
      · rename_i hprobed
        rw [if_neg hprobed] at hin
        rw [show (c.probe v).sendHead limit (v.clip F) = (c.probe v).sendHead limit v from rfl]
        split
        · rfl
        · rename_i hget
          rw [if_neg hget] at hin
          exact body_clip (hin _ rfl).inside
    · rw [if_neg hready, if_neg (show ¬ Ready limit (v.clip F) c.session from hready)]

/-- **An event** whose read is in bounds does not see the difference. -/
theorem sessionStep_clip {e : SessionEvent} (hv : ∀ v ∈ e.view?, v.Reads F) (hF : F < 2 ^ 63)
    (hin : ReadInBounds limit F c e) :
    c.sessionStep limit (e.clip F) = c.sessionStep limit e := by
  unfold sessionStep step
  cases hfault : c.fault with
  | some f => rfl
  | none =>
    rw [if_neg (by simp), if_neg (by simp)]
    cases e with
    | close => rfl
    | contentSize v => rfl
    | error v => rfl
    | recv v =>
      dsimp only [SessionEvent.clip, SessionEvent.client]
      cases hlive : c.live with
      | false => rfl
      | true =>
        have hcalls : (c, v) ∈ c.calls (.recv v) := if_pos ⟨hfault, hlive⟩
        rw [if_pos rfl, if_pos rfl, tryTransfer_clip (hv v rfl).filesize hF (hin _ hcalls)]
        rfl
    | sent n v =>
      dsimp only [SessionEvent.clip, SessionEvent.client]
      split
      · rename_i hn
        unfold Client.sent
        dsimp only
        by_cases hlive : c.live = true
        · rw [if_pos hlive, if_pos hlive]
          unfold onSend
          dsimp only
          split
          · rfl
          · rename_i hopen
            split
            · rfl
            · rename_i hlen
              split
              · rfl
              · rename_i hshort
                split
                · rfl
                · rename_i hmore
                  -- the call behind the counting is the one of this event
                  obtain ⟨head, k, hcount, -⟩ := countHead_spec n c.session
                  have hcalls : (c.counted n, v) ∈ c.calls (.sent n v) := by
                    refine if_pos ⟨⟨hfault, hlive, hn.1, hn.2, Bool.eq_false_iff.mpr hopen, ?_⟩,
                      ?_, hmore⟩
                    · rw [hcount] at hlen
                      exact hlen
                    · rw [hcount] at hshort ⊢
                      exact hshort
                  exact congrArg (closeIfNeed v)
                    (tryTransfer_clip (hv v rfl).filesize hF (hin _ hcalls))
        · rw [if_neg hlive, if_neg hlive]
      · rfl

/-! ## Events -/

/-- **Step lemma.** Behind an event whose read is in bounds the session is
    still tracked. -/
theorem Followed.step {e : SessionEvent} (h : Followed limit F c) (hlimit : limit ≤ 4096)
    (hF : F < 2 ^ 63) (hv : ∀ v ∈ e.view?, v.Reads F) (hin : ReadInBounds limit F c e) :
    Followed limit F (c.sessionStep limit e) := by
  rw [← sessionStep_clip hv hF hin]
  cases hfault : c.fault with
  | some f =>
    intro hnone
    rw [sessionStep_fault (by rw [hfault]; rfl), hfault] at hnone
    cases hnone
  | none =>
    have hbounded : ∀ v ∈ (e.clip F).view?, v.Bounded F := by
      intro v' hv'
      cases e with
      | close => cases hv'
      | recv v => cases hv'; exact (hv v rfl).bounded
      | contentSize v => cases hv'; exact (hv v rfl).bounded
      | error v => cases hv'; exact (hv v rfl).bounded
      | sent n v => cases hv'; exact (hv v rfl).bounded
    exact (step_moved (e.clip F) hfault).followed h hbounded hlimit hF hfault

/-! ## Whole runs -/

theorem headed_posed {m : Bool} (h : Posed limit F c.session) :
    Posed limit F (c.headed limit v m).session := by
  obtain ⟨unsent, hsession⟩ := @headed_session limit v c m
  rw [hsession]
  exact { h with }

/-- The session at a body part. -/
theorem Tracked.bodyPart (h : Tracked limit F c) (hF : F < 2 ^ 63)
    (hd : d ∈ c.bodyPart limit v) :
    Posed limit F d.session ∧ d.Balanced ∧ Ready limit v d.session := by
  obtain ⟨hbalanced, hready, -, ⟨m, rfl⟩, -⟩ := bodyPart_spec hd
  have hready' := headed_ready (m := m) hready
  cases h with
  | short h => exact absurd hbalanced h.not_balanced
  | within h =>
    exact ⟨headed_posed h.posed, (h.sound.begun hF hbalanced hready m).balanced, hready'⟩
  | lame h =>
    refine ⟨headed_posed h.posed, ?_, hready'⟩
    rw [headed_of_sent h.headerSend]
    exact hbalanced

/-- A call of `try_transfer_data` comes from a state that is tracked, or its
    entry assert fails. -/
theorem Followed.calls {e : SessionEvent} (h : Followed limit F c) {p : Client × TaskView}
    (hp : p ∈ c.calls e) : (Tracked limit F p.1 ∨ ¬ p.1.Balanced) ∧ p.2 ∈ e.view? := by
  cases e with
  | contentSize v => cases hp
  | error v => cases hp
  | close => cases hp
  | recv v =>
    unfold Client.calls at hp
    dsimp only at hp
    split at hp
    · rename_i hcall
      cases hp
      exact ⟨Or.inl (h hcall.1 hcall.2), rfl⟩
    · cases hp
  | sent n v =>
    unfold Client.calls at hp
    dsimp only at hp
    split at hp
    · rename_i hcall
      cases hp
      obtain ⟨⟨hfault, hlive, -, hn, hopen, -⟩, -, hmore⟩ := hcall
      refine ⟨?_, rfl⟩
      cases h hfault hlive with
      | within h => exact Or.inl (.within (h.counted hopen hn (by omega)))
      | short h =>
        -- counting takes the same off both sides
        right
        obtain ⟨head, k, hcount, hsum, hsplit⟩ := countHead_spec n c.session
        have hshort := h.short
        unfold Balanced Client.counted
        rw [hcount]
        simp only [countBody, List.length_drop]
        omega
      | lame h =>
        rw [h.closing] at hopen
        cases hopen
    · cases hp

/-- **One event**: its read is in bounds iff it starts inside. -/
theorem Followed.read_iff {e : SessionEvent} (h : Followed limit F c) (hlimit : limit ≤ 4096)
    (hfile : 0 < F) (hF : F < 2 ^ 63) (hv : ∀ v ∈ e.view?, v.Reads F) :
    ReadInBounds limit F c e ↔ StartsInside limit F c e := by
  have hiff : ∀ p ∈ c.calls e, ∀ d ∈ p.1.bodyPart limit p.2,
      (d.InBounds limit F p.2 ↔ d.session.reqPos ≤ F ∧ 0 ≤ d.session.len) := by
    intro p hp d hd
    obtain ⟨htracked | hnot, hview⟩ := h.calls hp
    · obtain ⟨hposed, hbalanced, hready⟩ := htracked.bodyPart hF hd
      have hsize := (hv _ hview).filesize.resolve_left hready.2.2
      exact hposed.inBounds_iff hlimit hbalanced hready hsize hfile
    · exact absurd (bodyPart_spec hd).1 hnot
  constructor
  · intro hin p hp d hd
    exact (hiff p hp d hd).mp (hin p hp d hd)
  · intro hstart p hp d hd
    exact (hiff p hp d hd).mpr (hstart p hp d hd)

/-- A run from a tracked state. -/
theorem Followed.run_iff {es : List SessionEvent} (h : Followed limit F c) (hlimit : limit ≤ 4096)
    (hfile : 0 < F) (hF : F < 2 ^ 63) (hes : ∀ e ∈ es, ∀ v ∈ e.view?, v.Reads F) :
    Along (sessionStep limit) (ReadInBounds limit F) c es ↔
      Along (sessionStep limit) (StartsInside limit F) c es := by
  have hviews : Along (sessionStep limit) (fun _ e => ∀ v ∈ e.view?, v.Reads F) c es :=
    along_of_forall hes
  constructor
  · intro hin
    exact along_of_invariant (P := Followed limit F)
      (fun d e hd hok => hd.step hlimit hF hok.2 hok.1)
      (fun d e hd hok => (hd.read_iff hlimit hfile hF hok.2).mp hok.1) h (hin.and hviews)
  · intro hstart
    exact along_of_invariant (P := Followed limit F)
      (fun d e hd hok => hd.step hlimit hF hok.2 ((hd.read_iff hlimit hfile hF hok.2).mpr hok.1))
      (fun d e hd hok => (hd.read_iff hlimit hfile hF hok.2).mpr hok.1) h (hstart.and hviews)

/-! ## The request -/

/-- The session answers a request for `r1` and `r2`. -/
def Answering (r1 r2 : Int) (c : Client) : Prop :=
  c.fault = none → c.session.reqPos = r1 ∧ c.session.reqLen = r2

theorem Answering.of_same {r1 r2 : Int} (h : Answering r1 r2 c)
    (hfault : c'.fault = none → c.fault = none)
    (hreqPos : c'.session.reqPos = c.session.reqPos)
    (hreqLen : c'.session.reqLen = c.session.reqLen) : Answering r1 r2 c' := by
  intro hnone
  rw [hreqPos, hreqLen]
  exact h (hfault hnone)

theorem counted_reqLen {n : Nat} : (c.counted n).session.reqLen = c.session.reqLen := by
  obtain ⟨head, k, hcount, -⟩ := countHead_spec n c.session
  unfold Client.counted
  rw [hcount]
  rfl

theorem Answering.transfer {r1 r2 : Int} (h : Answering r1 r2 c) (hfault : c.fault = none)
    (ht : Transfer limit v c c') : Answering r1 r2 c' :=
  h.of_same (fun _ => hfault) ht.sameReader.reqPos ht.sameReader.reqLen

theorem Answering.closing {r1 r2 : Int} (h : Answering r1 r2 c) (hc : Closing v c c') :
    Answering r1 r2 c' :=
  h.of_same (fun hnone => (closing_frame hc).2.2.1 ▸ hnone) hc.sameReader.reqPos
    hc.sameReader.reqLen

/-- The request stays what it is. -/
theorem Answering.step {r1 r2 : Int} (h : Answering r1 r2 c) (e : SessionEvent) :
    Answering r1 r2 (c.sessionStep limit e) := by
  cases hfault : c.fault with
  | some f =>
    rw [sessionStep_fault (by rw [hfault]; rfl)]
    exact h
  | none =>
    have hm := @step_moved limit c e hfault
    unfold sessionStep
    generalize c.step limit e.client = c' at hm
    cases hm with
    | idle => exact h
    | recv v =>
      exact (h.transfer hfault (tryTransfer_transfer (v := v) hfault)).closing closeIfNeed_closing
    | contentSize v =>
      unfold onContentSizeFrom
      split
      · exact h
      · split
        · exact h
        · exact h
    | error v => exact h.closing closeIfNeed_closing
    | close => exact h
    | drain => exact h
    | sent n v _ _ _ hs =>
      have hcounted : Answering r1 r2 (c.counted n) :=
        h.of_same id counted_offset.2.1 counted_reqLen
      cases hs with
      | ignored => exact h
      | head =>
        obtain ⟨head, k, hcount, -⟩ := countHead_spec n c.session
        rw [hcount]
        exact h
      | drained => exact fun hnone => by cases hnone
      | finish => exact hcounted
      | transfer _ _ _ ht hc => exact (hcounted.transfer hfault ht).closing hc

/-- A request that starts inside the file has no negative length later. -/
theorem Tracked.len_nonneg (h : Tracked limit F c) (hstart : c.session.reqPos ≤ F)
    (hasked : 0 ≤ c.session.reqLen) : 0 ≤ c.session.len := by
  cases h with
  | short h => exact le_of_lt h.left
  | lame h => exact le_of_lt h.left
  | within h =>
    rcases hasked.eq_or_lt with hzero | hpos
    · rcases h.sound.openEnded hzero.symm with hend | ⟨hlen, -⟩
      · have hnonneg := h.sound.nonneg
        rcases h.reach with hreach | ⟨hpast, -⟩
        · unfold nextOffset at hreach
          omega
        · omega
      · omega
    · exact le_of_lt (h.sound.ranged hpos).2

/-- What a call does not change of the request. -/
theorem calls_request {e : SessionEvent} {p : Client × TaskView} (hp : p ∈ c.calls e) :
    c.fault = none ∧ p.1.session.reqPos = c.session.reqPos ∧
      p.1.session.reqLen = c.session.reqLen := by
  cases e with
  | contentSize v => cases hp
  | error v => cases hp
  | close => cases hp
  | recv v =>
    unfold Client.calls at hp
    dsimp only at hp
    split at hp
    · rename_i hcall
      cases hp
      exact ⟨hcall.1, rfl, rfl⟩
    · cases hp
  | sent n v =>
    unfold Client.calls at hp
    dsimp only at hp
    split at hp
    · rename_i hcall
      cases hp
      exact ⟨hcall.1.1, counted_offset.2.1, counted_reqLen⟩
    · cases hp

/-- A request inside the file meets the condition at every event. -/
theorem Followed.startsInside {e : SessionEvent} {r1 r2 : Int} (h : Followed limit F c)
    (hreq : Answering r1 r2 c) (hr1 : r1 ≤ F) (hr2 : 0 ≤ r2) : StartsInside limit F c e := by
  intro p hp d hd
  obtain ⟨hbalanced, -, -, ⟨m, rfl⟩, -⟩ := bodyPart_spec hd
  obtain ⟨hfault, hreqPos, hreqLen⟩ := calls_request hp
  obtain ⟨hpos, hlen⟩ := hreq hfault
  obtain ⟨unsent, hsession⟩ := @headed_session limit p.2 p.1 m
  rw [hsession]
  rcases (h.calls hp).1 with htracked | hnot
  · have hstart : p.1.session.reqPos ≤ F := by omega
    exact ⟨hstart, htracked.len_nonneg hstart (by omega)⟩
  · exact absurd hbalanced hnot

theorem Followed.run_startsInside {es : List SessionEvent} {r1 r2 : Int} (h : Followed limit F c)
    (hreq : Answering r1 r2 c) (hr1 : r1 ≤ F) (hr2 : 0 ≤ r2) (hlimit : limit ≤ 4096)
    (hfile : 0 < F) (hF : F < 2 ^ 63) (hes : ∀ e ∈ es, ∀ v ∈ e.view?, v.Reads F) :
    Along (sessionStep limit) (StartsInside limit F) c es := by
  apply along_of_invariant (P := fun d => Followed limit F d ∧ Answering r1 r2 d) _ _ ⟨h, hreq⟩
    (along_of_forall hes)
  · intro d e hd hview
    have hstart := hd.1.startsInside (e := e) hd.2 hr1 hr2
    exact ⟨hd.1.step hlimit hF hview ((hd.1.read_iff hlimit hfile hF hview).mpr hstart),
      hd.2.step e⟩
  · intro d e hd _
    exact hd.1.startsInside hd.2 hr1 hr2

/-- A new session, with nothing in the send buffer. -/
theorem openSession_within {task : Nat} {method : Method} {rangeHdr : Option (List Char)}
    {r1 r2 : Int} (hv : v.Reads F) (hrange : requestedRange rangeHdr = some (r1, r2))
    (hempty : c.connection.sendMbuf = []) : Within limit F (c.openSession task method r1 r2 v) := by
  have hsound : Sound limit F (c.openSession task method r1 r2 (v.clip F)) :=
    openSession_sound hv.bounded hrange hempty
  refine ⟨hsound, ?_⟩
  show r1 + 0 + (0 : Nat) ≤ (F : Int) ∨ (F < r1 ∧ ([] : List UInt8) = [])
  by_cases hstart : r1 ≤ F
  · exact Or.inl (by omega)
  · exact Or.inr ⟨by omega, rfl⟩

theorem openSession_calls {task : Nat} {method : Method} {r1 r2 : Int} :
    (c.openSession task method r1 r2 v).calls (.recv v) =
      some (c.openSession task method r1 r2 v, v) := by
  unfold Client.calls
  exact if_pos ⟨rfl, rfl⟩

/-- The first call of a session that is opened while an older response is in
    flight fails its entry assert: there is no read, then or later. -/
theorem openSession_busy {task : Nat} {method : Method} {r1 r2 : Int}
    (hbusy : c.connection.sendMbuf ≠ []) :
    (∀ p ∈ (c.openSession task method r1 r2 v).calls (.recv v), p.1.bodyPart limit p.2 = none) ∧
      Followed limit F ((c.openSession task method r1 r2 v).sessionStep limit (.recv v)) := by
  have hnot := @openSession_not_balanced v c task method r1 r2 hbusy
  constructor
  · intro p hp
    rw [openSession_calls] at hp
    cases hp
    exact if_neg fun hentry => hnot hentry.1
  · intro hnone
    have hstep : (c.openSession task method r1 r2 v).sessionStep limit (.recv v) =
        ((c.openSession task method r1 r2 v).tryTransfer limit v).closeIfNeed v := rfl
    have ht := @tryTransfer_transfer limit v (c.openSession task method r1 r2 v) rfl
    have hfault := (closing_frame (@closeIfNeed_closing v
      ((c.openSession task method r1 r2 v).tryTransfer limit v))).2.2.1
    rw [hstep, hfault, transfer_of_not_balanced hnot ht] at hnone
    cases hnone

/-- **Body reads.** For every request that is accepted, every file of `F`
    bytes and every run of the session it opens: the reads of the body part
    are in bounds iff each of them is reached with a start inside the file
    and a length that is not negative. A request for such a range meets this
    in every run. -/
theorem body_reads_in_bounds (p : Platform) (F : Nat) (rangeHdr : Option (List Char)) (r1 r2 : Int)
    (c : Client) (task : Nat) (method : Method) (v : TaskView) (es : List SessionEvent)
    (hfile : 0 < F) (hF : F < 2 ^ 63) (hrange : requestedRange rangeHdr = some (r1, r2))
    (hv : v.Reads F) (hes : ∀ e ∈ es, ∀ v ∈ e.view?, v.Reads F) :
    (Along (sessionStep p.sendBufLimit) (ReadInBounds p.sendBufLimit F)
        (c.openSession task method r1 r2 v) (.recv v :: es) ↔
      Along (sessionStep p.sendBufLimit) (StartsInside p.sendBufLimit F)
        (c.openSession task method r1 r2 v) (.recv v :: es)) ∧
    (r1 ≤ F → 0 ≤ r2 →
      Along (sessionStep p.sendBufLimit) (ReadInBounds p.sendBufLimit F)
        (c.openSession task method r1 r2 v) (.recv v :: es)) := by
  have hlimit := p.sendBufLimit_le
  have hviews : ∀ e ∈ SessionEvent.recv v :: es, ∀ v ∈ e.view?, v.Reads F := by
    intro e he v' hv'
    rcases List.mem_cons.mp he with rfl | he
    · cases hv'
      exact hv
    · exact hes e he v' hv'
  have hreq : Answering r1 r2 (c.openSession task method r1 r2 v) := fun _ => ⟨rfl, rfl⟩
  by_cases hempty : c.connection.sendMbuf = []
  · have hstart : Followed p.sendBufLimit F (c.openSession task method r1 r2 v) :=
      fun _ _ => .within (openSession_within hv hrange hempty)
    have hiff := hstart.run_iff hlimit hfile hF hviews
    exact ⟨hiff, fun hr1 hr2 =>
      hiff.mpr (hstart.run_startsInside hreq hr1 hr2 hlimit hfile hF hviews)⟩
  · obtain ⟨hnone, hlater⟩ := @openSession_busy p.sendBufLimit F v c task method r1 r2 hempty
    have hiff := hlater.run_iff hlimit hfile hF hes
    have hfirst : ReadInBounds p.sendBufLimit F (c.openSession task method r1 r2 v) (.recv v) := by
      intro q hq d hd
      rw [hnone q hq] at hd
      cases hd
    have hfirst' : StartsInside p.sendBufLimit F (c.openSession task method r1 r2 v)
        (.recv v) := by
      intro q hq d hd
      rw [hnone q hq] at hd
      cases hd
    constructor
    · exact ⟨fun h => ⟨hfirst', hiff.mp h.2⟩, fun h => ⟨hfirst, hiff.mpr h.2⟩⟩
    · intro hr1 hr2
      exact ⟨hfirst, hiff.mpr
        (hlater.run_startsInside (hreq.step _) hr1 hr2 hlimit hfile hF hes)⟩

theorem TaskView.ofFile_reads (file : List UInt8) : (TaskView.ofFile file).Reads file.length :=
  (TaskView.ofFile_serves file).bounded.reads

/-- From the second of three bytes on, with a send in between. -/
theorem body_reads_in_bounds_three :
    Along (sessionStep 4096) (ReadInBounds 4096 3)
      (acceptedClient.openSession 0 .get 1 0 (TaskView.ofFile [7, 8, 9]))
      [.recv (TaskView.ofFile [7, 8, 9]), .sent 5 (TaskView.ofFile [7, 8, 9])] :=
  (body_reads_in_bounds .desktop 3 (some "bytes=1-".toList) 1 0 acceptedClient 0 .get
    (TaskView.ofFile [7, 8, 9]) [.sent 5 (TaskView.ofFile [7, 8, 9])] (by decide) (by decide)
    (by decide +kernel) (TaskView.ofFile_reads [7, 8, 9]) (by
      intro e he v hv
      rw [List.mem_singleton.mp he] at hv
      cases hv
      exact TaskView.ofFile_reads [7, 8, 9])).2 (by decide) (by decide)

/-- From the eleventh byte of three on: what is left wraps, and so does the
    rest of the file. -/
theorem body_read_past_end :
    requestedRange (some "bytes=10-".toList) = some (10, 0) ∧
      (TaskView.ofFile [7, 8, 9]).Reads 3 ∧
      ((acceptedClient.openSession 0 .get 10 0 (TaskView.ofFile [7, 8, 9])).sessionStep 4096
        (.recv (TaskView.ofFile [7, 8, 9]))).log.asked = [(10, 2 ^ 64 - 7)] ∧
      ¬ ReadInBounds 4096 3
        (acceptedClient.openSession 0 .get 10 0 (TaskView.ofFile [7, 8, 9]))
        (.recv (TaskView.ofFile [7, 8, 9])) := by
  refine ⟨by decide +kernel, TaskView.ofFile_reads [7, 8, 9], by decide +kernel, ?_⟩
  intro h
  have hpart : ((acceptedClient.openSession 0 .get 10 0 (TaskView.ofFile [7, 8, 9])).bodyPart 4096
      (TaskView.ofFile [7, 8, 9])).isSome = true := by decide +kernel
  obtain ⟨d, hd⟩ := Option.isSome_iff_exists.mp hpart
  have hin := h _ openSession_calls d hd
  obtain ⟨-, -, -, ⟨m, rfl⟩, -⟩ := bodyPart_spec hd
  obtain ⟨unsent, hsession⟩ := @headed_session 4096 (TaskView.ofFile [7, 8, 9])
    (acceptedClient.openSession 0 .get 10 0 (TaskView.ofFile [7, 8, 9])) m
  -- the head leaves the reader as it was opened, with a length of three less ten
  have hlen : ((acceptedClient.openSession 0 .get 10 0 (TaskView.ofFile [7, 8, 9])).headed 4096
      (TaskView.ofFile [7, 8, 9]) m).session.len = -7 := by
    rw [hsession]
    rfl
  have hsending : ((acceptedClient.openSession 0 .get 10 0 (TaskView.ofFile [7, 8, 9])).headed 4096
      (TaskView.ofFile [7, 8, 9]) m).session.sending = 0 := by
    rw [hsession]
    rfl
  have hleft := hin.left
  omega

end Client

end Libms
