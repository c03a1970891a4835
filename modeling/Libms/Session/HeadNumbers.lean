import Mathlib
import Libms.Framework.Runs
import Libms.Pipe.HttpPipe
import Libms.Session.OneResponse

/-! # The numbers in a head

    A 206 head names the first and the last byte of the body, the size of
    the file and the length of the body. All four come from the reader and
    the task at the moment the head is sent, and the reader still stands at
    the start of the range then. What is read later is clipped to the file,
    the numbers are not.

    * `HeadNumbers`: the four numbers, and the head as their text.
    * `Unsent`: the reader of a session that has sent no head.
    * `head_truthful_iff`: the numbers are true iff the range is open-ended
      or ends inside the file. -/

namespace Libms

open CInt Runs Text

/-- The numbers of a head. -/
structure HeadNumbers where
  first : Int
  last : Int
  total : Int
  contentLength : Int
  deriving DecidableEq

/-- The 206 head with these numbers. -/
def HeadNumbers.text (n : HeadNumbers) (limit : Nat) (contentType : List Char) : List Char :=
  Connection.headText 206 n.contentLength <| snprintf limit <|
    "Content-Type: ".toList ++ contentType ++ "\r\nAccept-Ranges: bytes\r\nContent-Range: ".toList
      ++ contentRangeText n.first n.last n.total ++ "\r\nConnection: keep-alive".toList

/-- The numbers are true of a body from `a` on in a file of `F` bytes. -/
structure HeadNumbers.Truthful (F : Nat) (a : Int) (n : HeadNumbers) : Prop where
  first : n.first = a
  ordered : n.first ≤ n.last
  inside : n.last < n.total
  total : n.total = F
  contentLength : n.contentLength = n.last - n.first + 1
  exist : a + n.contentLength ≤ F

/-- A Range header that names a first byte `a`, and a last byte or none. -/
def Names (rangeHdr : List Char) (a : Int) (b : Option Int) : Prop :=
  httpParseRangeHeader rangeHdr = a :: b.toList

namespace Client

/-- The numbers that `try_transfer_data` prints. -/
def headNumbers (v : TaskView) (s : Session) : HeadNumbers :=
  ⟨s.pos, s.len + s.pos - 1, v.filesize, s.len⟩

variable {limit F : Nat} {v : TaskView} {c c' : Client}

/-- The head of a GET is the text of these numbers. -/
theorem head_text (hget : c.session.method = .get) :
    c.head limit v = bytesOf ((headNumbers v c.session).text limit v.contentType) := by
  have htext : headerStr limit v c.session = snprintf limit
      ("Content-Type: ".toList ++ v.contentType
        ++ "\r\nAccept-Ranges: bytes\r\nContent-Range: ".toList
        ++ contentRangeText c.session.pos (c.session.len + c.session.pos - 1) v.filesize
        ++ "\r\nConnection: keep-alive".toList) := by
    unfold headerStr contentRangeText
    congr 1
    simp
  unfold head HeadNumbers.text headNumbers
  rw [hget, htext]
  rfl

/-! ## Before the head -/

/-- The reader of a GET that has sent no head: it stands at the start, and
    its length is the one asked for, or up to the end of the file. -/
structure Unsent (F : Nat) (r1 r2 : Int) (c : Client) : Prop where
  method : c.session.method = .get
  pos : c.session.pos = r1
  len : c.session.len = r2 ∨ (r2 = 0 ∧ c.session.len = F - r1)
  sending : c.session.sending = 0
  headerSending : c.session.headerSending = 0

/-- Nothing but an error reply is in the send buffer. -/
def Clear (c : Client) : Prop :=
  c.fault = none → c.connection.sendAndClose = false → c.connection.sendMbuf = []

theorem openSession_unsent {task : Nat} {r1 r2 : Int} (hv : v.filesize = 0 ∨ v.filesize = F) :
    Unsent F r1 r2 (c.openSession task .get r1 r2 v) := by
  constructor
  case method => rfl
  case pos => rfl
  case len =>
    show (if r2 = 0 ∧ 0 < v.filesize then v.filesize - r1 else r2) = r2 ∨
      (r2 = 0 ∧ (if r2 = 0 ∧ 0 < v.filesize then v.filesize - r1 else r2) = F - r1)
    split
    · rename_i hknown
      rcases hv with hzero | hsize
      · omega
      · rw [hsize]
        exact Or.inr ⟨hknown.1, rfl⟩
    · exact Or.inl rfl
  case sending => rfl
  case headerSending => rfl

/-! ## One event -/

/-- The step of a session. -/
def sessionStep (limit : Nat) (c : Client) (e : SessionEvent) : Client := c.step limit e.client

theorem Closing.headerSend (hc : Closing v c c') :
    c'.connection.headerSend = c.connection.headerSend := by
  cases hc <;> rfl

theorem Closing.session (hc : Closing v c c') : c'.session = c.session := by
  cases hc <;> rfl

theorem onContentSizeFrom_connection : (c.onContentSizeFrom v).connection = c.connection := by
  unfold onContentSizeFrom
  split
  · rfl
  · split <;> rfl

/-- A head that is out stays out. -/
theorem Moved.sent_headerSend {e : SessionEvent} (h : Moved limit c e c') (hfault : c.fault = none)
    (hsent : c.connection.headerSend = true) : c'.connection.headerSend = true := by
  cases h with
  | idle => exact hsent
  | recv v =>
    obtain ⟨x, hx⟩ := (@tryTransfer_transfer limit v c hfault).adds hsent
    rw [(closeIfNeed_closing).headerSend, hx.headerSend, hsent]
  | contentSize v =>
    rw [onContentSizeFrom_connection]
    exact hsent
  | error v => rw [(closeIfNeed_closing).headerSend, hsent]
  | close => exact hsent
  | drain n v => exact hsent
  | sent n v hpos hn _ hs =>
    cases hs with
    | ignored => exact hsent
    | head => exact hsent
    | drained => exact hsent
    | finish => exact hsent
    -- only a transfer and `ms_session_close_if_need` touch the connection further
    | transfer _ _ _ ht hc =>
      have hcounted : (c.counted n).connection.headerSend = true := hsent
      obtain ⟨x, hx⟩ := ht.adds hcounted
      rw [hc.headerSend, hx.headerSend, hcounted]

theorem Unsent.closing {r1 r2 : Int} (h : Unsent F r1 r2 c) (hc : Closing v c c') :
    Unsent F r1 r2 c' where
  method := by rw [hc.session, h.method]
  pos := by rw [hc.session, h.pos]
  len := by rw [hc.session]; exact h.len
  sending := by rw [hc.session, h.sending]
  headerSending := by rw [hc.session, h.headerSending]

theorem Clear.closing (h : Clear c) (hc : Closing v c c') : Clear c' := by
  cases hc with
  | none => exact h
  | close => exact fun _ hopen => by cases hopen
  | reply => exact fun _ hopen => by cases hopen

/-- **A transfer before the head.** The head goes out with the numbers of the
    reader, or nothing changes but for an error reply. -/
theorem Unsent.recv {r1 r2 : Int} (h : Unsent F r1 r2 c) (limit : Nat) (v : TaskView)
    (hfault : c.fault = none) (hunsent : c.connection.headerSend = false) :
    (((c.tryTransfer limit v).closeIfNeed v).connection.headerSend = false ∧
      Unsent F r1 r2 ((c.tryTransfer limit v).closeIfNeed v) ∧
      Clear ((c.tryTransfer limit v).closeIfNeed v)) ∨
    (((c.tryTransfer limit v).closeIfNeed v).connection.headerSend = true ∧
      Ready limit v c.session ∧
      ∃ body, ((c.tryTransfer limit v).closeIfNeed v).connection.sendMbuf =
        c.connection.sendMbuf ++ (c.head limit v ++ body)) := by
  have hclosing := @closeIfNeed_closing v (c.tryTransfer limit v)
  rcases (@tryTransfer_transfer limit v c hfault).begins hunsent with
    (⟨hidle, hbalanced⟩ | ⟨f, hfail⟩) | ⟨x, hready, hmbuf, -, hsent, -⟩
  · -- nothing to do: the entry condition says that the send buffer is empty
    rw [hidle] at hclosing ⊢
    have hclear : Clear c := by
      intro _ _
      unfold Balanced at hbalanced
      rw [h.sending, h.headerSending] at hbalanced
      exact List.length_eq_zero_iff.mp (by omega)
    exact Or.inl ⟨by rw [hclosing.headerSend, hunsent], h.closing hclosing, hclear.closing hclosing⟩
  · -- a failed assert
    rw [hfail] at hclosing ⊢
    have hfailed : Unsent F r1 r2 (c.fail f) := { h with }
    have hclear : Clear (c.fail f) := fun hnone => by cases hnone
    exact Or.inl ⟨by rw [hclosing.headerSend]; exact hunsent, hfailed.closing hclosing,
      hclear.closing hclosing⟩
  · -- `ms_session_close_if_need` has no reply to give behind a head
    refine Or.inr ⟨by rw [hclosing.headerSend, hsent], hready, x, ?_⟩
    rw [← hmbuf]
    revert hclosing
    generalize (c.tryTransfer limit v).closeIfNeed v = c'
    intro hclosing
    cases hclosing with
    | none => rfl
    | close => rfl
    | reply hnot =>
      rw [hsent] at hnot
      cases hnot

/-- The size is learned: an unknown length becomes the rest of the file. -/
theorem Unsent.contentSize {r1 r2 : Int} (h : Unsent F r1 r2 c) (hr2 : 0 ≤ r2)
    (hv : v.filesize = 0 ∨ v.filesize = F) : Unsent F r1 r2 (c.onContentSizeFrom v) := by
  unfold onContentSizeFrom
  split
  · exact h
  · rename_i hlen
    split
    · rename_i hknown
      have hsize : v.filesize = F := by
        rcases hv with hzero | hsize
        · omega
        · exact hsize
      have hopen : r2 = 0 := by
        rcases h.len with hasked | ⟨hopen, -⟩
        · omega
        · exact hopen
      refine { h with len := Or.inr ⟨hopen, ?_⟩ }
      show v.filesize - c.session.pos = F - r1
      rw [hsize, h.pos]
    · exact h

/-- **Step lemma.** Every event but the one that sends the head. -/
theorem Unsent.moved {r1 r2 : Int} {e : SessionEvent} (h : Unsent F r1 r2 c) (hclear : Clear c)
    (hr2 : 0 ≤ r2) (hv : ∀ v ∈ e.view?, v.filesize = 0 ∨ v.filesize = F)
    (hfault : c.fault = none) (hunsent : c.connection.headerSend = false)
    (hm : Moved limit c e c') (hstill : c'.connection.headerSend = false) :
    Unsent F r1 r2 c' ∧ Clear c' := by
  -- what leaves the send buffer before a head is an error reply
  have hdrain : ∀ n, 0 < n → n ≤ c.connection.sendMbuf.length →
      c.connection.sendAndClose = true := by
    intro n hpos hn
    cases hclosing : c.connection.sendAndClose with
    | true => rfl
    | false =>
      rw [hclear hfault hclosing] at hn
      exact absurd hn (Nat.not_le.mpr hpos)
  cases hm with
  | idle => exact ⟨h, hclear⟩
  | recv v =>
    rcases h.recv limit v hfault hunsent with ⟨-, hkept⟩ | ⟨hsent, -⟩
    · exact hkept
    · rw [hsent] at hstill
      cases hstill
  | contentSize v =>
    refine ⟨h.contentSize hr2 (hv v rfl), fun _ hopen => ?_⟩
    rw [onContentSizeFrom_connection] at hopen ⊢
    exact hclear hfault hopen
  | error v => exact ⟨h.closing closeIfNeed_closing, hclear.closing closeIfNeed_closing⟩
  | close => exact ⟨{ h with }, hclear⟩
  | drain n v hpos hn =>
    refine ⟨{ h with }, fun _ (hopen : c.connection.sendAndClose = false) => ?_⟩
    rw [hdrain n hpos hn] at hopen
    cases hopen
  | sent n v hpos hn _ hs =>
    have hclosing := hdrain n hpos hn
    rw [hs.of_closing hclosing]
    refine ⟨{ h with }, fun _ (hopen : c.connection.sendAndClose = false) => ?_⟩
    rw [hclosing] at hopen
    cases hopen

/-! ## What is asked for and what is told -/

/-- `bytes=a-` -/
theorem names_openEnded {a : Int} (ha : 0 ≤ a) (ha' : a < 2 ^ 63) :
    Names ("bytes=".toList ++ (printInt a ++ ['-'])) a none := by
  unfold Names httpParseRangeHeader
  rw [takeWhile_rangeText (fun _ => printInt_ne_nul) (List.forall_mem_nil _), scanf_lits]
  -- `sscanf` stops at the end of the header, with one number assigned
  exact scanf_int (by omega) ha' _ (noDigitNext_cons (by decide))

/-- `bytes=a-b` -/
theorem names_closed {a b : Int} (ha : 0 ≤ a) (ha' : a < 2 ^ 63) (hb : 0 ≤ b) (hb' : b < 2 ^ 63) :
    Names ("bytes=".toList ++ (printInt a ++ '-' :: printInt b)) a (some b) := by
  have hend : scanf [.int] (printInt b ++ []) = [b] :=
    scanf_int (by omega) hb' [] noDigitNext_nil
  rw [List.append_nil] at hend
  unfold Names httpParseRangeHeader
  rw [takeWhile_rangeText (fun _ => printInt_ne_nul) fun _ => printInt_ne_nul, scanf_lits]
  refine (scanf_int (by omega) ha' _ (noDigitNext_cons (by decide))).trans ?_
  rw [scanf_lit, hend]
  rfl

/-- The range that a session is opened with. -/
theorem names_requested {rangeHdr : List Char} {a r1 r2 : Int} {b : Option Int}
    (h : Names rangeHdr a b) (ha : 0 ≤ a) (hb : ∀ last ∈ b, a ≤ last)
    (hopen : requestedRange (some rangeHdr) = some (r1, r2)) :
    r1 = a ∧ (b = none → r2 = 0) ∧ ∀ last ∈ b, r2 = last - a + 1 := by
  have hscanned : ∀ z ∈ a :: b.toList, -2 ^ 63 ≤ z ∧ z < 2 ^ 63 := by
    intro z hz
    rw [← h] at hz
    exact scanf_range hz
  unfold requestedRange at hopen
  rw [Option.map_some, h] at hopen
  cases b with
  | none =>
    cases hopen
    exact ⟨rfl, fun _ => rfl, fun last hlast => by cases hlast⟩
  | some last =>
    have hle := hb last rfl
    have hlast := hscanned last (by simp)
    simp only [Option.toList_some] at hopen
    rw [if_pos ⟨ha, by omega⟩] at hopen
    split at hopen
    · rename_i hfits
      cases hopen
      refine ⟨rfl, fun hnone => (by cases hnone), fun last' hlast' => ?_⟩
      cases hlast'
      -- the length has not wrapped, as the assert holds
      unfold toInt64 at hfits ⊢
      omega
    · cases hopen

/-- **The numbers of the reader.** -/
theorem Unsent.truthful_iff {a r1 r2 : Int} {b : Option Int} (h : Unsent F r1 r2 c)
    (ha : a < F) (hb : ∀ last ∈ b, a ≤ last)
    (hrange : r1 = a ∧ (b = none → r2 = 0) ∧ ∀ last ∈ b, r2 = last - a + 1)
    (hv : v.filesize = 0 ∨ v.filesize = F) (hready : Ready limit v c.session) :
    (headNumbers v c.session).Truthful F a ↔ ∀ last ∈ b, last < F := by
  obtain ⟨rfl, hnone, hsome⟩ := hrange
  have hsize : v.filesize = F := by
    rcases hv with hzero | hsize
    · exact absurd hzero hready.2.2
    · exact hsize
  have hpos := h.pos
  have hlen := h.len
  have hne := hready.2.1
  cases b with
  | none =>
    have hzero := hnone rfl
    -- open-ended: a length of zero would not be ready
    have hrest : c.session.len = F - r1 := by omega
    constructor
    · exact fun _ last hlast => by cases hlast
    · intro _
      constructor <;> simp only [headNumbers] <;> omega
  | some last =>
    have hasked := hsome last rfl
    have hle := hb last rfl
    -- the length asked for, which nothing cuts at the end of the file
    have hfull : c.session.len = last - r1 + 1 := by omega
    constructor
    · intro htrue last' hlast'
      cases hlast'
      have hinside := htrue.inside
      have htotal := htrue.total
      simp only [headNumbers] at hinside htotal
      omega
    · intro hinside
      have hlast := hinside last rfl
      constructor <;> simp only [headNumbers] <;> omega

/-- The condition on an event: if it sends the head, then this is the text of
    the reader's numbers, and they are true iff the range is open-ended or
    ends inside the file. -/
def TellsRange (limit F : Nat) (a : Int) (b : Option Int) (c : Client) (e : SessionEvent) : Prop :=
  c.connection.headerSend = false → (c.sessionStep limit e).connection.headerSend = true →
    ∃ v body, e = .recv v ∧
      (c.sessionStep limit e).connection.sendMbuf = c.connection.sendMbuf ++
        (bytesOf ((headNumbers v c.session).text limit v.contentType) ++ body) ∧
      ((headNumbers v c.session).Truthful F a ↔ ∀ last ∈ b, last < F)

theorem Unsent.tells {a r1 r2 : Int} {b : Option Int} {e : SessionEvent} (h : Unsent F r1 r2 c)
    (ha : a < F) (hb : ∀ last ∈ b, a ≤ last)
    (hrange : r1 = a ∧ (b = none → r2 = 0) ∧ ∀ last ∈ b, r2 = last - a + 1)
    (hv : ∀ v ∈ e.view?, v.filesize = 0 ∨ v.filesize = F) (hfault : c.fault = none)
    (hquiet : (∃ v, e = .recv v) ∨ Clear c) : TellsRange limit F a b c e := by
  intro hunsent hsent
  have hmoved := @step_moved limit c e hfault
  unfold sessionStep at hsent ⊢
  revert hsent hmoved
  generalize hc' : c.step limit e.client = c'
  intro hsent hmoved
  -- only a transfer can send the head
  have hstays : ∀ d : Client, d.connection.headerSend = c.connection.headerSend →
      d.connection.headerSend = true → False := by
    intro d hd htrue
    rw [hd, hunsent] at htrue
    cases htrue
  cases hmoved with
  | idle => exact absurd hsent (hstays c rfl)
  | recv v hlive =>
    rcases h.recv limit v hfault hunsent with ⟨hnot, -⟩ | ⟨-, hready, body, hbody⟩
    · rw [hsent] at hnot
      cases hnot
    · refine ⟨v, body, rfl, ?_, h.truthful_iff ha hb hrange (hv v rfl) hready⟩
      rw [hbody, head_text h.method]
  | contentSize v =>
    exact absurd hsent (hstays _ (by rw [onContentSizeFrom_connection]))
  | error v => exact absurd hsent (hstays _ closeIfNeed_closing.headerSend)
  | close => exact absurd hsent (hstays _ rfl)
  | drain n v => exact absurd hsent (hstays (c.drain n) rfl)
  | sent n v hpos hn _ hs =>
    rcases hquiet with ⟨v', hrecv⟩ | hclear
    · cases hrecv
    · cases hs with
      | ignored => exact absurd hsent (hstays _ rfl)
      | head => exact absurd hsent (hstays _ rfl)
      | drained => exact absurd hsent (hstays _ rfl)
      | finish => exact absurd hsent (hstays _ rfl)
      | transfer hopen =>
        -- an open connection has nothing in its send buffer yet
        rw [hclear hfault hopen] at hn
        exact absurd hn (Nat.not_le.mpr hpos)

/-! ## Runs -/

/-- The head is out, or the reader stands at its start. -/
def Heading (F : Nat) (r1 r2 : Int) (c : Client) : Prop :=
  c.connection.headerSend = true ∨
    (c.connection.headerSend = false ∧ Unsent F r1 r2 c ∧ Clear c)

theorem sessionStep_fault {e : SessionEvent} (hfault : c.fault.isSome = true) :
    c.sessionStep limit e = c := if_pos hfault

theorem Heading.step {r1 r2 : Int} {e : SessionEvent} (h : Heading F r1 r2 c) (hr2 : 0 ≤ r2)
    (hv : ∀ v ∈ e.view?, v.filesize = 0 ∨ v.filesize = F) :
    Heading F r1 r2 (c.sessionStep limit e) := by
  cases hfault : c.fault with
  | some f =>
    rw [sessionStep_fault (by rw [hfault]; rfl)]
    exact h
  | none =>
    have hmoved := @step_moved limit c e hfault
    unfold sessionStep
    revert hmoved
    generalize c.step limit e.client = c'
    intro hmoved
    rcases h with hsent | ⟨hunsent, hstart, hclear⟩
    · exact Or.inl (hmoved.sent_headerSend hfault hsent)
    · cases hstill : c'.connection.headerSend with
      | true => exact Or.inl hstill
      | false =>
        obtain ⟨hstart', hclear'⟩ :=
          hstart.moved hclear hr2 hv hfault hunsent hmoved hstill
        exact Or.inr ⟨hstill, hstart', hclear'⟩

/-- **The head and the body.** For a GET whose Range header names an existing
    first byte, opened before or after the size of the file is known: when
    the 206 head is sent, its numbers are true of the body iff the range is
    open-ended or ends inside the file. The numbers are those given to
    `snprintf`: all of `header_str` is sent, unless the Content-Type of the
    origin leaves no room for the Content-Range behind it. -/
theorem head_truthful_iff (limit F : Nat) (rangeHdr : List Char) (a : Int) (b : Option Int)
    (r1 r2 : Int) (task : Nat) (v : TaskView) (c : Client) (es : List SessionEvent)
    (hnames : Names rangeHdr a b) (ha : 0 ≤ a) (hinside : a < F) (hb : ∀ last ∈ b, a ≤ last)
    (hopen : requestedRange (some rangeHdr) = some (r1, r2))
    (hv : v.filesize = 0 ∨ v.filesize = F)
    (hes : ∀ e ∈ es, ∀ v ∈ e.view?, v.filesize = 0 ∨ v.filesize = F) :
    Along (sessionStep limit) (TellsRange limit F a b) (c.openSession task .get r1 r2 v)
      (.recv v :: es) := by
  have hrange := names_requested hnames ha hb hopen
  have hr2 : 0 ≤ r2 := by
    cases b with
    | none => exact le_of_eq (hrange.2.1 rfl).symm
    | some last =>
      have hlen := hrange.2.2 last rfl
      have hle := hb last rfl
      omega
  have hstart : Unsent F r1 r2 (c.openSession task .get r1 r2 v) := openSession_unsent hv
  have hfirst : ∀ v' ∈ (SessionEvent.recv v).view?, v'.filesize = 0 ∨ v'.filesize = F := by
    intro v' hv'
    cases hv'
    exact hv
  refine ⟨hstart.tells hinside hb hrange hfirst rfl (Or.inl ⟨v, rfl⟩), ?_⟩
  -- the request ends with a transfer, behind which the send buffer is clear
  have hheading : Heading F r1 r2
      ((c.openSession task .get r1 r2 v).sessionStep limit (.recv v)) := by
    have hstep : (c.openSession task .get r1 r2 v).sessionStep limit (.recv v) =
        ((c.openSession task .get r1 r2 v).tryTransfer limit v).closeIfNeed v := rfl
    rw [hstep]
    rcases hstart.recv limit v rfl rfl with ⟨hunsent, hkept, hclear⟩ | ⟨hsent, -⟩
    · exact Or.inr ⟨hunsent, hkept, hclear⟩
    · exact Or.inl hsent
  apply along_of_invariant (P := Heading F r1 r2) _ _ hheading (along_of_forall hes)
  · intro d e hd hview
    exact hd.step hr2 hview
  · -- the head is not out yet, so this event sends it
    intro d e hd hview hunsent hsent
    rcases hd with htrue | ⟨-, hd, hclear⟩
    · rw [hunsent] at htrue
      cases htrue
    · cases hfault : d.fault with
      | some f =>
        rw [sessionStep_fault (by rw [hfault]; rfl), hunsent] at hsent
        cases hsent
      | none =>
        exact hd.tells hinside hb hrange hview hfault (Or.inr hclear) hunsent hsent

/-- From the second of three bytes on. -/
theorem head_truthful_iff_three :
    Along (sessionStep 4096) (TellsRange 4096 3 1 none)
      (acceptedClient.openSession 0 .get 1 0 (TaskView.ofFile [1, 2, 3]))
      [.recv (TaskView.ofFile [1, 2, 3])] :=
  head_truthful_iff 4096 3 "bytes=1-".toList 1 none 1 0 0 (TaskView.ofFile [1, 2, 3])
    acceptedClient [] (by unfold Names; decide +kernel) (by decide) (by decide)
    (fun _ h => by cases h) (by decide +kernel) (Or.inr rfl) (fun _ h => by cases h)

/-- The first six of three bytes: the head promises six, and three come. -/
theorem head_promises_more :
    requestedRange (some "bytes=0-5".toList) = some (0, 6) ∧
      ((acceptedClient.openSession 0 .get 0 6 (TaskView.ofFile [1, 2, 3])).sessionStep 4096
        (.recv (TaskView.ofFile [1, 2, 3]))).connection.sendMbuf =
          bytesOf (HeadNumbers.text ⟨0, 5, 3, 6⟩ 4096 "video/mp4".toList) ++ [1, 2, 3] ∧
      ¬ HeadNumbers.Truthful 3 0 ⟨0, 5, 3, 6⟩ := by
  refine ⟨by decide +kernel, by decide +kernel, fun h => ?_⟩
  exact absurd h.inside (by decide)

end Client

end Libms
