import Mathlib
import Libms.Framework.CInt
import Libms.Framework.Runs
import Libms.Framework.Text

/-! # The session

    `ms_session.c`: the answer to one request of a client. `try_transfer_data`
    moves bytes from the task into the send buffer of the connection,
    `on_send` counts what left it.

    * `Client`: a connection with the session that answers on it.
    * `TaskView`: what the session sees of its task while it handles an event.
    * `tryTransfer`, `onSend`, `closeIfNeed`: the functions of the session.
    * `step`: one event of the connection or of the task.

    A `size_t` counter is an integer here: below zero it stands for the
    value it has wrapped to, and a comparison with another `size_t` goes
    through `CInt.sizeT`. -/

namespace Libms

open CInt Text

/-! ## Mongoose -/

/-- The platforms that `mongoose.h` tells apart in `MG_MAX_HTTP_SEND_MBUF` and
    `MG_MAX_HTTP_REQUEST_SIZE`: Windows and unix, and any other. -/
inductive Platform where
  | desktop
  | embedded

/-- `MS_SEND_BUF_LIMIT`, which is `MG_MAX_HTTP_SEND_MBUF`. -/
def Platform.sendBufLimit : Platform → Nat
  | .desktop => 4096
  | .embedded => 1024

/-- `MG_MAX_HTTP_REQUEST_SIZE` -/
def Platform.mgMaxHttpRequestSize : Platform → Nat
  | .desktop => 8192
  | .embedded => 1024

/-- The parts of `struct mg_connection` that a session uses: the send buffer,
    and the flags `MS_F_HEADER_SEND` and `MG_F_SEND_AND_CLOSE`. -/
structure Connection where
  sendMbuf : List UInt8
  headerSend : Bool
  sendAndClose : Bool

/-- The bytes of a text. -/
def bytesOf (t : List Char) : List UInt8 := t.map fun c => UInt8.ofNat c.toNat

/-- `mg_status_message` -/
def mgStatusMessage (statusCode : Int) : List Char :=
  if statusCode = 206 then "Partial Content".toList
  else if statusCode = 301 then "Moved".toList
  else if statusCode = 302 then "Found".toList
  else if statusCode = 400 then "Bad Request".toList
  else if statusCode = 401 then "Unauthorized".toList
  else if statusCode = 403 then "Forbidden".toList
  else if statusCode = 404 then "Not Found".toList
  else if statusCode = 416 then "Requested Range Not Satisfiable".toList
  else if statusCode = 418 then "I'm a teapot".toList
  else if statusCode = 500 then "Internal Server Error".toList
  else if statusCode = 502 then "Bad Gateway".toList
  else if statusCode = 503 then "Service Unavailable".toList
  else "OK".toList

namespace Connection

/-- `mg_send` of the first `len` bytes of `buf`. A negative `len` becomes a
    `size_t` that `mbuf_insert` refuses as an overflow. -/
def mgSend (nc : Connection) (buf : List UInt8) (len : Int) : Connection :=
  if len < 0 then nc else { nc with sendMbuf := nc.sendMbuf ++ buf.take len.toNat }

/-- What `mg_send_head` writes. -/
def headText (statusCode contentLength : Int) (extraHeaders : List Char) : List Char :=
  "HTTP/1.1 ".toList ++ printInt statusCode ++ " ".toList ++ mgStatusMessage statusCode
    ++ "\r\n".toList ++ "Server: Mongoose/6.12\r\n".toList
    ++ (if 0 < extraHeaders.length then extraHeaders ++ "\r\n".toList else [])
    ++ (if contentLength < 0 then "Transfer-Encoding: chunked\r\n".toList
        else "Content-Length: ".toList ++ printInt contentLength ++ "\r\n".toList)
    ++ "\r\n".toList

/-- A text is appended to the send buffer. -/
def sendText (nc : Connection) (t : List Char) : Connection :=
  { nc with sendMbuf := nc.sendMbuf ++ bytesOf t }

/-- What `mg_http_send_error` without a reason writes. -/
def errorText (code : Int) : List Char :=
  headText code (mgStatusMessage code).length
      "Content-Type: text/plain\r\nConnection: close".toList
    ++ mgStatusMessage code

/-- `mg_http_send_error` -/
def mgHttpSendError (nc : Connection) (code : Int) : Connection :=
  { nc.sendText (errorText code) with sendAndClose := true }

end Connection

/-! ## The session and its task -/

/-- The methods that `ms_stream_handler` lets through. -/
inductive Method where
  | get
  | head
  deriving DecidableEq

/-- `struct ms_session` with its reader. A task is known by a number. -/
structure Session where
  task : Nat
  pos : Int
  len : Int
  sending : Int
  headerSending : Nat
  reqPos : Int
  reqLen : Int
  method : Method
  isMedia : Bool
  buf : List UInt8

/-- The answers of `struct ms_itask` during one event. A read that fails an
    assert of the storage is `none`. -/
structure TaskView where
  filesize : Int
  contentType : List Char
  errno : Int
  read : (pos : Int) → (len : Nat) → Option (List UInt8)

/-- `http_parse_range_header`: the values assigned. -/
def httpParseRangeHeader (header : List Char) : List Int :=
  scanf (lits "bytes=".toList ++ [.int, .lit '-', .int]) (header.takeWhile (· ≠ '\x00'))

/-- A range that is written without a NUL is scanned whole. -/
theorem takeWhile_rangeText {first last : List Char} (hfirst : ∀ c ∈ first, c ≠ '\x00')
    (hlast : ∀ c ∈ last, c ≠ '\x00') :
    ("bytes=".toList ++ (first ++ '-' :: last)).takeWhile (· ≠ '\x00') =
      "bytes=".toList ++ (first ++ '-' :: last) := by
  have hfixed : '\x00' ∉ "bytes=".toList := by decide
  rw [List.takeWhile_eq_self_iff]
  intro c hc
  rw [decide_eq_true_eq]
  rcases List.mem_append.mp hc with hc | hc
  · intro hnul
    rw [hnul] at hc
    exact hfixed hc
  · rcases List.mem_append.mp hc with hc | hc
    · exact hfirst c hc
    · rcases List.mem_cons.mp hc with hdash | hc
      · rw [hdash]
        decide
      · exact hlast c hc

/-- The offset and the length that a request asks for, zero for a length to
    the end of the file; `none` when the assert in `ms_session_open` fails. -/
def requestedRange (rangeHdr : Option (List Char)) : Option (Int × Int) :=
  match rangeHdr.map httpParseRangeHeader with
  | some [r1] => some (r1, 0)
  | some (r1 :: r2 :: _) =>
    if 0 ≤ r1 ∧ 0 ≤ r2 then
      let r2 := toInt64 (r2 - r1 + 1)
      if 0 ≤ r2 then some (r1, r2) else none
    else some (r1, r2)
  | _ => some (0, 0)

/-- `ms_session_open` -/
def msSessionOpen (task : Nat) (method : Method) (r1 r2 : Int) (v : TaskView) : Session where
  task := task
  pos := r1
  len := if r2 = 0 ∧ 0 < v.filesize then v.filesize - r1 else r2
  sending := 0
  headerSending := 0
  reqPos := r1
  reqLen := r2
  method := method
  isMedia := false
  buf := []

/-- The asserts a session can fail: the entry of `try_transfer_data`, its two
    range asserts (before the read, and after `mg_send`), the one in
    `on_send`, the range of `ms_session_open`, and those of the storage. -/
inductive Fault where
  | entry
  | range
  | sent
  | drained
  | openRange
  | storage
  deriving DecidableEq

/-- What happened since the session was opened: the body bytes handed to
    `mg_send`, the reads of the body part, whether `len -= header_sending`
    wrapped, the bytes of an error reply, and the bytes that left the send
    buffer while `on_send` ignored them. -/
structure Log where
  appended : List UInt8
  asked : List (Int × Nat)
  wrapped : Bool
  errorBytes : Nat
  ignored : Nat

/-- A connection with its session; `live` is false while there is none. -/
structure Client where
  connection : Connection
  session : Session
  live : Bool
  log : Log
  fault : Option Fault

namespace Client

/-- A failed assert. -/
def fail (c : Client) (f : Fault) : Client := { c with fault := some f }

/-- The session changes. -/
def setSession (c : Client) (s : Session) : Client := { c with session := s }

/-! ## `try_transfer_data` -/

/-- `parse_media`: the zeroed buffer starts with the text `#EXTM3U`. -/
def parseMedia (bytes : List UInt8) : Bool := bytes.take 7 = bytesOf "#EXTM3U".toList

/-- The first kilobyte is looked at once, for a request from the start. -/
def probe (v : TaskView) (c : Client) : Client :=
  if c.session.method = .get ∧ c.session.isMedia = false ∧ c.session.reqPos = 0 then
    match v.read 0 (min 1024 (sizeT v.filesize)) with
    | none => c.fail .storage
    | some bytes => c.setSession { c.session with isMedia := parseMedia bytes }
  else c

/-- `header_str` -/
def headerStr (limit : Nat) (v : TaskView) (s : Session) : List Char :=
  snprintf limit <|
    "Content-Type: ".toList ++ v.contentType ++ "\r\nAccept-Ranges: bytes\r\n".toList
      ++ "Content-Range: bytes ".toList ++ printInt s.pos ++ "-".toList
      ++ printInt (s.len + s.pos - 1) ++ "/".toList ++ printInt v.filesize
      ++ "\r\nConnection: keep-alive".toList

/-- The head is sent once. All that is in the send buffer then counts as head. -/
def sendHead (limit : Nat) (v : TaskView) (c : Client) : Client :=
  if c.connection.headerSend then c
  else
    let respCode := if c.session.method = .head then 200 else 206
    let nc := { c.connection with headerSend := true }.sendText
      (Connection.headText respCode c.session.len (headerStr limit v c.session))
    -- `header_sending` takes the whole buffer, whoever has filled it
    { c with
      connection := nc
      session :=
        { c.session with headerSending := c.session.headerSending + nc.sendMbuf.length } }

/-- `read_from` -/
def readFrom (c : Client) : Int :=
  c.session.pos + c.session.buf.length + c.connection.sendMbuf.length - c.session.headerSending

/-- `wanted`: the space left in the session's buffer, what is left of the
    range, or what is left of the file. -/
def wanted (limit : Nat) (v : TaskView) (s : Session) (readFrom : Int) : Nat :=
  let space := limit - s.buf.length
  let left := sizeT (s.len - s.sending)
  let wanted := if left < space then left else space
  if 0 < v.filesize ∧ v.filesize < readFrom + toInt64 wanted then sizeT (v.filesize - readFrom)
  else wanted

/-- How many bytes of the session's buffer are handed to `mg_send`: all, less
    `header_sending` if both do not fit. -/
def sendLen (limit : Nat) (s : Session) : Int :=
  if limit < s.buf.length + s.headerSending then s.buf.length - s.headerSending
  else s.buf.length

/-- The end of `try_transfer_data`, where the buffer is not empty. -/
def sendBody (limit : Nat) (c : Client) : Client :=
  let s := c.session
  let len := sendLen limit s
  let nc := c.connection.mgSend s.buf (toInt32 (sizeT len))
  let c : Client :=
    { c with
      connection := nc
      log :=
        { c.log with
          appended := c.log.appended ++ nc.sendMbuf.drop c.connection.sendMbuf.length
          wrapped := c.log.wrapped || len < 0 } }
  if s.reqLen ≠ 0 ∧ s.reqPos + s.reqLen < s.pos + s.sending + toInt64 (sizeT len) then
    c.fail .sent
  else
    c.setSession
      { s with
        sending := s.sending + len
        -- `mbuf_remove` refuses to remove more than there is
        buf := if sizeT len ≤ s.buf.length then s.buf.drop (sizeT len) else s.buf }

/-- The body part of `try_transfer_data`. The file size is known here. -/
def body (limit : Nat) (v : TaskView) (c : Client) : Client :=
  let s := c.session
  let readFrom := c.readFrom
  let wanted := wanted limit v s readFrom
  if s.reqLen ≠ 0 ∧ s.reqPos + s.reqLen < readFrom + toInt64 wanted then c.fail .range
  else
    let c : Client := { c with log := { c.log with asked := c.log.asked ++ [(readFrom, wanted)] } }
    match v.read readFrom wanted with
    | none => c.fail .storage
    | some bytes =>
      let c := c.setSession { s with buf := s.buf ++ bytes }
      if c.session.buf.length = 0 then c else c.sendBody limit

/-- `try_transfer_data` behind its early returns. -/
def transfer (limit : Nat) (v : TaskView) (c : Client) : Client :=
  let c := c.probe v
  if c.fault.isSome then c
  else
    let c := c.sendHead limit v
    if c.session.method = .head then
      { c with connection := { c.connection with sendAndClose := true } }
    else c.body limit v

/-- `try_transfer_data` goes on behind its early returns. -/
def Ready (limit : Nat) (v : TaskView) (s : Session) : Prop :=
  sizeT s.sending ≤ limit / 2 ∧ s.len ≠ 0 ∧ v.filesize ≠ 0

instance (limit : Nat) (v : TaskView) (s : Session) : Decidable (Ready limit v s) :=
  inferInstanceAs (Decidable (_ ∧ _))

/-- `try_transfer_data` -/
def tryTransfer (limit : Nat) (v : TaskView) (c : Client) : Client :=
  if c.session.sending + c.session.headerSending ≠ c.connection.sendMbuf.length then
    c.fail .entry
  else if Ready limit v c.session then c.transfer limit v
  else c

/-! ## The callbacks -/

/-- `ms_session_close_if_need` -/
def closeIfNeed (v : TaskView) (c : Client) : Client :=
  if c.fault.isSome then c
  else if v.errno = 0 ∨ c.session.sending ≠ 0 ∨ 0 < c.session.headerSending then c
  -- the head is out, and an error can only end the connection
  else if c.connection.headerSend then
    { c with connection := { c.connection with sendAndClose := true } }
  else if c.connection.sendAndClose = false then
    { c with
      connection := c.connection.mgHttpSendError v.errno
      log :=
        { c.log with errorBytes := c.log.errorBytes + (Connection.errorText v.errno).length } }
  else c

/-- The head's share of `n` sent bytes is taken off `header_sending`; the
    second value is `body_len`. -/
def countHead (n : Nat) (s : Session) : Session × Nat :=
  if 0 < s.headerSending then
    if n < s.headerSending then ({ s with headerSending := s.headerSending - n }, 0)
    else ({ s with headerSending := 0 }, n - s.headerSending)
  else (s, n)

/-- The body's share is taken off the reader. -/
def countBody (bodyLen : Nat) (s : Session) : Session :=
  { s with
    pos := s.pos + bodyLen
    len := if 0 < s.len then s.len - bodyLen else s.len
    sending := s.sending - bodyLen }

/-- `on_send` -/
def onSend (limit : Nat) (v : TaskView) (n : Nat) (c : Client) : Client :=
  if c.connection.sendAndClose then { c with log := { c.log with ignored := c.log.ignored + n } }
  else
    let s := (countHead n c.session).1
    let bodyLen := (countHead n c.session).2
    if s.len = 0 then c.setSession s
    else if 0 < s.len ∧ s.len < bodyLen then (c.setSession s).fail .drained
    else
      let c := c.setSession (countBody bodyLen s)
      -- the last byte of the range has left, and the session is closed
      if c.session.len = 0 ∧ c.session.sending = 0 then { c with live := false }
      else (c.tryTransfer limit v).closeIfNeed v

/-- `on_content_size_from` -/
def onContentSizeFrom (v : TaskView) (c : Client) : Client :=
  if 0 < c.session.len then c
  else if 0 < v.filesize then
    c.setSession { c.session with len := v.filesize - c.session.pos }
  else c

/-- `MG_EV_SEND`: `n` bytes left the send buffer. -/
def sent (limit : Nat) (v : TaskView) (n : Nat) (c : Client) : Client :=
  let c := { c with
    connection := { c.connection with sendMbuf := c.connection.sendMbuf.drop n } }
  if c.live then c.onSend limit v n else c

/-- A request: an older session is closed, and a new one is opened. -/
def openSession (task : Nat) (method : Method) (r1 r2 : Int) (v : TaskView) (c : Client) :
    Client where
  connection := { c.connection with headerSend := false }
  session := msSessionOpen task method r1 r2 v
  live := true
  log := ⟨[], [], false, 0, 0⟩
  fault := none

/-! ## The system -/

/-- An event that the connection or the task of a client brings. -/
inductive ClientEvent where
  | request (task : Nat) (method : Method) (rangeHdr : Option (List Char)) (v : TaskView)
  | recv (v : TaskView)
  | contentSize (v : TaskView)
  | error (v : TaskView)
  | sent (n : Nat) (v : TaskView)
  | close

/-- One event. `MG_EV_SEND` brings a positive number of bytes, and a session
    that is closed has no more callbacks. -/
def step (limit : Nat) (c : Client) (e : ClientEvent) : Client :=
  if c.fault.isSome then c
  else
    match e with
    | .request task method rangeHdr v =>
      match requestedRange rangeHdr with
      | none => c.fail .openRange
      | some (r1, r2) => ((c.openSession task method r1 r2 v).tryTransfer limit v).closeIfNeed v
    | .recv v => if c.live then (c.tryTransfer limit v).closeIfNeed v else c
    | .contentSize v => if c.live then c.onContentSizeFrom v else c
    | .error v => if c.live then c.closeIfNeed v else c
    | .sent n v =>
      if 0 < n ∧ n ≤ c.connection.sendMbuf.length then c.sent limit v n else c
    | .close => { c with live := false }

end Client

/-- A connection that was just accepted. -/
def acceptedClient : Client where
  connection := ⟨[], false, false⟩
  session := ⟨0, 0, 0, 0, 0, 0, 0, .get, false, []⟩
  live := false
  log := ⟨[], [], false, 0, 0⟩
  fault := none

end Libms
