import Mathlib
import Libms.Framework.Text
import Libms.Storage.MemStorage

/-! # The HTTP pipe

    `ms_http_pipe.c`: one upstream connection that downloads a range of the
    resource and hands it on in whole pieces.

    The handler calls back into the task that opened the pipe. A task is
    taken as a `PipeOwner` over its own state: what `get_filesize` answers,
    and what each other callback does, with whether it calls `pipe->close`.
    The same handler then runs under a task, and under an owner that only
    keeps a record of the calls (`PipeOwner.recorded`).

    A failed assert and a null dereference end the process: `aborted`. -/

namespace Libms

open Text

/-! ## Messages -/

/-- The fields of `struct http_message` that the pipe and its task read. -/
structure HttpMessage where
  respCode : Int
  headers : List (List Char × List Char)
  body : List UInt8

/-- `mg_get_http_header`: the first header of that name, in any case. -/
def mgGetHttpHeader (hm : HttpMessage) (name : String) : Option (List Char) :=
  (hm.headers.find? fun h => h.1.map Char.toLower = name.toList.map Char.toLower).map Prod.snd

/-- `http_parse_content_range`: the values left in `a`, `b` and `filesize`,
    each zero where `sscanf` did not come to it. -/
def httpParseContentRange (header : List Char) : Int × Int × Int :=
  let format := lits "bytes".toList ++ [.space, .int, .lit '-', .int, .lit '/', .int]
  match scanf format (header.takeWhile (· ≠ '\x00')) with
  | [] => (0, 0, 0)
  | [a] => (a, 0, 0)
  | [a, b] => (a, b, 0)
  | a :: b :: filesize :: _ => (a, b, filesize)

/-- `bytes a-b/filesize`, as a Content-Range header has it. -/
def contentRangeText (a b filesize : Int) : List Char :=
  "bytes ".toList ++ (printInt a ++ ('-' :: (printInt b ++ ('/' :: printInt filesize))))

/-- A Content-Range header is read back as it was printed. -/
theorem httpParseContentRange_text {a b filesize : Int} (ha : 0 ≤ a) (hb : 0 ≤ b)
    (hfilesize : 0 ≤ filesize) (ha' : a < 2 ^ 63) (hb' : b < 2 ^ 63)
    (hfilesize' : filesize < 2 ^ 63) :
    httpParseContentRange (contentRangeText a b filesize) = (a, b, filesize) := by
  have hnul : (contentRangeText a b filesize).takeWhile (· ≠ '\x00') =
      contentRangeText a b filesize := by
    rw [List.takeWhile_eq_self_iff]
    intro c hc
    have hprint : ∀ z : Int, c ∈ printInt z → c ≠ '\x00' := fun z => printInt_ne_nul
    have hfixed : ∀ s : List Char, '\x00' ∉ s → c ∈ s → c ≠ '\x00' := by
      rintro s hs hmem rfl
      exact hs hmem
    have hparts : c ∈ "bytes ".toList ++
        (printInt a ++ ('-' :: (printInt b ++ ('/' :: printInt filesize)))) := hc
    rw [List.mem_append, List.mem_append, List.mem_cons, List.mem_append, List.mem_cons] at hparts
    rw [decide_eq_true_eq]
    rcases hparts with hc | hc | rfl | hc | rfl | hc
    · exact hfixed _ (by decide) hc
    · exact hprint a hc
    · decide
    · exact hprint b hc
    · decide
    · exact hprint filesize hc
  have hscan : scanf (lits "bytes".toList ++ [.space, .int, .lit '-', .int, .lit '/', .int])
      (contentRangeText a b filesize) = [a, b, filesize] := by
    have hbytes : contentRangeText a b filesize = "bytes".toList ++
        (' ' :: (printInt a ++ ('-' :: (printInt b ++ ('/' :: printInt filesize))))) := rfl
    have hend : scanf [.int] (printInt filesize ++ []) = [filesize] :=
      scanf_int (by omega) hfilesize' [] noDigitNext_nil
    rw [List.append_nil] at hend
    rw [hbytes, scanf_lits, scanf_space, scanf_int (by omega) ha' _ (noDigitNext_cons (by decide)),
      scanf_lit, scanf_int (by omega) hb' _ (noDigitNext_cons (by decide)), scanf_lit, hend]
  unfold httpParseContentRange
  dsimp only
  rw [hnul, hscan]

/-! ## The pipe -/

/-- `struct ms_http_pipe`, with the flags of its connection, the requests
    made so far (url and extra headers) and the count of `free_pipe` calls. -/
structure HttpPipe where
  closing : Bool
  buf : List UInt8
  reqPos : Nat
  reqLen : Int
  pos : Nat
  len : Int
  url : List Char
  redirectTime : Nat
  redirecting : Bool
  onContentCalled : Bool
  closeImmediately : Bool
  requests : List (List Char × List Char)
  freed : Nat
  aborted : Bool

/-- `ms_http_pipe_create` -/
def msHttpPipeCreate (url : List Char) (pos : Nat) (len : Int) : HttpPipe where
  closing := false
  buf := []
  reqPos := pos
  reqLen := if 0 < len then len else 0
  pos := pos
  len := if 0 < len then len else 0
  url := url
  redirectTime := 0
  redirecting := false
  onContentCalled := false
  closeImmediately := false
  requests := []
  freed := 0
  aborted := false

/-- `MS_MAX_REDIRECT_TIME` -/
abbrev msMaxRedirectTime : Nat := 3

namespace HttpPipe

/-- A failed assert. -/
def abort (p : HttpPipe) : HttpPipe := { p with aborted := true }

/-- The carry after `mbuf_append` and `mbuf_remove`, as a list. -/
def setBuf (p : HttpPipe) (buf : List UInt8) : HttpPipe := { p with buf := buf }

/-- `free_pipe` -/
def free (p : HttpPipe) : HttpPipe := { p with freed := p.freed + 1 }

/-- `pipe_close` -/
def pipeClose (p : HttpPipe) : HttpPipe := { p with closing := true, closeImmediately := true }

/-- The range that `pipe_connect` asks for, as a header line. -/
def rangeHeader (p : HttpPipe) : List Char :=
  snprintf 128 <|
    if 0 < p.len then
      "Range: bytes=".toList ++ printInt p.pos ++ "-".toList ++ printInt (p.pos + p.len)
        ++ "\r\n".toList
    else "Range: bytes=".toList ++ printInt p.pos ++ "-\r\n".toList

/-- `pipe_connect`: a new connection, whose flags are clear. -/
def pipeConnect (p : HttpPipe) : HttpPipe :=
  { p with
    requests := p.requests ++ [(p.url, p.rangeHeader)]
    onContentCalled := false
    closeImmediately := false }

section simp

variable (p : HttpPipe) (buf : List UInt8)

@[simp] theorem setBuf_buf : (p.setBuf buf).buf = buf := rfl
@[simp] theorem setBuf_pos : (p.setBuf buf).pos = p.pos := rfl
@[simp] theorem setBuf_aborted : (p.setBuf buf).aborted = p.aborted := rfl

end simp

end HttpPipe

/-! ## Callbacks -/

/-- The callbacks of `struct ms_ipipe_callback`, `get_filesize` apart. -/
inductive PipeCall where
  | onHeader (hm : HttpMessage)
  | onFilesize (filesize : Int)
  | onContentSize (pos : Nat) (size : Int)
  | onRecv (buf : List UInt8) (pos : Nat)
  | onRedirect (location : List Char)
  | onComplete
  | onClose (code : Int)

/-- The task behind the callbacks of a pipe. A callback sees the pipe, and
    answers whether it calls `pipe->close` on it. -/
structure PipeOwner (σ : Type*) where
  getFilesize : σ → Int
  call : σ → HttpPipe → PipeCall → σ × Bool

variable {σ : Type*}

/-- A callback is made. -/
def deliver (o : PipeOwner σ) (c : PipeCall) (x : σ × HttpPipe) : σ × HttpPipe :=
  let (s, closed) := o.call x.1 x.2 c
  (s, if closed then x.2.pipeClose else x.2)

/-- Data is handed on: first the position advances, then `on_recv` is called. -/
def deliverRecv (o : PipeOwner σ) (bytes : List UInt8) (x : σ × HttpPipe) : σ × HttpPipe :=
  let p := { x.2 with pos := x.2.pos + bytes.length }
  deliver o (.onRecv bytes (p.pos - bytes.length)) (x.1, p)

section deliver

variable (o : PipeOwner σ) (c : PipeCall) (bytes : List UInt8) (x : σ × HttpPipe)

theorem deliver_pipe : (deliver o c x).2 = x.2 ∨ (deliver o c x).2 = x.2.pipeClose := by
  unfold deliver
  split
  rename_i s closed _
  cases closed with
  | true => exact Or.inr rfl
  | false => exact Or.inl rfl

/-- A callback touches nothing of the pipe but its closing. -/
theorem deliver_eq {α : Type*} (f : HttpPipe → α) (hf : ∀ p, f p.pipeClose = f p) :
    f (deliver o c x).2 = f x.2 := by
  rcases deliver_pipe o c x with h | h
  · rw [h]
  · rw [h, hf]

@[simp] theorem deliver_buf : (deliver o c x).2.buf = x.2.buf :=
  deliver_eq o c x HttpPipe.buf fun _ => rfl
@[simp] theorem deliver_pos : (deliver o c x).2.pos = x.2.pos :=
  deliver_eq o c x HttpPipe.pos fun _ => rfl
@[simp] theorem deliver_reqPos : (deliver o c x).2.reqPos = x.2.reqPos :=
  deliver_eq o c x HttpPipe.reqPos fun _ => rfl
@[simp] theorem deliver_reqLen : (deliver o c x).2.reqLen = x.2.reqLen :=
  deliver_eq o c x HttpPipe.reqLen fun _ => rfl
@[simp] theorem deliver_len : (deliver o c x).2.len = x.2.len :=
  deliver_eq o c x HttpPipe.len fun _ => rfl
@[simp] theorem deliver_redirecting : (deliver o c x).2.redirecting = x.2.redirecting :=
  deliver_eq o c x HttpPipe.redirecting fun _ => rfl
@[simp] theorem deliver_onContentCalled :
    (deliver o c x).2.onContentCalled = x.2.onContentCalled :=
  deliver_eq o c x HttpPipe.onContentCalled fun _ => rfl
@[simp] theorem deliver_aborted : (deliver o c x).2.aborted = x.2.aborted :=
  deliver_eq o c x HttpPipe.aborted fun _ => rfl

end deliver

/-! ## `pipe_handler` -/

section handler

variable (o : PipeOwner σ)

/-- The sizes are taken from the headers and handed on. A missing
    Content-Range is dereferenced. -/
def contentSizes (hm : HttpMessage) (x : σ × HttpPipe) : σ × HttpPipe :=
  match mgGetHttpHeader hm "Content-Range" with
  | none => (x.1, x.2.abort)
  | some rangeHdr =>
    let filesize := (httpParseContentRange rangeHdr).2.2
    let x := if 0 < filesize then deliver o (.onFilesize filesize) x else x
    match mgGetHttpHeader hm "Content-Length" with
    | none => (x.1, x.2.abort)
    | some v =>
      let x : σ × HttpPipe := (x.1, { x.2 with len := strtoll v })
      deliver o (.onContentSize x.2.reqPos x.2.len) x

/-- The first chunk of a response: the headers are handed on, and the sizes
    are taken from them while the file size or the length is not known. -/
def chunkHeader (hm : HttpMessage) (x : σ × HttpPipe) : σ × HttpPipe :=
  if x.2.onContentCalled then x
  else
    let x := deliver o (.onHeader hm) x
    let x : σ × HttpPipe := (x.1, { x.2 with onContentCalled := true })
    if o.getFilesize x.1 = 0 ∨ x.2.len = 0 then contentSizes o hm x else x

/-- A carry, or a chunk below a piece: the carry is topped up, and handed on
    when it is a piece. The second value is `off`, what was taken of `body`. -/
def topUp (body : List UInt8) (x : σ × HttpPipe) : (σ × HttpPipe) × Nat :=
  if 0 < x.2.buf.length ∨ body.length < msPieceUnitSize then
    let dataSize := min (msPieceUnitSize - x.2.buf.length) body.length
    let x := (x.1, x.2.setBuf (x.2.buf ++ body.take dataSize))
    if x.2.buf.length = msPieceUnitSize then
      let x := deliverRecv o x.2.buf x
      ((x.1, x.2.setBuf []), dataSize)
    else (x, dataSize)
  else (x, 0)

/-- The whole pieces of what is left of the chunk, and the new carry. -/
def passPieces (body : List UInt8) (x : σ × HttpPipe) : σ × HttpPipe :=
  if 0 < body.length then
    let dataSize := body.length % msPieceUnitSize
    let recv := body.length - dataSize
    let x := if 0 < recv then deliverRecv o (body.take recv) x else x
    (x.1, x.2.setBuf (x.2.buf ++ body.drop recv))
  else x

/-- At the end of the range the carry is handed on, whatever its length. -/
def flushEnd (x : σ × HttpPipe) : σ × HttpPipe :=
  if (x.2.pos + x.2.buf.length : Int) = x.2.reqPos + x.2.len then
    let x := deliverRecv o x.2.buf x
    (x.1, x.2.setBuf [])
  else x

/-- The body of a chunk. -/
def chunkBody (body : List UInt8) (x : σ × HttpPipe) : σ × HttpPipe :=
  if body.length = 0 then x
  else if x.2.pos % msPieceUnitSize ≠ 0 then (x.1, x.2.abort)
  else
    let (x, off) := topUp o body x
    flushEnd o (passPieces o (body.drop off) x)

/-- `MG_EV_HTTP_CHUNK` -/
def onHttpChunk (hm : HttpMessage) (x : σ × HttpPipe) : σ × HttpPipe :=
  if hm.respCode ≠ 200 ∧ hm.respCode ≠ 206 then x
  else
    let x := chunkHeader o hm x
    if x.2.aborted then x else chunkBody o hm.body x

/-- `MG_EV_HTTP_REPLY` -/
def onHttpReply (hm : HttpMessage) (x : σ × HttpPipe) : σ × HttpPipe :=
  if hm.respCode = 301 ∨ hm.respCode = 302 ∨ hm.respCode = 307 ∨ hm.respCode = 308 then
    let x := (x.1, { x.2 with redirectTime := x.2.redirectTime + 1 })
    if x.2.redirectTime > msMaxRedirectTime then deliver o (.onClose 310) x
    else
      match mgGetHttpHeader hm "Location" with
      | none => (x.1, x.2.abort)
      | some v =>
        let x := (x.1, { x.2 with url := v })
        let (s, p) := if hm.respCode = 301 ∨ hm.respCode = 308 then deliver o (.onRedirect v) x
          else x
        (s, { p with redirecting := true, closeImmediately := true })
  else if hm.respCode = 200 ∨ hm.respCode = 206 then deliver o .onComplete x
  else deliver o (.onClose hm.respCode) x

/-- The events of a connection that the handler acts on. -/
inductive PipeEvent where
  | connect (status : Int)
  | httpChunk (hm : HttpMessage)
  | httpReply (hm : HttpMessage)
  | close

/-- `pipe_handler` once the pipe is closing. -/
def closingHandler (ev : PipeEvent) (x : σ × HttpPipe) : σ × HttpPipe :=
  if x.2.closeImmediately then
    match ev with
    | .close => (x.1, x.2.free)
    | _ => x
  else (x.1, x.2.abort)

/-- `pipe_handler` while the pipe waits to be redirected. -/
def redirectingHandler (ev : PipeEvent) (x : σ × HttpPipe) : σ × HttpPipe :=
  match ev with
  | .close => (x.1, { x.2 with redirecting := false }.pipeConnect)
  | _ => x

/-- `pipe_handler` of a pipe in use. -/
def openHandler : PipeEvent → σ × HttpPipe → σ × HttpPipe
  | .connect status, x => if status ≠ 0 then deliver o (.onClose 502) x else x
  | .httpChunk hm, x => onHttpChunk o hm x
  | .httpReply hm, x => onHttpReply o hm x
  | .close, x =>
    let x := deliver o (.onClose 502) x
    if x.2.closing then (x.1, x.2.free) else x

/-- `pipe_handler` -/
def pipeHandler (ev : PipeEvent) (x : σ × HttpPipe) : σ × HttpPipe :=
  if x.2.aborted then x
  else if x.2.closing then closingHandler ev x
  else if x.2.redirecting then redirectingHandler ev x
  else openHandler o ev x

end handler

/-! ## A record of the calls -/

/-- A callback with what `get_current_pos` answers while it runs. -/
structure CallRecord where
  call : PipeCall
  currentPos : Nat

/-- The owner that also keeps a record of the calls made to it. -/
def PipeOwner.recorded (o : PipeOwner σ) : PipeOwner (σ × List CallRecord) where
  getFilesize s := o.getFilesize s.1
  call s p c :=
    let (t, closed) := o.call s.1 p c
    ((t, s.2 ++ [⟨c, p.pos⟩]), closed)

@[simp] theorem deliver_recorded (o : PipeOwner σ) (c : PipeCall)
    (x : (σ × List CallRecord) × HttpPipe) :
    (deliver o.recorded c x).1.2 = x.1.2 ++ [⟨c, x.2.pos⟩] := rfl

end Libms
