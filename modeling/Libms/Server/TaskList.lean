import Mathlib
import Libms.Framework.Text
import Libms.Server.MsServer

/-! # The list of the tasks

    `GET /api/tasks` is answered with a text that `get_task_list_handler`
    puts together in a buffer of 1 MiB, with one `snprintf` behind the other.

    * `mgUrlDecode`, `mgGetHttpVar`: the `url` parameter of the request, in a
      buffer of `MG_MAX_HTTP_REQUEST_SIZE` bytes. `formDecode` has no buffer.
    * `fillPipeJson`, `fillReaderJson`, `fillTaskJson`, `getTaskList`: the
      text, as the buffer takes it. Each counts on the room that is left.
    * `spanText`, `taskText`, `listText`: the text without a buffer.
    * `getTaskList_eq`: while there is room the two are the same.
    * `apiHandler_list`: the answer of the server. -/

namespace Libms

open Text

/-! ## Parameters of a request -/

/-- `mg_url_decode` of form data into `room` bytes and a NUL. `none` stands for
    -1: a percent sign without two hex digits, or too little room. -/
def mgUrlDecode : (room : Nat) → List Char → Option (List Char)
  | _, [] => some []
  | 0, _ :: _ => none
  | room + 1, c :: t =>
    if c = '%' then
      match t with
      | a :: b :: t =>
        (hexValue a).bind fun a => (hexValue b).bind fun b =>
          (mgUrlDecode room t).map (Char.ofNat (a * 16 + b) :: ·)
      | _ => none
    else (mgUrlDecode room t).map ((if c = '+' then ' ' else c) :: ·)

/-- Form data decoded. -/
def formDecode : List Char → Option (List Char)
  | [] => some []
  | c :: t =>
    if c = '%' then
      match t with
      | a :: b :: t =>
        (hexValue a).bind fun a => (hexValue b).bind fun b =>
          (formDecode t).map (Char.ofNat (a * 16 + b) :: ·)
      | _ => none
    else (formDecode t).map ((if c = '+' then ' ' else c) :: ·)

/-- A variable of this name starts here. `mg_ncasecmp` compares the name. -/
def nameAt (name t : List Char) : Bool :=
  t[name.length]? = some '=' && (t.take name.length).map Char.toLower = name.map Char.toLower

/-- The loop of `mg_get_http_var`: the value of the first variable of a name,
    as it was sent. `start` stands for the front of the text, or an ampersand
    before it. -/
def findVar (name : List Char) : (start : Bool) → List Char → Option (List Char)
  | _, [] => none
  | start, c :: t =>
    if start && nameAt name (c :: t) then
      some (((c :: t).drop (name.length + 1)).takeWhile (· ≠ '&'))
    else findVar name (c = '&') t

/-- `mg_get_http_var`: the text in the buffer, of the length that is returned,
    or the code of the error. -/
def mgGetHttpVar (buf name : List Char) (dstLen : Nat) : Except Int (List Char) :=
  if dstLen = 0 then .error (-2)
  else if buf = [] then .error (-1)
  else
    match findVar name true buf with
    | none => .error (-4)
    | some value =>
      match mgUrlDecode (dstLen - 1) value with
      | none => .error (-3)
      | some dst => .ok dst

/-- There is room for a byte and a NUL. -/
theorem Platform.one_lt_mgMaxHttpRequestSize (p : Platform) : 1 < p.mgMaxHttpRequestSize := by
  cases p <;> decide

/-! ## What is listed -/

/-- The text that `%p` prints of a pointer: letters and digits. -/
structure Address where
  text : List Char
  alnum : ∀ c ∈ text, c.isAlphanum

/-- What is printed of a reader or a pipe. -/
structure ListedSpan where
  address : Address
  pos : Int
  len : Int

/-- What is printed of a task. Its url is a string of C, and `get_bitmap`
    returns hex digits. -/
structure ListedTask where
  address : Address
  url : List Char
  filesize : Int
  completed : Int
  bitmap : List Char
  readers : List ListedSpan
  pipes : List ListedSpan
  terminated : '\x00' ∉ url
  hex : ∀ c ∈ bitmap, (hexValue c).isSome

/-- `%s` of `task->url.p`. An empty url has no buffer, and a null pointer is
    printed as a word. -/
def urlText (url : List Char) : List Char := if url = [] then "(null)".toList else url

/-! ## The buffer -/

/-- `snprintf(json + strlen(json), len - strlen(json), ...)` -/
def append (len : Nat) (json text : List Char) : List Char :=
  json ++ snprintf (len - json.length) text

/-- One `snprintf` after the other. -/
def appends (len : Nat) (json : List Char) (texts : List (List Char)) : List Char :=
  texts.foldl (append len) json

/-- `QUEUE_FOREACH` with a comma before each entry but the first. What is
    filled in starts at the end of the text. -/
def fillEach {α : Type} (fill : Nat → α → List Char) (len : Nat) :
    (first : Bool) → List α → List Char → List Char
  | _, [], json => json
  | first, x :: xs, json =>
    let json := if first then json else append len json [',']
    fillEach fill len false xs (json ++ fill (len - json.length) x)

/-- What a reader or a pipe is printed with. -/
def spanTexts (x : ListedSpan) : List (List Char) :=
  [['{'],
    "\"id\": \"".toList ++ x.address.text ++ "\",".toList,
    "\"pos\": ".toList ++ printInt x.pos ++ [','],
    "\"len\": ".toList ++ printInt x.len,
    ['}']]

/-- `fill_pipe_json` -/
def fillPipeJson (len : Nat) (pipe : ListedSpan) : List Char := appends len [] (spanTexts pipe)

/-- `fill_reader_json` -/
def fillReaderJson (len : Nat) (reader : ListedSpan) : List Char :=
  appends len [] (spanTexts reader)

/-- What a task is printed with, up to its readers. -/
def taskTexts (task : ListedTask) : List (List Char) :=
  [['{'],
    "\"id\": \"".toList ++ task.address.text ++ "\",".toList,
    "\"url\": \"".toList ++ urlText task.url ++ "\",".toList,
    "\"totalLength\": ".toList ++ printInt task.filesize ++ [','],
    "\"completedLength\": ".toList ++ printInt task.completed ++ [','],
    "\"speed\": 0,".toList,
    "\"bitmap\": \"".toList ++ task.bitmap ++ "\",".toList,
    "\"readers\":[".toList]

/-- `fill_task_json` -/
def fillTaskJson (len : Nat) (task : ListedTask) : List Char :=
  let json := appends len [] (taskTexts task)
  let json := fillEach fillReaderJson len true task.readers json
  let json := appends len json ["],".toList, "\"pipes\":[".toList]
  let json := fillEach fillPipeJson len true task.pipes json
  appends len json [[']'], ['}']]

/-- The loop of `get_task_list_handler` over the tasks that are left. -/
def listLoop (selected : ListedTask → Bool) (len : Nat) :
    (taskNum : Nat) → List ListedTask → List Char → List Char
  | _, [], response => response
  | taskNum, task :: tasks, response =>
    if selected task then
      let response := if 0 < taskNum then append len response [','] else response
      listLoop selected len (taskNum + 1) tasks
        (response ++ fillTaskJson (len - response.length) task)
    else listLoop selected len taskNum tasks response

/-- `MG_MK_STR(url)`: all bytes of the array but the last one, zeros behind
    the text. -/
def urlStr (p : Platform) (url : List Char) : List Char :=
  (url ++ List.replicate (p.mgMaxHttpRequestSize - url.length) '\x00').take
    (p.mgMaxHttpRequestSize - 1)

/-- `url_len <= 0 || is_equal(&url_str, &task->url)` -/
def selects (p : Platform) (query : List Char) (task : ListedTask) : Bool :=
  match mgGetHttpVar query "url".toList p.mgMaxHttpRequestSize with
  | .error code => decide (code ≤ 0)
  | .ok url => decide ((url.length : Int) ≤ 0) || decide (urlStr p url = task.url)

/-- `capacity_len` -/
def capacityLen : Nat := 1024 * 1024

/-- `get_task_list_handler`: the text in the buffer in the end. -/
def getTaskList (p : Platform) (query : List Char) (tasks : List ListedTask) : List Char :=
  let response := append capacityLen [] ['[']
  let response := listLoop (selects p query) capacityLen 0 tasks response
  append capacityLen response [']']

/-- What is sent: `mg_send_head` and `mg_send`. -/
def taskListReply (p : Platform) (query : List Char) (tasks : List ListedTask) : List UInt8 :=
  let response := getTaskList p query tasks
  bytesOf <|
    Connection.headText 200 response.length
      "Content-Type: application/json\r\nConnection: keep-alive".toList ++ response

/-! ## Decoding with a buffer -/

theorem formDecode_percent (a b : Char) (t : List Char) :
    formDecode ('%' :: a :: b :: t) =
      (hexValue a).bind fun a => (hexValue b).bind fun b =>
        (formDecode t).map (Char.ofNat (a * 16 + b) :: ·) := by
  rw [formDecode.eq_def]
  exact if_pos rfl

theorem formDecode_byte {c : Char} (hc : c ≠ '%') (t : List Char) :
    formDecode (c :: t) = (formDecode t).map ((if c = '+' then ' ' else c) :: ·) := by
  rw [formDecode.eq_def]
  exact if_neg hc

/-- Something is decoded of a text that is not empty. -/
theorem formDecode_ne_nil (c : Char) (t : List Char) : formDecode (c :: t) ≠ some [] := by
  intro h
  by_cases hc : c = '%'
  · rw [hc] at h
    match t with
    | [] => simp [formDecode] at h
    | [a] => simp [formDecode] at h
    | a :: b :: t =>
      rw [formDecode_percent] at h
      obtain ⟨x, -, hx⟩ := Option.bind_eq_some_iff.mp h
      obtain ⟨y, -, hy⟩ := Option.bind_eq_some_iff.mp hx
      obtain ⟨u, -, hu⟩ := Option.map_eq_some_iff.mp hy
      cases hu
  · rw [formDecode_byte hc] at h
    obtain ⟨u, -, hu⟩ := Option.map_eq_some_iff.mp h
    cases hu

theorem map_cons_eq_some {x y : Option (List Char)} {n : Nat}
    (h : ∀ u, x = some u ↔ y = some u ∧ u.length ≤ n) (c : Char) (u : List Char) :
    x.map (c :: ·) = some u ↔ y.map (c :: ·) = some u ∧ u.length ≤ n + 1 := by
  simp only [Option.map_eq_some_iff]
  constructor
  · intro hx
    obtain ⟨v, hv, hu⟩ := hx
    obtain ⟨hy, hlen⟩ := (h v).mp hv
    refine ⟨⟨v, hy, hu⟩, ?_⟩
    rw [← hu, List.length_cons]
    omega
  · intro hy
    obtain ⟨⟨v, hv, hu⟩, hlen⟩ := hy
    rw [← hu, List.length_cons] at hlen
    exact ⟨v, (h v).mpr ⟨hv, by omega⟩, hu⟩

/-- A buffer keeps what fits in it. -/
theorem mgUrlDecode_eq_some {room : Nat} {t u : List Char} :
    mgUrlDecode room t = some u ↔ formDecode t = some u ∧ u.length ≤ room := by
  induction room, t using mgUrlDecode.induct generalizing u with
  | case1 room =>
    simp only [mgUrlDecode, formDecode, Option.some.injEq]
    constructor
    · intro h
      exact ⟨h, by rw [← h]; exact Nat.zero_le _⟩
    · exact fun h => h.1
  | case2 c t =>
    refine iff_of_false (fun h => by cases h) fun h => ?_
    rw [List.eq_nil_of_length_eq_zero (Nat.le_zero.mp h.2)] at h
    exact formDecode_ne_nil c t h.1
  | case3 room a b t ih =>
    rw [formDecode_percent]
    simp only [mgUrlDecode, if_true]
    cases hexValue a with
    | none => simp
    | some x =>
      cases hexValue b with
      | none => simp
      | some y => exact map_cons_eq_some (fun _ => ih) _ u
  | case4 room t hshort =>
    match t with
    | [] => simp [mgUrlDecode, formDecode]
    | [a] => simp [mgUrlDecode, formDecode]
    | a :: b :: t => exact absurd rfl (hshort a b t)
  | case5 room c t hc ih =>
    rw [formDecode_byte hc]
    simp only [mgUrlDecode, if_neg hc]
    exact map_cons_eq_some (fun _ => ih) _ u

/-! ## The text without a buffer -/

/-- A reader or a pipe. -/
def spanText (x : ListedSpan) : List Char := (spanTexts x).flatten

/-- A task. -/
def taskText (task : ListedTask) : List Char :=
  (taskTexts task).flatten ++ [','].intercalate (task.readers.map spanText) ++
    "],\"pipes\":[".toList ++ [','].intercalate (task.pipes.map spanText) ++ [']', '}']

/-- The list. -/
def listText (tasks : List ListedTask) : List Char :=
  '[' :: ([','].intercalate (tasks.map taskText) ++ [']'])

section room

variable {len : Nat} {json : List Char}

theorem append_of_lt {text : List Char} (h : json.length + text.length < len) :
    append len json text = json ++ text := by
  rw [append, snprintf_of_lt (by omega)]

theorem appends_of_lt {texts : List (List Char)} (h : json.length + texts.flatten.length < len) :
    appends len json texts = json ++ texts.flatten := by
  induction texts generalizing json with
  | nil => exact (List.append_nil json).symm
  | cons text texts ih =>
    rw [List.flatten_cons, List.length_append] at h
    have hfirst : append len json text = json ++ text := append_of_lt (by omega)
    have hrest := @ih (json ++ text) (by rw [List.length_append]; omega)
    rw [appends, List.foldl_cons, hfirst, List.flatten_cons, ← List.append_assoc]
    exact hrest

/-- The entries that are left, with a comma before each but the first. -/
def eachText {α : Type} (text : α → List Char) : (first : Bool) → List α → List Char
  | _, [] => []
  | first, x :: xs => (if first then [] else [',']) ++ (text x ++ eachText text false xs)

variable {α : Type} {fill : Nat → α → List Char} {text : α → List Char}

theorem fillEach_of_lt (hfill : ∀ len x, (text x).length < len → fill len x = text x)
    (first : Bool) (xs : List α) (h : json.length + (eachText text first xs).length < len) :
    fillEach fill len first xs json = json ++ eachText text first xs := by
  induction xs generalizing first json with
  | nil => exact (List.append_nil json).symm
  | cons x xs ih =>
    rw [eachText, List.length_append, List.length_append] at h
    have hcomma : (if first then json else append len json [',']) =
        json ++ if first then [] else [','] := by
      cases first with
      | true => exact (List.append_nil json).symm
      | false => exact append_of_lt (by rw [if_neg Bool.false_ne_true] at h; omega)
    have hitem : fill (len - (json ++ if first then [] else [',']).length) x = text x :=
      hfill _ x (by rw [List.length_append]; omega)
    rw [fillEach, hcomma, hitem, ih false (by simp only [List.length_append]; omega), eachText]
    simp only [List.append_assoc]

theorem eachText_false (x : α) (xs : List α) :
    eachText text false (x :: xs) = ',' :: eachText text true (x :: xs) := rfl

theorem eachText_eq (xs : List α) : eachText text true xs = [','].intercalate (xs.map text) := by
  induction xs with
  | nil => rfl
  | cons x xs ih =>
    cases xs with
    | nil => simp [eachText]
    | cons y ys =>
      rw [List.map_cons, List.map_cons, List.intercalate_cons_cons, ← List.map_cons, ← ih, eachText,
        eachText_false]
      simp

end room

theorem fillSpan_of_lt {len : Nat} {x : ListedSpan} (h : (spanText x).length < len) :
    appends len [] (spanTexts x) = spanText x := by
  rw [appends_of_lt (by rw [List.length_nil]; exact Nat.zero_add _ ▸ h), List.nil_append]
  rfl

/-- A task whose text fits the room is filled in whole. -/
theorem fillTaskJson_of_lt (len : Nat) (task : ListedTask) (h : (taskText task).length < len) :
    fillTaskJson len task = taskText task := by
  simp only [taskText, List.length_append, ← eachText_eq] at h
  have hfill : ∀ len x, (spanText x).length < len → appends len [] (spanTexts x) = spanText x :=
    fun len x hx => fillSpan_of_lt hx
  have hhead : appends len [] (taskTexts task) = (taskTexts task).flatten :=
    appends_of_lt (by rw [List.length_nil]; omega)
  have hreaders := @fillEach_of_lt len (taskTexts task).flatten _ fillReaderJson spanText hfill true
    task.readers (by omega)
  have hmiddle : ["],".toList, "\"pipes\":[".toList].flatten = "],\"pipes\":[".toList := by decide
  have hend : [[']'], ['}']].flatten = [']', '}'] := rfl
  have hbetween := @appends_of_lt len
    ((taskTexts task).flatten ++ eachText spanText true task.readers)
    ["],".toList, "\"pipes\":[".toList]
    (by rw [hmiddle, List.length_append]; omega)
  rw [hmiddle] at hbetween
  have hpipes := @fillEach_of_lt len ((taskTexts task).flatten ++
    eachText spanText true task.readers ++ "],\"pipes\":[".toList) _ fillPipeJson spanText hfill
    true task.pipes (by simp only [List.length_append]; omega)
  have hclose := @appends_of_lt len ((taskTexts task).flatten ++
    eachText spanText true task.readers ++ "],\"pipes\":[".toList ++
      eachText spanText true task.pipes) [[']'], ['}']]
    (by rw [hend]; simp only [List.length_append]; omega)
  unfold fillTaskJson
  dsimp only
  rw [hhead, hreaders, hbetween, hpipes, hclose, hend, taskText, eachText_eq, eachText_eq]

theorem listLoop_eq (selected : ListedTask → Bool) (len taskNum : Nat) (tasks : List ListedTask)
    (response : List Char) :
    listLoop selected len taskNum tasks response =
      fillEach fillTaskJson len (decide (taskNum = 0)) (tasks.filter selected) response := by
  induction tasks generalizing taskNum response with
  | nil => rfl
  | cons task tasks ih =>
    rw [listLoop]
    by_cases hselected : selected task
    · rw [if_pos hselected, List.filter_cons_of_pos hselected, ih, fillEach]
      have hfirst : (if 0 < taskNum then append len response [','] else response) =
          if decide (taskNum = 0) then response else append len response [','] := by
        by_cases hzero : taskNum = 0
        · simp [hzero]
        · simp [hzero, Nat.pos_of_ne_zero hzero]
      rw [hfirst]
      rfl
    · rw [if_neg hselected, List.filter_cons_of_neg hselected, ih]

/-- **While there is room** the answer is the text of the tasks that are
    selected. -/
theorem getTaskList_eq (p : Platform) (query : List Char) (tasks : List ListedTask)
    (h : (listText (tasks.filter (selects p query))).length < capacityLen) :
    getTaskList p query tasks = listText (tasks.filter (selects p query)) := by
  simp only [listText, ← eachText_eq, List.length_cons, List.length_append, List.length_nil] at h
  have hopen : append capacityLen [] ['['] = ['['] := append_of_lt (by simp; omega)
  have hloop := @fillEach_of_lt capacityLen ['['] _ fillTaskJson taskText fillTaskJson_of_lt true
    (tasks.filter (selects p query)) (by simp; omega)
  unfold getTaskList
  dsimp only
  rw [hopen, listLoop_eq, decide_eq_true rfl, hloop,
    append_of_lt (by simp only [List.length_append, List.length_cons, List.length_nil]; omega),
    listText, eachText_eq]
  rfl

/-! ## The answer of the server -/

/-- What is listed and not kept by the server: the texts of the addresses of
    tasks, readers and pipes, the lengths of the readers, and the bitmaps. -/
structure Shown where
  task : Nat → Address
  reader : Nat → Address
  pipe : Nat → Nat → Address
  readerLen : Nat → Int
  bitmap : Nat → List Char
  hex : ∀ id, ∀ c ∈ bitmap id, (hexValue c).isSome

/-- A task of the server as it is listed. -/
def ServerTask.listed (s : Shown) (t : ServerTask) : ListedTask where
  address := s.task t.id
  url := t.task.url.takeWhile (· ≠ '\x00')
  filesize := t.task.storage.filesize
  completed := t.task.storage.completedSize
  bitmap := s.bitmap t.id
  readers := t.task.readers.map fun r => ⟨s.reader r.id, r.pos, s.readerLen r.id⟩
  pipes := t.task.pipes.map fun id =>
    ⟨s.pipe t.id id, (t.task.pipeOf id).pos, (t.task.pipeOf id).len⟩
  terminated := fun hmem => by simpa using List.mem_takeWhile_imp hmem
  hex := s.hex t.id

/-- `GET /api/tasks` of a server: the head and the text of its tasks are sent,
    and nothing else is changed. -/
theorem MsServer.apiHandler_list {w : IntArith} {p : Platform} {nc : Nat} {hm : HttpRequest}
    {e : Ambient} {x : MsServer} {s : Shown} {query : List Char} (hmethod : hm.method = .get)
    (huri : hm.uri = "/api/tasks".toList)
    (hreply : e.reply = taskListReply p query (x.tasks.map (ServerTask.listed s))) :
    x.apiHandler w nc hm e =
      x.respond nc (taskListReply p query (x.tasks.map (ServerTask.listed s))) := by
  have hprefix : hasPrefix "/api/tasks".toList "/api/tasks".toList = false := by decide
  rw [apiHandler, huri, hprefix, ← hreply]
  simp only [Bool.false_eq_true, if_false, if_true, taskHandler, hmethod]

end Libms
