import Mathlib
import Libms.Framework.JsonTexts
import Libms.Server.TaskList

/-! # The list of the tasks as JSON

    What a client makes of the answer to `GET /api/tasks`. The url of a task
    is printed as it is, and the filter compares all bytes of the buffer that
    the parameter was decoded to.

    * `asked`: the tasks that a request asks for.
    * `Reported`: the answer is a JSON array with an object for each.
    * `spells_task`: an object is read for a task whose url is plain.
    * `task_of_gives`, `clean_of_text`: what else can be read, and why no other
      url will do.
    * `selects_iff`: which tasks are selected.
    * `reported_iff`: the requests and the tasks for which the answer is
      right. -/

namespace Libms

open Text Json

/-! ## What is reported -/

/-- Tasks, which have addresses of their own. -/
structure TaskList where
  tasks : List ListedTask
  distinct : (tasks.map fun task => task.address.text).Nodup

/-- The tasks that a request asks for: those with the url that its parameter
    decodes to, or all without a parameter. -/
def asked (query : List Char) (tasks : List ListedTask) : List ListedTask :=
  match findVar "url".toList true query with
  | none => tasks
  | some value => tasks.filter fun task => formDecode value = some task.url

/-- The object of a task, with its url. -/
structure IsEntry (v : Json) (task : ListedTask) : Prop where
  id : v.member "id".toList = [.str task.address.text]
  url : v.member "url".toList = [.str task.url]

/-- The answer is a well formed array with the object of each task that is
    asked for, in the order of the list. -/
def Reported (p : Platform) (query : List Char) (x : TaskList) : Prop :=
  ∃ vs, IsText (getTaskList p query x.tasks) (.arr vs) ∧
    List.Forall₂ IsEntry vs (asked query x.tasks)

/-- A url that is the text of a JSON string as it is. -/
structure CleanUrl (url : List Char) : Prop where
  nonempty : url ≠ []
  plain : ∀ c ∈ url, Plain c
  utf8 : Json.utf8 url

/-- The text is not empty, and fits the array with a NUL behind it. -/
def Buffered (p : Platform) (url : List Char) : Prop :=
  0 < url.length ∧ url.length < p.mgMaxHttpRequestSize

instance (p : Platform) (url : List Char) : Decidable (Buffered p url) :=
  inferInstanceAs (Decidable (_ ∧ _))

/-- The filter selects what is asked for. A url that fills the array is
    compared as it should be. One that is shorter matches no task, and one that
    is empty, longer, or not decoded matches all. -/
inductive FilterFits (p : Platform) (query : List Char) (tasks : List ListedTask) : Prop where
  | absent (hvar : findVar "url".toList true query = none)
  | compared {value url : List Char} (hvar : findVar "url".toList true query = some value)
      (hurl : formDecode value = some url) (hlen : Buffered p url)
      (h : url.length = p.mgMaxHttpRequestSize - 1 ∨ ∀ task ∈ tasks, task.url ≠ url)
  | everything {value : List Char} (hvar : findVar "url".toList true query = some value)
      (hlen : ∀ url, formDecode value = some url → ¬ Buffered p url)
      (hall : ∀ task ∈ tasks, formDecode value = some task.url)

/-- The request and the tasks are such that the answer is right. -/
structure ListFits (p : Platform) (query : List Char) (tasks : List ListedTask) : Prop where
  filter : FilterFits p query tasks
  urls : ∀ task ∈ asked query tasks, CleanUrl task.url

/-! ## Objects -/

/-- What is read of a reader or a pipe. -/
def spanJson (x : ListedSpan) : Json :=
  .obj [("id".toList, .str x.address.text), ("pos".toList, .num (printInt x.pos)),
    ("len".toList, .num (printInt x.len))]

/-- What is read of a task. -/
def taskJson (task : ListedTask) : Json :=
  .obj [("id".toList, .str task.address.text), ("url".toList, .str (urlText task.url)),
    ("totalLength".toList, .num (printInt task.filesize)),
    ("completedLength".toList, .num (printInt task.completed)),
    ("speed".toList, .num (printInt 0)), ("bitmap".toList, .str task.bitmap),
    ("readers".toList, .arr (task.readers.map spanJson)),
    ("pipes".toList, .arr (task.pipes.map spanJson))]

theorem spanText_eq (x : ListedSpan) :
    spanText x = objectText
      [pairText "id".toList [' '] (quoted x.address.text),
        pairText "pos".toList [' '] (printInt x.pos),
        pairText "len".toList [' '] (printInt x.len)] := by
  simp [spanText, spanTexts, objectText, pairText, quoted]

theorem taskText_eq (task : ListedTask) :
    taskText task = objectText
      [pairText "id".toList [' '] (quoted task.address.text),
        pairText "url".toList [' '] (quoted (urlText task.url)),
        pairText "totalLength".toList [' '] (printInt task.filesize),
        pairText "completedLength".toList [' '] (printInt task.completed),
        pairText "speed".toList [' '] (printInt 0),
        pairText "bitmap".toList [' '] (quoted task.bitmap),
        pairText "readers".toList [] (arrayText (task.readers.map spanText)),
        pairText "pipes".toList [] (arrayText (task.pipes.map spanText))] := by
  have hzero : printInt 0 = ['0'] := by decide
  simp [taskText, taskTexts, objectText, pairText, quoted, arrayText, hzero]

/-- A printable ASCII character that needs no escape. -/
def Simple (c : Char) : Prop := Plain c ∧ c.toNat < 0x80

theorem simple_of_toNat {c : Char} (h₀ : 35 ≤ c.toNat) (h₁ : c.toNat < 0x80) (h₂ : c.toNat ≠ 92) :
    Simple c := by
  refine ⟨⟨by omega, ?_, ?_⟩, h₁⟩
  · intro heq
    rw [heq] at h₀
    exact absurd h₀ (by decide)
  · intro heq
    rw [heq] at h₂
    exact h₂ rfl

theorem simple_of_alnum {c : Char} (h : c.isAlphanum) : Simple c := by
  simp only [Char.isAlphanum, Char.isAlpha, Char.isUpper, Char.isLower, Char.isDigit,
    Bool.or_eq_true, Bool.and_eq_true, decide_eq_true_eq, ge_iff_le, UInt32.le_iff_toNat_le] at h
  have hranges : (65 ≤ c.toNat ∧ c.toNat ≤ 90 ∨ 97 ≤ c.toNat ∧ c.toNat ≤ 122) ∨
      48 ≤ c.toNat ∧ c.toNat ≤ 57 := h
  apply simple_of_toNat
  all_goals omega

theorem simple_of_hex {c : Char} (h : (hexValue c).isSome) : Simple c := by
  unfold hexValue at h
  split_ifs at h with hdigit hlower hupper
  · exact simple_of_alnum (by rw [Char.isAlphanum, hdigit, Bool.or_true])
  · apply simple_of_toNat
    all_goals omega
  · apply simple_of_toNat
    all_goals omega
  · cases h

theorem Address.simple (x : Address) : ∀ c ∈ x.text, Simple c :=
  fun c hc => simple_of_alnum (x.alnum c hc)

theorem ListedTask.bitmap_simple (task : ListedTask) : ∀ c ∈ task.bitmap, Simple c :=
  fun c hc => simple_of_hex (task.hex c hc)

theorem spells_simple {s : List Char} (hs : ∀ c ∈ s, Simple c) : Spells value (quoted s) (.str s) :=
  spells_string fun c hc => (hs c hc).1

theorem spells_span (x : ListedSpan) : Spells value (spanText x) (spanJson x) := by
  rw [spanText_eq]
  have hspace : ∀ c ∈ [' '], isWs c := List.forall_mem_singleton.mpr rfl
  refine spells_object (.cons ?_ (.cons ?_ (.cons ?_ .nil)))
  · exact spells_pair (plain_of_all rfl) hspace (spells_simple x.address.simple)
  · exact spells_pair (plain_of_all rfl) hspace (spells_number x.pos)
  · exact spells_pair (plain_of_all rfl) hspace (spells_number x.len)

theorem spells_spans (xs : List ListedSpan) :
    Spells value (arrayText (xs.map spanText)) (.arr (xs.map spanJson)) := by
  apply spells_array
  induction xs with
  | nil => exact .nil
  | cons x xs ih => exact .cons (spells_span x) ih

/-- **A plain url** makes an object of the task. -/
theorem spells_task {task : ListedTask} (hurl : ∀ c ∈ urlText task.url, Plain c) :
    Spells value (taskText task) (taskJson task) := by
  rw [taskText_eq]
  have hspace : ∀ c ∈ [' '], isWs c := List.forall_mem_singleton.mpr rfl
  have hnone : ∀ c ∈ ([] : List Char), isWs c := List.forall_mem_nil _
  refine spells_object (.cons ?_ (.cons ?_ (.cons ?_ (.cons ?_ (.cons ?_ (.cons ?_ (.cons ?_
    (.cons ?_ .nil))))))))
  · exact spells_pair (plain_of_all rfl) hspace (spells_simple task.address.simple)
  · exact spells_pair (plain_of_all rfl) hspace (spells_string hurl)
  · exact spells_pair (plain_of_all rfl) hspace (spells_number task.filesize)
  · exact spells_pair (plain_of_all rfl) hspace (spells_number task.completed)
  · exact spells_pair (plain_of_all rfl) hspace (spells_number 0)
  · exact spells_pair (plain_of_all rfl) hspace (spells_simple task.bitmap_simple)
  · exact spells_pair (plain_of_all rfl) hnone (spells_spans task.readers)
  · exact spells_pair (plain_of_all rfl) hnone (spells_spans task.pipes)

/-! ## Encoding -/

/-- Nothing but ASCII. -/
def Ascii (t : List Char) : Prop := ∀ c ∈ t, c.toNat < 0x80

theorem Ascii.append {s t : List Char} (hs : Ascii s) (ht : Ascii t) : Ascii (s ++ t) :=
  List.forall_mem_append.mpr ⟨hs, ht⟩

theorem ascii_of_all {t : List Char} (h : t.all fun c => decide (c.toNat < 0x80)) : Ascii t :=
  fun c hc => of_decide_eq_true (List.all_eq_true.mp h c hc)

theorem ascii_printInt (z : Int) : Ascii (printInt z) := by
  intro c hc
  rcases mem_printInt hc with hdash | hdigit
  · rw [hdash]
    decide
  · exact (simple_of_alnum (by rw [Char.isAlphanum, hdigit, Bool.or_true])).2

theorem ascii_intercalate {texts : List (List Char)} (h : ∀ t ∈ texts, Ascii t) :
    Ascii ([','].intercalate texts) := by
  induction texts with
  | nil => exact fun c hc => by cases hc
  | cons text texts ih =>
    have hrest := ih fun t ht => h t (List.mem_cons_of_mem _ ht)
    cases texts with
    | nil =>
      rw [List.intercalate_singleton]
      exact h text (by simp)
    | cons text' texts =>
      rw [List.intercalate_cons_cons]
      exact ((h text (by simp)).append (ascii_of_all rfl)).append hrest

theorem ascii_span (x : ListedSpan) : Ascii (spanText x) := by
  have haddress : Ascii x.address.text := fun c hc => (x.address.simple c hc).2
  have htext : spanText x = "\x7b\"id\": \"".toList ++ x.address.text ++ "\",\"pos\": ".toList ++
      printInt x.pos ++ ",\"len\": ".toList ++ printInt x.len ++ ['}'] := by
    simp [spanText, spanTexts]
  rw [htext]
  exact ((((((ascii_of_all rfl).append haddress).append (ascii_of_all rfl)).append
    (ascii_printInt _)).append (ascii_of_all rfl)).append (ascii_printInt _)).append
    (ascii_of_all rfl)

theorem ascii_spans (xs : List ListedSpan) : Ascii ([','].intercalate (xs.map spanText)) := by
  apply ascii_intercalate
  intro t ht
  obtain ⟨x, -, hx⟩ := List.mem_map.mp ht
  rw [← hx]
  exact ascii_span x

/-- What a task is printed with behind its url. -/
def taskBack (task : ListedTask) : List Char :=
  "totalLength\": ".toList ++ printInt task.filesize ++ ",\"completedLength\": ".toList ++
    printInt task.completed ++ ",\"speed\": 0,\"bitmap\": \"".toList ++ task.bitmap ++
    "\",\"readers\":[".toList ++ [','].intercalate (task.readers.map spanText) ++
    "],\"pipes\":[".toList ++ [','].intercalate (task.pipes.map spanText) ++ [']', '}']

/-- The text of a task around its address and its url. -/
theorem taskText_split (task : ListedTask) :
    taskText task = '{' :: '"' :: ("id".toList ++ '"' :: ':' :: ' ' :: '"' ::
      (task.address.text ++ '"' :: ',' :: '"' :: ("url".toList ++ '"' :: ':' :: ' ' :: '"' ::
        (urlText task.url ++ '"' :: ',' :: '"' :: taskBack task)))) := by
  unfold taskText taskTexts taskBack
  simp only [List.flatten_cons, List.flatten_nil, List.append_assoc, List.append_nil]
  simp only [String.reduceToList]
  simp only [List.cons_append, List.nil_append]

theorem ascii_taskBack (task : ListedTask) : Ascii (taskBack task) := by
  have hbitmap : Ascii task.bitmap := fun c hc => (task.bitmap_simple c hc).2
  exact ((((((((((ascii_of_all rfl).append (ascii_printInt _)).append (ascii_of_all rfl)).append
    (ascii_printInt _)).append (ascii_of_all rfl)).append hbitmap).append (ascii_of_all rfl)).append
    (ascii_spans _)).append (ascii_of_all rfl)).append (ascii_spans _)).append (ascii_of_all rfl)

/-- Only the url can spoil the encoding. -/
theorem utf8_task (task : ListedTask) (t : List Char) :
    utf8 (taskText task ++ t) = (utf8 (urlText task.url) && utf8 t) := by
  have haddress : Ascii task.address.text := fun c hc => (task.address.simple c hc).2
  have hfront : Ascii ("\x7b\"id\": \"".toList ++ task.address.text ++ "\",\"url\": \"".toList) :=
    ((ascii_of_all rfl).append haddress).append (ascii_of_all rfl)
  have hback : Ascii (",\"".toList ++ taskBack task) :=
    (ascii_of_all rfl).append (ascii_taskBack task)
  have htext : taskText task ++ t =
      "\x7b\"id\": \"".toList ++ task.address.text ++ "\",\"url\": \"".toList ++
        (urlText task.url ++ '"' :: (",\"".toList ++ taskBack task ++ t)) := by
    rw [taskText_split]
    simp
  rw [htext, utf8_ascii_append hfront, utf8_cut (by decide), utf8_ascii_append hback]

theorem utf8_tasks (tasks : List ListedTask) :
    utf8 ([','].intercalate (tasks.map taskText) ++ [']']) =
      tasks.all fun task => utf8 (urlText task.url) := by
  induction tasks with
  | nil => rfl
  | cons task tasks ih =>
    cases tasks with
    | nil =>
      rw [List.map_singleton, List.intercalate_singleton, utf8_task, List.all_cons]
      rfl
    | cons task' tasks =>
      have hcomma := utf8_cut (show ','.toNat < 0x80 by decide) []
        ([','].intercalate (List.map taskText (task' :: tasks)) ++ [']'])
      rw [List.nil_append, ih] at hcomma
      rw [List.map_cons, List.map_cons, List.intercalate_cons_cons, ← List.map_cons,
        List.append_assoc, List.append_assoc, utf8_task, List.all_cons]
      exact congrArg (utf8 (urlText task.url) && ·) hcomma

theorem utf8_listText (tasks : List ListedTask) :
    utf8 (listText tasks) = tasks.all fun task => utf8 (urlText task.url) := by
  have hopen := utf8_cut (show '['.toNat < 0x80 by decide) []
    ([','].intercalate (tasks.map taskText) ++ [']'])
  rw [List.nil_append, utf8_tasks] at hopen
  exact hopen

/-! ## Whatever the url -/

/-- A member that is a string, and what its text goes on with. -/
theorem string_pair_of_gives {key rest r : List Char} {m : List Char × Json}
    (hkey : ∀ c ∈ key, Plain c)
    (h : Gives (fun n => pair (value n)) ('"' :: (key ++ '"' :: ':' :: ' ' :: '"' :: rest)) m r) :
    ∃ s, string rest = some (s, r) ∧ m = (key, .str s) := by
  obtain ⟨hvalue, hname⟩ := (gives_pair_iff hkey).mp h
  obtain ⟨s, hs, hv⟩ := gives_string_iff.mp hvalue
  exact ⟨s, hs, Prod.ext hname hv⟩

/-- What is read of a task is an object, with its address and the string that
    starts where its url does. -/
theorem task_of_gives {task : ListedTask} {tail r : List Char} {v : Json}
    (h : Gives value (taskText task ++ tail) v r) :
    ∃ s members r', v = .obj (("id".toList, .str task.address.text) ::
        ("url".toList, .str s) :: members) ∧
      string (urlText task.url ++ '"' :: ',' :: '"' :: (taskBack task ++ tail)) = some (s, r') := by
  have hplain : ∀ c ∈ task.address.text, Plain c := fun c hc => (task.address.simple c hc).1
  rw [taskText_split] at h
  simp only [List.cons_append, List.append_assoc] at h
  obtain ⟨members, ⟨n, hlist⟩, hv⟩ := gives_object_iff.mp h
  dsimp only at hlist
  rw [closedList_item (by decide) (by decide)] at hlist
  have hitems : Gives (fun n => items '}' (pair (value n)) n) _ members r := ⟨n, hlist⟩
  obtain ⟨m, r₁, hm, hmore⟩ := items_of_gives hitems
  obtain ⟨s, hs, hid⟩ := string_pair_of_gives (plain_of_all rfl) hm
  rw [string_plain hplain, Option.some.injEq, Prod.mk.injEq] at hs
  rw [hid, ← hs.1, ← hs.2] at hmore
  rcases hmore with ⟨hend, -⟩ | ⟨r₂, ms, hcomma, hms, hrest⟩
  · cases hend
  · -- the second member
    have hr₂ : '"' :: ("url".toList ++ '"' :: ':' :: ' ' :: '"' ::
        (urlText task.url ++ '"' :: ',' :: '"' :: (taskBack task ++ tail))) = r₂ :=
      (List.cons.inj hcomma).2
    rw [← hr₂] at hrest
    obtain ⟨m', r₃, hm', hmore'⟩ := items_of_gives hrest
    obtain ⟨s', hs', hurl⟩ := string_pair_of_gives (plain_of_all rfl) hm'
    rw [hurl] at hmore'
    rcases hmore' with ⟨-, hlast⟩ | ⟨r₄, ms', -, hms', -⟩
    · exact ⟨s', [], r₃, by rw [hv, hms, hlast], hs'⟩
    · exact ⟨s', ms', r₃, by rw [hv, hms, hms'], hs'⟩

/-- The object of a task says which task it is of. -/
theorem IsEntry.sameAddress {task task' : ListedTask} {s : List Char}
    {members : List (List Char × Json)}
    (h : IsEntry (.obj (("id".toList, .str task.address.text) :: ("url".toList, .str s) :: members))
      task') : task.address.text = task'.address.text ∧ s = task'.url := by
  have hne : "id".toList ≠ "url".toList := by decide
  have hid := h.id
  have hurl := h.url
  rw [member_same, List.cons.injEq] at hid
  rw [member_other hne, member_same, List.cons.injEq] at hurl
  exact ⟨Json.str.inj hid.1, Json.str.inj hurl.1⟩

/-- A url that is read back had nothing to escape. -/
theorem clean_of_string {url t r : List Char}
    (h : string (urlText url ++ '"' :: ',' :: '"' :: t) = some (url, r)) :
    url ≠ [] ∧ ∀ c ∈ url, Plain c := by
  unfold urlText at h
  split at h
  · rename_i hnil
    rw [string_plain (plain_of_all rfl), hnil] at h
    cases h
  · rename_i hne
    exact ⟨hne, string_spoilt h⟩

/-- The object that is read of a task with a plain url is its own. -/
theorem isEntry_taskJson {task : ListedTask} (hne : task.url ≠ []) :
    IsEntry (taskJson task) task := by
  have htext : urlText task.url = task.url := if_neg hne
  constructor
  · simp [taskJson, Json.member]
  · simp [taskJson, Json.member, htext]

/-- What a list of tasks goes on with behind the first one. -/
def behindTask (tasks : List ListedTask) : List Char :=
  if tasks = [] then [']'] else ',' :: ([','].intercalate (tasks.map taskText) ++ [']'])

theorem tasks_cons (task : ListedTask) (tasks : List ListedTask) :
    [','].intercalate ((task :: tasks).map taskText) ++ [']'] =
      taskText task ++ behindTask tasks := by
  unfold behindTask
  cases tasks with
  | nil => simp
  | cons task' tasks =>
    rw [if_neg (List.cons_ne_nil _ _), List.map_cons, List.map_cons, List.intercalate_cons_cons]
    simp

theorem delimited_behindTask (tasks : List ListedTask) : Delimited (behindTask tasks) := by
  unfold behindTask
  split
  · exact ⟨']', [], rfl, Or.inr (Or.inl rfl)⟩
  · exact ⟨',', _, rfl, Or.inl rfl⟩

/-- The first object is the one of the first task. -/
theorem clean_of_first {p : ListedTask → Bool} {task : ListedTask} {tasks : List ListedTask}
    {v : Json} {vs : List Json} {tail r : List Char}
    (hdistinct : ((task :: tasks).map fun task => task.address.text).Nodup)
    (h : Gives value (taskText task ++ tail) v r)
    (hentries : List.Forall₂ IsEntry (v :: vs) ((task :: tasks).filter p)) :
    (p task ∧ task.url ≠ [] ∧ ∀ c ∈ task.url, Plain c) ∧
      List.Forall₂ IsEntry vs (tasks.filter p) := by
  obtain ⟨s, members, r', hv, hs⟩ := task_of_gives h
  have hp : p task := by
    by_contra hp
    rw [List.filter_cons_of_neg hp] at hentries
    cases hrest : tasks.filter p with
    | nil =>
      rw [hrest] at hentries
      cases hentries
    | cons task' rest =>
      rw [hrest] at hentries
      obtain ⟨hentry, -⟩ := List.forall₂_cons.mp hentries
      rw [hv] at hentry
      -- another task would have the same address
      have hmem : task' ∈ tasks := List.mem_of_mem_filter (p := p) (by rw [hrest]; simp)
      have hnew := (List.nodup_cons.mp hdistinct).1
      exact hnew (List.mem_map.mpr ⟨task', hmem, hentry.sameAddress.1.symm⟩)
  rw [List.filter_cons_of_pos hp] at hentries
  obtain ⟨hentry, hrest⟩ := List.forall₂_cons.mp hentries
  rw [hv] at hentry
  rw [hentry.sameAddress.2] at hs
  exact ⟨⟨hp, clean_of_string hs⟩, hrest⟩

/-- The items of the list, read as objects of the tasks with `p`: every task
    has `p`, and a plain url. -/
theorem clean_of_items {p : ListedTask → Bool} {tasks : List ListedTask} {vs : List Json}
    {r : List Char} (hdistinct : (tasks.map fun task => task.address.text).Nodup)
    (h : Gives (fun n => items ']' (value n) n) ([','].intercalate (tasks.map taskText) ++ [']'])
      vs r)
    (hne : tasks ≠ []) (hentries : List.Forall₂ IsEntry vs (tasks.filter p)) :
    ∀ task ∈ tasks, p task ∧ task.url ≠ [] ∧ ∀ c ∈ task.url, Plain c := by
  induction tasks generalizing vs with
  | nil => exact absurd rfl hne
  | cons task tasks ih =>
    rw [tasks_cons] at h
    obtain ⟨v, r₁, hv, hmore⟩ := items_of_gives h
    have hvs : ∃ ws, vs = v :: ws := by
      rcases hmore with ⟨-, hlast⟩ | ⟨r₂, ws, -, hws, -⟩
      · exact ⟨[], hlast⟩
      · exact ⟨ws, hws⟩
    obtain ⟨ws, hws⟩ := hvs
    rw [hws] at hentries
    obtain ⟨hclean, hrest⟩ := clean_of_first hdistinct hv hentries
    have hall : tasks ≠ [] → ∀ task ∈ tasks, p task ∧ task.url ≠ [] ∧ ∀ c ∈ task.url, Plain c := by
      intro hne
      -- so the text goes on behind the first task
      have hplain : ∀ c ∈ urlText task.url, Plain c := by
        rw [urlText, if_neg hclean.2.1]
        exact hclean.2.2
      have hgives := (spells_task hplain).gives _ (delimited_behindTask tasks)
      have hr₁ := (hgives.unique growing_value hv).2
      rw [← hr₁, (delimited_behindTask tasks).skipWs, behindTask, if_neg hne, hws] at hmore
      rcases hmore with ⟨hend, -⟩ | ⟨r₂, ws', hcomma, hws', hitems⟩
      · cases hend
      · rw [← (List.cons.inj hcomma).2] at hitems
        have hstart : skipWs ([','].intercalate (tasks.map taskText) ++ [']']) =
            [','].intercalate (tasks.map taskText) ++ [']'] := by
          obtain ⟨task', tasks', htasks⟩ := List.exists_cons_of_ne_nil hne
          rw [htasks, tasks_cons, taskText_split]
          rfl
        rw [hstart, ← (List.cons.inj hws').2] at hitems
        exact ih (List.nodup_cons.mp hdistinct).2 hitems hne hrest
    intro task' hmem
    rcases List.mem_cons.mp hmem with heq | htail
    · rw [heq]
      exact hclean
    · exact hall (List.ne_nil_of_mem htail) task' htail

/-- An array of the objects of the tasks with `p`: every task has `p`, and a
    clean url. -/
theorem clean_of_text {p : ListedTask → Bool} {tasks : List ListedTask} {vs : List Json}
    (hdistinct : (tasks.map fun task => task.address.text).Nodup)
    (h : IsText (listText tasks) (.arr vs)) (hentries : List.Forall₂ IsEntry vs (tasks.filter p)) :
    ∀ task ∈ tasks, p task ∧ CleanUrl task.url := by
  intro task hmem
  have hne : tasks ≠ [] := List.ne_nil_of_mem hmem
  obtain ⟨hutf8, r, hvalue, -⟩ := h
  obtain ⟨xs, ⟨n, hlist⟩, hxs⟩ := gives_array_iff.mp hvalue
  dsimp only at hlist
  have hitem : closedList ']' (value n) n ([','].intercalate (tasks.map taskText) ++ [']']) =
      items ']' (value n) n ([','].intercalate (tasks.map taskText) ++ [']']) := by
    obtain ⟨task', tasks', htasks⟩ := List.exists_cons_of_ne_nil hne
    rw [htasks, tasks_cons, taskText_split, List.cons_append]
    exact closedList_item (by decide) (by decide) _ _
  rw [hitem, ← Json.arr.inj hxs] at hlist
  obtain ⟨hp, hurl, hplain⟩ := clean_of_items hdistinct ⟨n, hlist⟩ hne hentries task hmem
  rw [utf8_listText, List.all_eq_true] at hutf8
  have hencoded := hutf8 task hmem
  rw [urlText, if_neg hurl] at hencoded
  exact ⟨hp, hurl, hplain, hencoded⟩

/-- **Clean urls** make the text of the list an array of the objects. -/
theorem isText_listText {tasks : List ListedTask} (h : ∀ task ∈ tasks, CleanUrl task.url) :
    IsText (listText tasks) (.arr (tasks.map taskJson)) := by
  have htext : ∀ task ∈ tasks, urlText task.url = task.url :=
    fun task hmem => if_neg (h task hmem).nonempty
  constructor
  · rw [utf8_listText, List.all_eq_true]
    intro task hmem
    rw [htext task hmem]
    exact (h task hmem).utf8
  · have hspells : List.Forall₂ (Spells value) (tasks.map taskText) (tasks.map taskJson) := by
      rw [List.forall₂_map_left_iff, List.forall₂_map_right_iff, List.forall₂_same]
      intro task hmem
      refine spells_task ?_
      rw [htext task hmem]
      exact (h task hmem).plain
    exact ⟨[], gives_array_iff.mpr ⟨_, gives_list growing_value (Or.inl rfl) hspells [], rfl⟩, rfl⟩

/-! ## What is selected -/

section selects

variable {p : Platform} {query value url : List Char} {task : ListedTask}

theorem selects_absent (hvar : findVar "url".toList true query = none) : selects p query task := by
  have hsize := p.one_lt_mgMaxHttpRequestSize
  unfold selects mgGetHttpVar
  rw [if_neg (by omega), hvar]
  split_ifs
  all_goals rfl

theorem mgGetHttpVar_error (hvar : findVar "url".toList true query = some value)
    (h : mgUrlDecode (p.mgMaxHttpRequestSize - 1) value = none) :
    mgGetHttpVar query "url".toList p.mgMaxHttpRequestSize = .error (-3) := by
  have hne : query ≠ [] := by
    intro hnil
    rw [hnil] at hvar
    cases hvar
  have hsize := p.one_lt_mgMaxHttpRequestSize
  unfold mgGetHttpVar
  rw [if_neg (by omega), if_neg hne, hvar]
  dsimp only
  rw [h]

theorem mgGetHttpVar_ok (hvar : findVar "url".toList true query = some value)
    (h : mgUrlDecode (p.mgMaxHttpRequestSize - 1) value = some url) :
    mgGetHttpVar query "url".toList p.mgMaxHttpRequestSize = .ok url := by
  have hne : query ≠ [] := by
    intro hnil
    rw [hnil] at hvar
    cases hvar
  have hsize := p.one_lt_mgMaxHttpRequestSize
  unfold mgGetHttpVar
  rw [if_neg (by omega), if_neg hne, hvar]
  dsimp only
  rw [h]

/-- The whole array equals a url of C only where it is full. -/
theorem urlStr_eq_iff (h : url.length < p.mgMaxHttpRequestSize) :
    urlStr p url = task.url ↔ url.length = p.mgMaxHttpRequestSize - 1 ∧ url = task.url := by
  have hsize := p.one_lt_mgMaxHttpRequestSize
  have hstr : urlStr p url =
      url ++ List.replicate (p.mgMaxHttpRequestSize - 1 - url.length) '\x00' := by
    rw [urlStr, List.take_append, List.take_of_length_le (by omega), List.take_replicate]
    congr 2
    omega
  rw [hstr]
  by_cases hfull : url.length = p.mgMaxHttpRequestSize - 1
  · rw [hfull, Nat.sub_self, List.replicate_zero, List.append_nil]
    exact ⟨fun heq => ⟨rfl, heq⟩, fun heq => heq.2⟩
  · refine iff_of_false (fun heq => ?_) fun heq => hfull heq.1
    -- behind a shorter text there are zeros
    apply task.terminated
    rw [← heq, List.mem_append, List.mem_replicate]
    exact Or.inr ⟨by omega, rfl⟩

theorem selects_undecoded (hvar : findVar "url".toList true query = some value)
    (h : formDecode value = none) : selects p query task := by
  have hnone : mgUrlDecode (p.mgMaxHttpRequestSize - 1) value = none := by
    cases hdecode : mgUrlDecode (p.mgMaxHttpRequestSize - 1) value with
    | none => rfl
    | some url =>
      rw [(mgUrlDecode_eq_some.mp hdecode).1] at h
      cases h
  unfold selects
  rw [mgGetHttpVar_error hvar hnone]
  rfl

/-- An empty text, and one that is too long, are taken for no text. -/
theorem selects_outside (hvar : findVar "url".toList true query = some value)
    (h : formDecode value = some url)
    (hlen : ¬ Buffered p url) : selects p query task := by
  have hsize := p.one_lt_mgMaxHttpRequestSize
  unfold Buffered at hlen
  unfold selects
  cases hdecode : mgUrlDecode (p.mgMaxHttpRequestSize - 1) value with
  | none =>
    rw [mgGetHttpVar_error hvar hdecode]
    rfl
  | some url' =>
    obtain ⟨hsame, hroom⟩ := mgUrlDecode_eq_some.mp hdecode
    rw [h, Option.some.injEq] at hsame
    rw [← hsame] at hroom hdecode
    have hempty : (url.length : Int) ≤ 0 := by omega
    rw [mgGetHttpVar_ok hvar hdecode]
    dsimp only
    rw [decide_eq_true hempty, Bool.true_or]

theorem selects_iff (hvar : findVar "url".toList true query = some value)
    (h : formDecode value = some url) (hlen : Buffered p url) :
    selects p query task ↔ url.length = p.mgMaxHttpRequestSize - 1 ∧ url = task.url := by
  have hsize := p.one_lt_mgMaxHttpRequestSize
  unfold Buffered at hlen
  have hdecode : mgUrlDecode (p.mgMaxHttpRequestSize - 1) value = some url :=
    mgUrlDecode_eq_some.mpr ⟨h, by omega⟩
  have hfull : ¬ (url.length : Int) ≤ 0 := by omega
  unfold selects
  rw [mgGetHttpVar_ok hvar hdecode]
  dsimp only
  rw [decide_eq_false hfull, Bool.false_or, decide_eq_true_eq]
  exact urlStr_eq_iff hlen.2

end selects

/-! ## Every request -/

/-- The filter does what it should where it fits. -/
theorem filter_eq_asked {p : Platform} {query : List Char} {tasks : List ListedTask}
    (h : FilterFits p query tasks) : tasks.filter (selects p query) = asked query tasks := by
  unfold asked
  cases h with
  | absent hvar =>
    rw [hvar]
    exact List.filter_eq_self.mpr fun task _ => selects_absent hvar
  | @compared value url hvar hurl hlen h =>
    rw [hvar]
    apply List.filter_congr
    intro task hmem
    rw [Bool.eq_iff_iff, selects_iff hvar hurl hlen, decide_eq_true_eq, hurl, Option.some.injEq]
    rcases h with hfull | hnone
    · exact ⟨fun heq => heq.2, fun heq => ⟨hfull, heq⟩⟩
    · have hne : url ≠ task.url := fun heq => hnone task hmem heq.symm
      exact iff_of_false (fun heq => hne heq.2) hne
  | @everything value hvar hlen hall =>
    rw [hvar]
    apply List.filter_congr
    intro task hmem
    have hurl := hall task hmem
    rw [selects_outside hvar hurl (hlen _ hurl), decide_eq_true hurl]

/-- An answer that is right was filtered as it should be. -/
theorem filterFits_of_reported {p : Platform} {query : List Char} {x : TaskList}
    (hroom : (listText (x.tasks.filter (selects p query))).length < capacityLen)
    (h : Reported p query x) : FilterFits p query x.tasks := by
  obtain ⟨vs, htext, hentries⟩ := h
  rw [getTaskList_eq _ _ _ hroom] at htext
  unfold asked at hentries
  cases hvar : findVar "url".toList true query with
  | none => exact .absent hvar
  | some value =>
    rw [hvar] at hentries
    dsimp only at hentries
    -- where every task is selected, every one must be asked for
    have hall : (∀ task ∈ x.tasks, selects p query task) →
        ∀ task ∈ x.tasks, formDecode value = some task.url := by
      intro hselects task hmem
      rw [List.filter_eq_self.mpr hselects] at htext
      exact of_decide_eq_true (clean_of_text x.distinct htext hentries task hmem).1
    cases hurl : formDecode value with
    | none =>
      refine .everything hvar ?_ (hall fun task _ => selects_undecoded hvar hurl)
      intro url hsome
      rw [hurl] at hsome
      cases hsome
    | some url =>
      by_cases hlen : Buffered p url
      · refine .compared hvar hurl hlen ?_
        by_cases hfull : url.length = p.mgMaxHttpRequestSize - 1
        · exact Or.inl hfull
        · -- no task is selected, so none may be asked for
          have hnone : x.tasks.filter (selects p query) = [] :=
            List.filter_eq_nil_iff.mpr fun task _ hselects =>
              hfull ((selects_iff hvar hurl hlen).mp hselects).1
          rw [hnone] at htext
          have hempty := Json.arr.inj (htext.unique (isText_listText (List.forall_mem_nil _)))
          rw [hempty, List.map_nil, List.forall₂_nil_left_iff, List.filter_eq_nil_iff] at hentries
          right
          intro task hmem heq
          apply hentries task hmem
          rw [decide_eq_true_eq, hurl, heq]
      · refine .everything hvar ?_ (hall fun task _ => selects_outside hvar hurl hlen)
        intro url' hsome
        rw [hurl, Option.some.injEq] at hsome
        rw [← hsome]
        exact hlen

theorem listFits_of_reported {p : Platform} {query : List Char} {x : TaskList}
    (hroom : (listText (x.tasks.filter (selects p query))).length < capacityLen)
    (h : Reported p query x) : ListFits p query x.tasks := by
  have hfilter := filterFits_of_reported hroom h
  obtain ⟨vs, htext, hentries⟩ := h
  rw [getTaskList_eq _ _ _ hroom, filter_eq_asked hfilter] at htext
  have hdistinct : ((asked query x.tasks).map fun task => task.address.text).Nodup := by
    rw [← filter_eq_asked hfilter]
    exact x.distinct.sublist (List.filter_sublist.map _)
  rw [← List.filter_true (asked query x.tasks)] at hentries
  exact ⟨hfilter, fun task hmem => (clean_of_text hdistinct htext hentries task hmem).2⟩

/-- **The list of the tasks.** For all tasks and every request whose answer
    fits the buffer: the answer is a JSON array with an object for each task
    that was asked for, with its url, iff the filter selects these tasks and
    their urls are clean. -/
theorem reported_iff (p : Platform) (query : List Char) (x : TaskList)
    (hroom : (listText (x.tasks.filter (selects p query))).length < capacityLen) :
    Reported p query x ↔ ListFits p query x.tasks := by
  refine ⟨listFits_of_reported hroom, fun hfits => ⟨(asked query x.tasks).map taskJson, ?_, ?_⟩⟩
  · rw [getTaskList_eq _ _ _ hroom, filter_eq_asked hfits.filter]
    exact isText_listText hfits.urls
  · rw [List.forall₂_map_left_iff, List.forall₂_same]
    intro task hmem
    exact isEntry_taskJson (hfits.urls task hmem).nonempty

/-- A list with one task, which is in progress. -/
def oneTask (url : List Char) (h : '\x00' ∉ url) : TaskList where
  tasks :=
    [{  address := ⟨"0x7f1c".toList, List.all_eq_true.mp rfl⟩
        url := url
        filesize := 10
        completed := 0
        bitmap := "0".toList
        readers := [⟨⟨"0x7f2c".toList, List.all_eq_true.mp rfl⟩, 0, 0⟩]
        pipes := [⟨⟨"0x7f3c".toList, List.all_eq_true.mp rfl⟩, 0, 10⟩]
        terminated := h
        hex := List.all_eq_true.mp rfl }]
  distinct := List.nodup_singleton _

/-- A list with a usual url, and a request for it. -/
def videoList : TaskList := oneTask "http://a/v.mp4".toList (by decide)

def videoQuery : List Char := "url=http%3A%2F%2Fa%2Fv.mp4".toList

/-- A list with quotes in a url. -/
def quotedList : TaskList := oneTask "http://a/\"v\".mp4".toList (by decide)

/-- The list without a parameter. -/
theorem reported_iff_video :
    Reported .desktop [] videoList ↔ ListFits .desktop [] videoList.tasks :=
  reported_iff .desktop [] videoList (by decide +kernel)

theorem FilterFits.of_buffered {p : Platform} {query value url : List Char}
    {tasks : List ListedTask} (h : FilterFits p query tasks)
    (hvar : findVar "url".toList true query = some value)
    (hurl : formDecode value = some url) (hlen : Buffered p url) :
    url.length = p.mgMaxHttpRequestSize - 1 ∨ ∀ task ∈ tasks, task.url ≠ url := by
  cases h with
  | absent hvar' =>
    rw [hvar] at hvar'
    cases hvar'
  | compared hvar' hurl' hlen' h =>
    rw [hvar, Option.some.injEq] at hvar'
    rw [← hvar', hurl, Option.some.injEq] at hurl'
    rw [hurl']
    exact h
  | everything hvar' hlen' hall =>
    rw [hvar, Option.some.injEq] at hvar'
    rw [← hvar'] at hlen'
    exact absurd hlen (hlen' url hurl)

/-- The task of a url is not listed for its url, and a quote in a url spoils
    the text. -/
theorem list_misreports :
    getTaskList .desktop videoQuery videoList.tasks = "[]".toList ∧
      ¬ Reported .desktop videoQuery videoList ∧
      (listText quotedList.tasks).length < capacityLen ∧ ¬ Reported .desktop [] quotedList := by
  refine ⟨by decide +kernel, fun h => ?_, by decide +kernel, fun h => ?_⟩
  · have hvar : findVar "url".toList true videoQuery = some "http%3A%2F%2Fa%2Fv.mp4".toList := by
      decide +kernel
    have hurl : formDecode "http%3A%2F%2Fa%2Fv.mp4".toList = some "http://a/v.mp4".toList := by
      decide +kernel
    have hfits := filterFits_of_reported (by decide +kernel) h
    rcases hfits.of_buffered hvar hurl (by decide +kernel) with hfull | hnone
    · exact absurd hfull (by decide +kernel)
    · exact hnone _ List.mem_cons_self rfl
  · have hurls := (listFits_of_reported (by decide +kernel) h).urls
    have hclean := hurls _ List.mem_cons_self
    exact (hclean.plain '"' (by decide +kernel)).2.1 rfl

end Libms
