import Mathlib
import Libms.Framework.Text

/-! # JSON texts

    A text is a list of bytes here, each as the `Char` of its number, as C has
    it and as it is sent.

    * `utf8`: the bytes are the UTF-8 encoding of characters.
    * `value`: the grammar, as a recursive descent. Its first argument bounds
      the nesting and the number of items, and `Gives` leaves it out.
    * `IsText`: a whole text that is well formed, and its value.
    * `string_plain`, `string_spoilt`: what is read of a string whose
      characters were not escaped as it was written. -/

open Text

/-- A JSON value. A number is kept as it is written, a string as the bytes of
    its characters, and the members of an object in their order. -/
inductive Json where
  | null
  | bool (b : Bool)
  | num (literal : List Char)
  | str (s : List Char)
  | arr (items : List Json)
  | obj (members : List (List Char × Json))

namespace Json

/-- The values of the members with this name. -/
def member (v : Json) (key : List Char) : List Json :=
  match v with
  | .obj members => (members.filter fun m => m.1 = key).map Prod.snd
  | _ => []

theorem member_same (key : List Char) (v : Json) (members : List (List Char × Json)) :
    (obj ((key, v) :: members)).member key = v :: (obj members).member key := by
  simp [member]

theorem member_other {key name : List Char} (h : name ≠ key) (v : Json)
    (members : List (List Char × Json)) :
    (obj ((name, v) :: members)).member key = (obj members).member key := by
  simp [member, h]

/-! ## Encoded text -/

/-- What follows the first byte of a character: how many bytes, and the
    least and the greatest number that the next one has. -/
def leadByte (b : Nat) : Option (Nat × Nat × Nat) :=
  if b < 0x80 then some (0, 0x80, 0xBF)
  else if 0xC2 ≤ b ∧ b ≤ 0xDF then some (1, 0x80, 0xBF)
  -- no longer encoding than needed, and no surrogates
  else if b = 0xE0 then some (2, 0xA0, 0xBF)
  else if b = 0xED then some (2, 0x80, 0x9F)
  else if 0xE1 ≤ b ∧ b ≤ 0xEF then some (2, 0x80, 0xBF)
  else if b = 0xF0 then some (3, 0x90, 0xBF)
  else if 0xF1 ≤ b ∧ b ≤ 0xF3 then some (3, 0x80, 0xBF)
  else if b = 0xF4 then some (3, 0x80, 0x8F)
  else none

/-- UTF-8 behind the first bytes of a character, which `owed` bytes end. -/
def utf8From : (owed low high : Nat) → List Char → Bool
  | 0, _, _, [] => true
  | _ + 1, _, _, [] => false
  | 0, _, _, c :: t =>
    match leadByte c.toNat with
    | some (owed, low, high) => utf8From owed low high t
    | none => false
  | owed + 1, low, high, c :: t =>
    decide (low ≤ c.toNat ∧ c.toNat ≤ high) && utf8From owed 0x80 0xBF t

/-- The bytes are the encoding of a text. -/
def utf8 (t : List Char) : Bool := utf8From 0 0x80 0xBF t

/-- The bytes of a character. -/
def utf8Encode (n : Nat) : List Char :=
  if n < 0x80 then [Char.ofNat n]
  else if n < 0x800 then [Char.ofNat (0xC0 + n / 64), Char.ofNat (0x80 + n % 64)]
  else if n < 0x10000 then
    [Char.ofNat (0xE0 + n / 4096), Char.ofNat (0x80 + n / 64 % 64), Char.ofNat (0x80 + n % 64)]
  else
    [Char.ofNat (0xF0 + n / 262144), Char.ofNat (0x80 + n / 4096 % 64),
      Char.ofNat (0x80 + n / 64 % 64), Char.ofNat (0x80 + n % 64)]

/-! ## The grammar -/

/-- What reads a value from the front of a text, with the rest of the text. -/
abbrev Scanner (α : Type) := List Char → Option (α × List Char)

/-- White space. -/
def isWs (c : Char) : Bool := c = ' ' || c = '\t' || c = '\n' || c = '\r'

/-- What is left behind white space. -/
def skipWs (t : List Char) : List Char := t.dropWhile isWs

/-- What a string is made of: bytes, and the UTF-16 units that are escaped. -/
inductive Piece where
  | byte (c : Char)
  | unit (n : Nat)

/-- The character behind a backslash, but for `u`. -/
def simpleEscape (c : Char) : Option Char :=
  if c = '"' ∨ c = '\\' ∨ c = '/' then some c
  else if c = 'b' then some '\x08'
  else if c = 'f' then some '\x0c'
  else if c = 'n' then some '\n'
  else if c = 'r' then some '\r'
  else if c = 't' then some '\t'
  else none

/-- Four hex digits. -/
def hex4 (a b c d : Char) : Option Nat :=
  match hexValue a, hexValue b, hexValue c, hexValue d with
  | some a, some b, some c, some d => some (((a * 16 + b) * 16 + c) * 16 + d)
  | _, _, _, _ => none

/-- A piece in front of what was read. -/
def withPiece (p : Piece) (x : Option (List Piece × List Char)) :
    Option (List Piece × List Char) :=
  x.map fun x => (p :: x.1, x.2)

/-- The pieces of a string, up to its closing quote. -/
def pieces : Scanner (List Piece)
  | [] => none
  | c :: t =>
    if c = '"' then some ([], t)
    else if c = '\\' then
      match t with
      | [] => none
      | e :: t =>
        if e = 'u' then
          match t with
          | a :: b :: x :: y :: t => (hex4 a b x y).bind fun n => withPiece (.unit n) (pieces t)
          | _ => none
        else (simpleEscape e).bind fun x => withPiece (.byte x) (pieces t)
    else if c.toNat < 0x20 then none
    else withPiece (.byte c) (pieces t)

/-- The units are a high and a low surrogate. -/
def surrogates (n m : Nat) : Bool :=
  decide ((0xD800 ≤ n ∧ n < 0xDC00) ∧ 0xDC00 ≤ m ∧ m < 0xE000)

/-- The bytes of a string. -/
def joinPieces : List Piece → List Char
  | [] => []
  | .byte c :: ps => c :: joinPieces ps
  | .unit n :: .unit m :: ps =>
    if surrogates n m then
      utf8Encode (0x10000 + (n - 0xD800) * 0x400 + (m - 0xDC00)) ++ joinPieces ps
    else utf8Encode n ++ joinPieces (.unit m :: ps)
  | .unit n :: ps => utf8Encode n ++ joinPieces ps

/-- A string, behind its opening quote. -/
def string (t : List Char) : Option (List Char × List Char) :=
  (pieces t).map fun x => (joinPieces x.1, x.2)

/-- One digit or more. -/
def digits (t : List Char) : Option (List Char × List Char) :=
  let front := t.takeWhile Char.isDigit
  if front = [] then none else some (front, t.dropWhile Char.isDigit)

/-- The integer part of a number: no zero in front of other digits. -/
def intPart : Scanner (List Char)
  | '0' :: t => some (['0'], t)
  | t => digits t

/-- The fraction, if there is one. -/
def fracPart : Scanner (List Char)
  | '.' :: t => (digits t).map fun x => ('.' :: x.1, x.2)
  | t => some ([], t)

/-- The exponent, if there is one. -/
def expPart : Scanner (List Char)
  | [] => some ([], [])
  | c :: t =>
    if c = 'e' ∨ c = 'E' then
      match t with
      | '+' :: t => (digits t).map fun x => (c :: '+' :: x.1, x.2)
      | '-' :: t => (digits t).map fun x => (c :: '-' :: x.1, x.2)
      | t => (digits t).map fun x => (c :: x.1, x.2)
    else some ([], c :: t)

/-- A number without a sign. -/
def unsigned (t : List Char) : Option (List Char × List Char) :=
  match intPart t with
  | none => none
  | some (int, t) =>
    match fracPart t with
    | none => none
    | some (frac, t) => (expPart t).map fun x => (int ++ frac ++ x.1, x.2)

/-- A number. -/
def number : Scanner (List Char)
  | '-' :: t => (unsigned t).map fun x => ('-' :: x.1, x.2)
  | t => unsigned t

/-- A given text: what is left behind it. -/
def literal : (s t : List Char) → Option (List Char)
  | [], t => some t
  | _ :: _, [] => none
  | a :: s, c :: t => if a = c then literal s t else none

/-- Items with commas between them, at most `n`, up to the closing bracket. -/
def items {α : Type} (close : Char) (item : Scanner α) : (n : Nat) → Scanner (List α)
  | 0, _ => none
  | n + 1, t =>
    match item t with
    | none => none
    | some (x, t) =>
      match skipWs t with
      | [] => none
      | c :: t =>
        if c = close then some ([x], t)
        else if c = ',' then (items close item n (skipWs t)).map fun y => (x :: y.1, y.2)
        else none

/-- The same, or no items at all. -/
def closedList {α : Type} (close : Char) (item : Scanner α) (n : Nat) (t : List Char) :
    Option (List α × List Char) :=
  match skipWs t with
  | [] => none
  | c :: t => if c = close then some ([], t) else items close item n (c :: t)

/-- A member of an object. -/
def pair (item : Scanner Json) : Scanner (List Char × Json)
  | [] => none
  | c :: t =>
    if c = '"' then
      match string t with
      | none => none
      | some (key, t) =>
        match skipWs t with
        | [] => none
        | c :: t => if c = ':' then (item (skipWs t)).map fun x => ((key, x.1), x.2) else none
    else none

/-- A value. -/
def value : (n : Nat) → Scanner Json
  | 0, _ => none
  | _ + 1, [] => none
  | n + 1, c :: t =>
    if c = '"' then (string t).map fun x => (.str x.1, x.2)
    else if c = '[' then (closedList ']' (value n) n t).map fun x => (.arr x.1, x.2)
    else if c = '{' then (closedList '}' (pair (value n)) n t).map fun x => (.obj x.1, x.2)
    else if c = 't' then (literal "rue".toList t).map fun t => (.bool true, t)
    else if c = 'f' then (literal "alse".toList t).map fun t => (.bool false, t)
    else if c = 'n' then (literal "ull".toList t).map fun t => (.null, t)
    else (number (c :: t)).map fun x => (.num x.1, x.2)

/-- With enough room, `x` is read from the front of `t`, and `r` is left. -/
def Gives {α : Type} (f : Nat → Scanner α) (t : List Char) (x : α) (r : List Char) : Prop :=
  ∃ n, f n t = some (x, r)

/-- A well formed text, and its value. -/
def IsText (t : List Char) (v : Json) : Prop :=
  utf8 t ∧ ∃ r, Gives value (skipWs t) v r ∧ skipWs r = []

/-! ## ASCII in UTF-8 -/

theorem leadByte_low {b owed low high : Nat} (h : leadByte b = some (owed, low, high)) :
    0x80 ≤ low := by
  unfold leadByte at h
  split_ifs at h
  all_goals
    simp only [Option.some.injEq, Prod.mk.injEq] at h
    omega

/-- An ASCII byte ends the character in front of it. -/
theorem utf8From_ascii {c : Char} (hc : c.toNat < 0x80) (a t : List Char) (owed low high : Nat)
    (hlow : 0x80 ≤ low) :
    utf8From owed low high (a ++ c :: t) = (utf8From owed low high a && utf8 t) := by
  induction a generalizing owed low high with
  | nil =>
    cases owed with
    | zero =>
      have hlead : leadByte c.toNat = some (0, 0x80, 0xBF) := if_pos hc
      simp only [List.nil_append, utf8From, hlead, Bool.true_and]
      rfl
    | succ owed =>
      have hrange : ¬ (low ≤ c.toNat ∧ c.toNat ≤ high) := by omega
      simp [utf8From, hrange]
  | cons b a ih =>
    cases owed with
    | zero =>
      simp only [List.cons_append, utf8From]
      cases hlead : leadByte b.toNat with
      | none => rfl
      | some next =>
        obtain ⟨owed, low, high⟩ := next
        exact ih owed low high (leadByte_low hlead)
    | succ owed =>
      simp only [List.cons_append, utf8From]
      rw [ih owed 0x80 0xBF (by decide), Bool.and_assoc]

theorem utf8_cut {c : Char} (hc : c.toNat < 0x80) (a t : List Char) :
    utf8 (a ++ c :: t) = (utf8 a && utf8 t) :=
  utf8From_ascii hc a t 0 0x80 0xBF (by decide)

/-- ASCII in front changes nothing. -/
theorem utf8_ascii_append {a : List Char} (ha : ∀ c ∈ a, c.toNat < 0x80) (t : List Char) :
    utf8 (a ++ t) = utf8 t := by
  induction a with
  | nil => rfl
  | cons c a ih =>
    have hcut := utf8_cut (ha c (by simp)) [] (a ++ t)
    rw [List.nil_append, show utf8 [] = true from rfl, Bool.true_and] at hcut
    rw [List.cons_append, hcut]
    exact ih fun x hx => ha x (by simp [hx])

/-! ## Strings -/

/-- A character that a string has as it is. -/
def Plain (c : Char) : Prop := 0x20 ≤ c.toNat ∧ c ≠ '"' ∧ c ≠ '\\'

instance (c : Char) : Decidable (Plain c) := inferInstanceAs (Decidable (_ ∧ _))

theorem plain_of_all {s : List Char} (h : s.all fun c => decide (Plain c)) : ∀ c ∈ s, Plain c :=
  fun c hc => of_decide_eq_true (List.all_eq_true.mp h c hc)

theorem withPiece_eq_some {p : Piece} {x : Option (List Piece × List Char)} {ps : List Piece}
    {r : List Char} (h : withPiece p x = some (ps, r)) : ∃ qs, x = some (qs, r) ∧ ps = p :: qs := by
  unfold withPiece at h
  obtain ⟨⟨qs, r'⟩, hx, heq⟩ := Option.map_eq_some_iff.mp h
  simp only [Prod.mk.injEq] at heq
  exact ⟨qs, by rw [hx, heq.2], heq.1.symm⟩

theorem pieces_quote (t : List Char) : pieces ('"' :: t) = some ([], t) := by
  rw [pieces.eq_def]
  rfl

theorem pieces_byte {c : Char} (hc : Plain c) (t : List Char) :
    pieces (c :: t) = withPiece (.byte c) (pieces t) := by
  obtain ⟨hlow, hquote, hslash⟩ := hc
  rw [pieces.eq_def]
  dsimp only
  rw [if_neg hquote, if_neg hslash, if_neg (by omega)]

theorem pieces_control {c : Char} (hc : c.toNat < 0x20) (t : List Char) :
    pieces (c :: t) = none := by
  have hne : ∀ d : Char, 0x20 ≤ d.toNat → c ≠ d := by
    intro d hd heq
    rw [heq] at hc
    omega
  rw [pieces.eq_def]
  dsimp only
  rw [if_neg (hne _ (by decide)), if_neg (hne _ (by decide)), if_pos hc]

theorem pieces_escape {e : Char} (he : e ≠ 'u') (t : List Char) :
    pieces ('\\' :: e :: t) = (simpleEscape e).bind fun x => withPiece (.byte x) (pieces t) := by
  rw [pieces.eq_def]
  dsimp only
  rw [if_neg (by decide), if_pos rfl, if_neg he]

theorem pieces_hex (a b x y : Char) (t : List Char) :
    pieces ('\\' :: 'u' :: a :: b :: x :: y :: t) =
      (hex4 a b x y).bind fun n => withPiece (.unit n) (pieces t) := by
  rw [pieces.eq_def]
  dsimp only
  rw [if_neg (by decide), if_pos rfl, if_pos rfl]

theorem pieces_plain {s : List Char} (hs : ∀ c ∈ s, Plain c) (t : List Char) :
    pieces (s ++ '"' :: t) = some (s.map .byte, t) := by
  induction s with
  | nil => exact pieces_quote t
  | cons c s ih =>
    rw [List.cons_append, pieces_byte (hs c (by simp)), ih fun x hx => hs x (by simp [hx])]
    rfl

theorem joinPieces_map_byte (s : List Char) : joinPieces (s.map .byte) = s := by
  induction s with
  | nil => rfl
  | cons c s ih => rw [List.map_cons, joinPieces, ih]

/-- Plain characters are read as they are. -/
theorem string_plain {s : List Char} (hs : ∀ c ∈ s, Plain c) (t : List Char) :
    string (s ++ '"' :: t) = some (s, t) := by
  rw [string, pieces_plain hs, Option.map_some, joinPieces_map_byte]

/-- A surrogate pair, and a line feed. -/
example : string "\\ud83d\\ude00\\n\"".toList = some (utf8Encode 0x1F600 ++ ['\n'], []) := by
  decide +kernel

/-- The most bytes that a piece stands for. -/
def Piece.width : Piece → Nat
  | .byte _ => 1
  | .unit _ => 4

/-- The most bytes that pieces stand for. -/
def width (ps : List Piece) : Nat := (ps.map Piece.width).sum

theorem width_cons (p : Piece) (ps : List Piece) : width (p :: ps) = p.width + width ps := rfl

theorem utf8Encode_length_le (n : Nat) : (utf8Encode n).length ≤ 4 := by
  unfold utf8Encode
  split_ifs
  all_goals simp

theorem joinPieces_length_le (ps : List Piece) : (joinPieces ps).length ≤ width ps := by
  induction ps using joinPieces.induct with
  | case1 => exact Nat.le_refl 0
  | case2 c ps ih =>
    simp only [joinPieces, width_cons, Piece.width, List.length_cons]
    omega
  | case3 n m ps hpair ih =>
    have hlen := utf8Encode_length_le (0x10000 + (n - 0xD800) * 0x400 + (m - 0xDC00))
    simp only [joinPieces, if_pos hpair, width_cons, Piece.width, List.length_append]
    omega
  | case4 n m ps hpair ih =>
    have hlen := utf8Encode_length_le n
    simp only [joinPieces, if_neg hpair, width_cons, Piece.width, List.length_append] at ih ⊢
    omega
  | case5 n ps hnext ih =>
    have hlen := utf8Encode_length_le n
    rw [joinPieces]
    · simp only [width_cons, Piece.width, List.length_append]
      omega
    · exact hnext

theorem joinPieces_byte (ps qs : List Piece) (c : Char) :
    joinPieces (ps ++ .byte c :: qs) = joinPieces ps ++ c :: joinPieces qs := by
  induction ps using joinPieces.induct with
  | case1 => rfl
  | case2 x ps ih => simp only [List.cons_append, joinPieces, ih]
  | case3 n m ps hpair ih =>
    simp only [List.cons_append, joinPieces, if_pos hpair, ih, List.append_assoc]
  | case4 n m ps hpair ih =>
    simp only [List.cons_append, joinPieces, if_neg hpair, List.append_assoc] at ih ⊢
    rw [ih]
  | case5 n ps hnext ih =>
    rw [List.cons_append, joinPieces, joinPieces, ih, List.append_assoc]
    · exact hnext
    · intro m rest heq
      cases ps with
      | nil => cases heq
      | cons p ps =>
        rw [List.cons_append, List.cons.injEq] at heq
        exact hnext m ps (by rw [heq.1])

/-- What the pieces are that are read of `s` with a quote, a comma and another
    quote behind it: `s` itself, fewer bytes than `s` has, or more than `s`,
    when its last backslash escapes the quote. -/
inductive Cut (s : List Char) (ps : List Piece) : Prop where
  | whole (plain : ∀ c ∈ s, Plain c) (hwidth : width ps ≤ s.length)
  | fewer (hwidth : width ps < s.length)
  | past (front : List Piece) (hlast : s.getLast? = some '\\')
      (hpieces : ps = front ++ [.byte '"', .byte ','])

theorem Cut.escaped {s front : List Char} {ps : List Piece} {p : Piece} (h : Cut s ps)
    (hp : p.width < front.length) : Cut (front ++ s) (p :: ps) := by
  cases h with
  | whole plain hwidth =>
    refine .fewer ?_
    rw [width_cons, List.length_append]
    omega
  | fewer hwidth =>
    refine .fewer ?_
    rw [width_cons, List.length_append]
    omega
  | past rest hlast hpieces =>
    refine .past (p :: rest) ?_ (by rw [hpieces, List.cons_append])
    rw [List.getLast?_append, hlast, Option.some_or]

theorem Cut.plain {s : List Char} {ps : List Piece} {c : Char} (h : Cut s ps) (hc : Plain c) :
    Cut (c :: s) (.byte c :: ps) := by
  cases h with
  | whole plain hwidth =>
    refine .whole (fun x hx => ?_) ?_
    · rcases List.mem_cons.mp hx with heq | hmem
      · rw [heq]
        exact hc
      · exact plain x hmem
    · rw [width_cons, Piece.width, List.length_cons]
      omega
  | fewer hwidth =>
    refine .fewer ?_
    rw [width_cons, Piece.width, List.length_cons]
    omega
  | past rest hlast hpieces =>
    refine .past (.byte c :: rest) ?_ (by rw [hpieces, List.cons_append])
    rw [List.getLast?_cons, hlast]
    rfl

theorem hex4_quote {a b c d : Char} (h : a = '"' ∨ b = '"' ∨ c = '"' ∨ d = '"') :
    hex4 a b c d = none := by
  have hquote : hexValue '"' = none := by decide
  unfold hex4
  rcases h with h | h | h | h
  all_goals simp [h, hquote]

/-- What stands behind `\u`: four characters of `s`, or the quote. -/
theorem pieces_unit {s t r : List Char} {ps : List Piece}
    (h : pieces ('\\' :: 'u' :: (s ++ '"' :: ',' :: '"' :: t)) = some (ps, r)) :
    ∃ a b x y rest n, s = a :: b :: x :: y :: rest ∧
      ∃ qs, pieces (rest ++ '"' :: ',' :: '"' :: t) = some (qs, r) ∧ ps = .unit n :: qs := by
  have hnone : ∀ a b x y rest, (a = '"' ∨ b = '"' ∨ x = '"' ∨ y = '"') →
      pieces ('\\' :: 'u' :: a :: b :: x :: y :: rest) = none := by
    intro a b x y rest hquote
    rw [pieces_hex, hex4_quote hquote]
    rfl
  match s with
  | [] =>
    cases t with
    | nil => simp [pieces] at h
    | cons y t =>
      rw [List.nil_append, hnone _ _ _ _ _ (Or.inl rfl)] at h
      cases h
  | [a] =>
    rw [List.cons_append, List.nil_append, hnone _ _ _ _ _ (by simp)] at h
    cases h
  | [a, b] =>
    rw [List.cons_append, List.cons_append, List.nil_append, hnone _ _ _ _ _ (by simp)] at h
    cases h
  | [a, b, x] =>
    simp only [List.cons_append, List.nil_append] at h
    rw [hnone _ _ _ _ _ (by simp)] at h
    cases h
  | a :: b :: x :: y :: rest =>
    simp only [List.cons_append, pieces_hex] at h
    obtain ⟨n, -, hpiece⟩ := Option.bind_eq_some_iff.mp h
    exact ⟨a, b, x, y, rest, n, rfl, withPiece_eq_some hpiece⟩

theorem pieces_cut {s t r : List Char} {ps : List Piece}
    (h : pieces (s ++ '"' :: ',' :: '"' :: t) = some (ps, r)) : Cut s ps := by
  induction hn : s.length using Nat.strong_induction_on generalizing s ps with
  | _ n ih =>
    match s with
    | [] =>
      rw [List.nil_append, pieces_quote] at h
      simp only [Option.some.injEq, Prod.mk.injEq] at h
      rw [← h.1]
      exact .whole (fun c hc => by cases hc) (Nat.le_refl 0)
    | c :: s =>
      by_cases hquote : c = '"'
      · -- the string ends here
        rw [hquote, List.cons_append, pieces_quote] at h
        simp only [Option.some.injEq, Prod.mk.injEq] at h
        rw [← h.1]
        exact .fewer (Nat.succ_pos _)
      · by_cases hslash : c = '\\'
        · rw [hslash] at h hn ⊢
          match s with
          | [] =>
            -- the backslash escapes the quote, and the next one ends the string
            refine .past [] rfl ?_
            rw [List.cons_append, List.nil_append, pieces_escape (by decide)] at h
            obtain ⟨x, hx, hpiece⟩ := Option.bind_eq_some_iff.mp h
            obtain ⟨qs, hrest, hps⟩ := withPiece_eq_some hpiece
            have hsame : '"' = x := Option.some.inj hx
            rw [pieces_byte (by decide), pieces_quote] at hrest
            simp only [withPiece, Option.map_some, Option.some.injEq, Prod.mk.injEq] at hrest
            rw [hps, ← hrest.1, ← hsame]
            rfl
          | e :: s =>
            by_cases hu : e = 'u'
            · rw [hu] at h hn ⊢
              obtain ⟨a, b, x, y, rest, m, hs, qs, hrest, hps⟩ := pieces_unit h
              rw [hs] at hn ⊢
              rw [hps]
              have hcut := ih rest.length (by simp only [List.length_cons] at hn; omega) hrest rfl
              have hwidth : (Piece.unit m).width < ['\\', 'u', a, b, x, y].length :=
                show 4 < 6 by decide
              exact hcut.escaped hwidth
            · rw [List.cons_append, List.cons_append, pieces_escape hu] at h
              obtain ⟨x, -, hpiece⟩ := Option.bind_eq_some_iff.mp h
              obtain ⟨qs, hrest, hps⟩ := withPiece_eq_some hpiece
              rw [hps]
              have hcut := ih s.length (by simp only [List.length_cons] at hn; omega) hrest rfl
              have hwidth : (Piece.byte x).width < ['\\', e].length := show 1 < 2 by decide
              exact hcut.escaped hwidth
        · by_cases hlow : c.toNat < 0x20
          · rw [List.cons_append, pieces_control hlow] at h
            cases h
          · have hplain : Plain c := ⟨by omega, hquote, hslash⟩
            rw [List.cons_append, pieces_byte hplain] at h
            obtain ⟨qs, hrest, hps⟩ := withPiece_eq_some h
            rw [hps]
            have hcut := ih s.length (by simp only [List.length_cons] at hn; omega) hrest rfl
            exact hcut.plain hplain

/-- **A string that was not escaped** is read back only if nothing in it had
    to be. -/
theorem string_spoilt {s t r : List Char}
    (h : string (s ++ '"' :: ',' :: '"' :: t) = some (s, r)) : ∀ c ∈ s, Plain c := by
  unfold string at h
  obtain ⟨⟨ps, r'⟩, hpieces, heq⟩ := Option.map_eq_some_iff.mp h
  simp only [Prod.mk.injEq] at heq
  have hjoin : joinPieces ps = s := heq.1
  cases pieces_cut hpieces with
  | whole plain hwidth => exact plain
  | fewer hwidth =>
    have hlen := joinPieces_length_le ps
    rw [hjoin] at hlen
    omega
  | past front hlast hps =>
    -- what was read ends with the comma
    rw [hps, joinPieces_byte] at hjoin
    rw [← hjoin] at hlast
    simp [joinPieces] at hlast

end Json
