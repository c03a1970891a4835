import Mathlib
import Libms.Framework.CInt

/-! # Formatted text

    The part of `printf` and `scanf` that header lines are made with:
    decimal numbers of type `int64_t` between fixed text.

    * `printInt`: `%lld`. A natural number is printed by `Nat.toDigits`.
    * `scanInt`: one conversion `%lld` of a `scanf` family function. It
      skips white space, takes an optional sign and the digits behind it,
      and clamps what does not fit.
    * `scanf`: a format as a list of directives; the values assigned before
      the first directive that fails. `written` are the numbers that stand
      there, before they are clamped.
    * `scanInt_printInt`, `scanf_lits`, `scanf_int`: what was printed is
      scanned again. -/

namespace Text

/-! ## Printing -/

/-- `%lld` -/
def printInt (z : Int) : List Char :=
  if z < 0 then '-' :: Nat.toDigits 10 z.natAbs else Nat.toDigits 10 z.natAbs

/-- `snprintf` into `size` bytes: the text, cut to make room for the NUL. -/
def snprintf (size : Nat) (text : List Char) : List Char := text.take (size - 1)

/-! ## Scanning -/

/-- `isspace` -/
def isSpace (c : Char) : Bool := c.toNat == 32 || (9 ≤ c.toNat && c.toNat ≤ 13)

/-- What is left behind leading white space. -/
def skipSpace (t : List Char) : List Char := t.dropWhile isSpace

/-- An optional sign: whether it is a minus, and the rest. -/
def scanSign : List Char → Bool × List Char
  | '-' :: t => (true, t)
  | '+' :: t => (false, t)
  | t => (false, t)

/-- The nearest `int64_t`. -/
def clampInt64 (z : Int) : Int := max (-2 ^ 63) (min z (2 ^ 63 - 1))

/-- One `%lld`: the value and the rest of the text, `none` without a digit. -/
def scanInt (t : List Char) : Option (Int × List Char) :=
  let (negative, t) := scanSign (skipSpace t)
  let digits := t.takeWhile Char.isDigit
  if digits = [] then none
  else
    let n : Int := Nat.ofDigitChars 10 digits 0
    some (clampInt64 (if negative then -n else n), t.dropWhile Char.isDigit)

/-- The number that stands at the front of a text, of any size. -/
def readInt (t : List Char) : Option (Int × List Char) :=
  let (negative, t) := scanSign (skipSpace t)
  let digits := t.takeWhile Char.isDigit
  if digits = [] then none
  else
    let n : Int := Nat.ofDigitChars 10 digits 0
    some (if negative then -n else n, t.dropWhile Char.isDigit)

/-- `strtoll` in base ten: zero for a text without a number. -/
def strtoll (t : List Char) : Int :=
  match scanInt t with
  | some (z, _) => z
  | none => 0

/-- What a format is made of. -/
inductive Directive where
  | lit (c : Char)
  | space
  | int

/-- A text without conversions as a format. -/
def lits (s : List Char) : List Directive := s.map .lit

/-- The values a `scanf` function assigns. -/
def scanf : List Directive → List Char → List Int
  | [], _ => []
  | .lit c :: ds, t =>
    match t with
    | [] => []
    | c' :: t => if c' = c then scanf ds t else []
  | .space :: ds, t => scanf ds (skipSpace t)
  | .int :: ds, t =>
    match scanInt t with
    | some (z, t) => z :: scanf ds t
    | none => []

/-- The numbers that a text writes where a format has a conversion. -/
def written : List Directive → List Char → List Int
  | [], _ => []
  | .lit c :: ds, t =>
    match t with
    | [] => []
    | c' :: t => if c' = c then written ds t else []
  | .space :: ds, t => written ds (skipSpace t)
  | .int :: ds, t =>
    match readInt t with
    | some (z, t) => z :: written ds t
    | none => []

/-- `isxdigit`, with the value of the digit. -/
def hexValue (c : Char) : Option Nat :=
  if c.isDigit then some (c.toNat - 48)
  else if 97 ≤ c.toNat ∧ c.toNat ≤ 102 then some (c.toNat - 87)
  else if 65 ≤ c.toNat ∧ c.toNat ≤ 70 then some (c.toNat - 55)
  else none

/-- A decimal numeral without a sign: digits, leading zeros allowed. -/
structure Numeral (t : List Char) (z : Int) : Prop where
  nonempty : t ≠ []
  digits : ∀ c ∈ t, c.isDigit
  value : z = (Nat.ofDigitChars 10 t 0 : Nat)

/-! ## Round trips -/

/-- The text does not go on with a digit. -/
def NoDigitNext (t : List Char) : Prop := t.takeWhile Char.isDigit = []

theorem noDigitNext_nil : NoDigitNext [] := rfl

theorem noDigitNext_cons {c : Char} {t : List Char} (h : c.isDigit = false) :
    NoDigitNext (c :: t) := by
  simp [NoDigitNext, h]

theorem takeWhile_digits {digits t : List Char} (hdigits : ∀ c ∈ digits, c.isDigit)
    (ht : NoDigitNext t) : (digits ++ t).takeWhile Char.isDigit = digits := by
  induction digits with
  | nil => exact ht
  | cons c cs ih =>
    have hc : c.isDigit = true := hdigits c (by simp)
    rw [List.cons_append, List.takeWhile_cons_of_pos hc]
    rw [ih fun x hx => hdigits x (by simp [hx])]

theorem dropWhile_digits {digits t : List Char} (hdigits : ∀ c ∈ digits, c.isDigit)
    (ht : NoDigitNext t) : (digits ++ t).dropWhile Char.isDigit = t := by
  have h := List.takeWhile_append_dropWhile (p := Char.isDigit) (l := digits ++ t)
  rw [takeWhile_digits hdigits ht] at h
  exact List.append_cancel_left h

theorem isDigit_of_mem {n : Nat} {c : Char} (h : c ∈ Nat.toDigits 10 n) : c.isDigit :=
  Nat.isDigit_of_mem_toDigits (by decide) (by decide) h

/-- A digit is neither white space nor a sign. -/
theorem digit_ne {c : Char} (h : c.isDigit) : isSpace c = false ∧ c ≠ '-' ∧ c ≠ '+' := by
  have hrange : 48 ≤ c.toNat ∧ c.toNat ≤ 57 := by
    simpa [Char.isDigit, UInt32.le_iff_toNat_le] using h
  refine ⟨?_, ?_, ?_⟩
  · unfold isSpace
    simp only [Bool.or_eq_false_iff, beq_eq_false_iff_ne, Bool.and_eq_false_iff,
      decide_eq_false_iff_not]
    omega
  · rintro rfl
    exact absurd hrange.1 (by decide)
  · rintro rfl
    exact absurd hrange.1 (by decide)

/-- Digits are not skipped, and they have no sign. -/
theorem scanSign_skipSpace_digits {digits : List Char} (hne : digits ≠ [])
    (hdigits : ∀ c ∈ digits, c.isDigit) (t : List Char) :
    scanSign (skipSpace (digits ++ t)) = (false, digits ++ t) := by
  cases digits with
  | nil => exact absurd rfl hne
  | cons c cs =>
    obtain ⟨hspace, hminus, hplus⟩ := digit_ne (hdigits c (by simp))
    rw [List.cons_append, skipSpace, List.dropWhile_cons_of_neg (by simp [hspace])]
    unfold scanSign
    split
    · rename_i heq
      exact absurd (List.cons.inj heq).1 hminus
    · rename_i heq
      exact absurd (List.cons.inj heq).1 hplus
    · rfl

theorem clampInt64_of_range {z : Int} (h₀ : -2 ^ 63 ≤ z) (h₁ : z < 2 ^ 63) :
    clampInt64 z = z := by
  unfold clampInt64
  omega

/-- **Round trip.** A printed number of type `int64_t` scans as itself. -/
theorem scanInt_printInt {z : Int} (h₀ : -2 ^ 63 ≤ z) (h₁ : z < 2 ^ 63) {t : List Char}
    (ht : NoDigitNext t) : scanInt (printInt z ++ t) = some (z, t) := by
  have hdigits : ∀ c ∈ Nat.toDigits 10 z.natAbs, c.isDigit := fun c hc => isDigit_of_mem hc
  have hne : Nat.toDigits 10 z.natAbs ≠ [] := Nat.toDigits_ne_nil
  by_cases hneg : z < 0
  · have hsign : scanSign (skipSpace (printInt z ++ t)) =
        (true, Nat.toDigits 10 z.natAbs ++ t) := by
      rw [printInt, if_pos hneg]
      rfl
    simp only [scanInt, hsign, takeWhile_digits hdigits ht, dropWhile_digits hdigits ht,
      if_neg hne, Nat.ofDigitChars_ten_toDigits, if_true]
    rw [show -(z.natAbs : Int) = z by omega, clampInt64_of_range h₀ h₁]
  · have hsign : scanSign (skipSpace (printInt z ++ t)) =
        (false, Nat.toDigits 10 z.natAbs ++ t) := by
      rw [printInt, if_neg hneg]
      -- the first character is a digit, so nothing is skipped and there is no sign
      exact scanSign_skipSpace_digits hne hdigits t
    simp only [scanInt, hsign, takeWhile_digits hdigits ht, dropWhile_digits hdigits ht,
      if_neg hne, Nat.ofDigitChars_ten_toDigits, Bool.false_eq_true, if_false]
    rw [show (z.natAbs : Int) = z by omega, clampInt64_of_range h₀ h₁]

theorem strtoll_printInt {z : Int} (h₀ : -2 ^ 63 ≤ z) (h₁ : z < 2 ^ 63) :
    strtoll (printInt z) = z := by
  have h := scanInt_printInt h₀ h₁ noDigitNext_nil
  rw [List.append_nil] at h
  simp only [strtoll, h]

/-- Fixed text matches itself. -/
theorem scanf_lits (s : List Char) (ds : List Directive) (t : List Char) :
    scanf (lits s ++ ds) (s ++ t) = scanf ds t := by
  induction s with
  | nil => rfl
  | cons c s ih =>
    simp only [lits, List.map_cons, List.cons_append, scanf, if_true]
    exact ih

/-- A number does not start with white space. -/
theorem skipSpace_printInt (z : Int) (t : List Char) :
    skipSpace (printInt z ++ t) = printInt z ++ t := by
  have hdigits : ∀ c ∈ Nat.toDigits 10 z.natAbs, c.isDigit := fun c hc => isDigit_of_mem hc
  unfold printInt
  split
  · rfl
  · cases hcs : Nat.toDigits 10 z.natAbs with
    | nil => exact absurd hcs Nat.toDigits_ne_nil
    | cons c cs =>
      have hspace := (digit_ne (hdigits c (by rw [hcs]; simp))).1
      rw [List.cons_append, skipSpace, List.dropWhile_cons_of_neg (by simp [hspace])]

/-- A blank matches the blank before a printed number. -/
theorem scanf_space (ds : List Directive) (z : Int) (t : List Char) :
    scanf (.space :: ds) (' ' :: (printInt z ++ t)) = scanf ds (printInt z ++ t) := by
  have hblank : skipSpace (' ' :: (printInt z ++ t)) = skipSpace (printInt z ++ t) := rfl
  rw [scanf, hblank, skipSpace_printInt]

/-- A character matches itself. -/
theorem scanf_lit (c : Char) (ds : List Directive) (t : List Char) :
    scanf (.lit c :: ds) (c :: t) = scanf ds t :=
  scanf_lits [c] ds t

/-- A conversion takes a printed number. -/
theorem scanf_int {z : Int} (h₀ : -2 ^ 63 ≤ z) (h₁ : z < 2 ^ 63) (ds : List Directive)
    {t : List Char} (ht : NoDigitNext t) :
    scanf (.int :: ds) (printInt z ++ t) = z :: scanf ds t := by
  simp only [scanf, scanInt_printInt h₀ h₁ ht]

/-! ## Ranges -/

theorem clampInt64_range (z : Int) : -2 ^ 63 ≤ clampInt64 z ∧ clampInt64 z < 2 ^ 63 := by
  unfold clampInt64
  omega

/-- A scanned number is an `int64_t`. -/
theorem scanInt_range {t rest : List Char} {z : Int} (h : scanInt t = some (z, rest)) :
    -2 ^ 63 ≤ z ∧ z < 2 ^ 63 := by
  unfold scanInt at h
  simp only at h
  split at h
  · cases h
  · cases h
    exact clampInt64_range _

theorem scanf_range {ds : List Directive} {t : List Char} {z : Int} (h : z ∈ scanf ds t) :
    -2 ^ 63 ≤ z ∧ z < 2 ^ 63 := by
  induction ds generalizing t with
  | nil => cases h
  | cons d ds ih =>
    cases d with
    | lit c =>
      cases t with
      | nil => cases h
      | cons c' t =>
        simp only [scanf] at h
        split at h
        · exact ih h
        · cases h
    | space => exact ih h
    | int =>
      simp only [scanf] at h
      split at h
      · rename_i heq
        rcases List.mem_cons.mp h with hz | hlater
        · rw [hz]
          exact scanInt_range heq
        · exact ih hlater
      · cases h

/-! ## The numbers as they are written -/

theorem scanInt_eq_readInt (t : List Char) :
    scanInt t = (readInt t).map fun r => (clampInt64 r.1, r.2) := by
  unfold scanInt readInt
  simp only
  split
  · rfl
  · rfl

/-- `scanf` stores the numbers that are written, clamped. -/
theorem scanf_eq_written (ds : List Directive) (t : List Char) :
    scanf ds t = (written ds t).map clampInt64 := by
  induction ds generalizing t with
  | nil => rfl
  | cons d ds ih =>
    cases d with
    | lit c =>
      cases t with
      | nil => rfl
      | cons c' t =>
        simp only [scanf, written]
        split
        · exact ih t
        · rfl
    | space => exact ih (skipSpace t)
    | int =>
      simp only [scanf, written, scanInt_eq_readInt]
      cases readInt t with
      | none => rfl
      | some r => exact congrArg (clampInt64 r.1 :: ·) (ih r.2)

theorem Numeral.nonneg {t : List Char} {z : Int} (h : Numeral t z) : 0 ≤ z := by
  rw [h.value]
  exact Int.natCast_nonneg _

/-- A numeral is read as its value. -/
theorem Numeral.readInt {digits t : List Char} {z : Int} (h : Numeral digits z)
    (ht : NoDigitNext t) : readInt (digits ++ t) = some (z, t) := by
  simp only [Text.readInt, scanSign_skipSpace_digits h.nonempty h.digits,
    takeWhile_digits h.digits ht, dropWhile_digits h.digits ht, if_neg h.nonempty,
    Bool.false_eq_true, if_false, h.value]

/-- Fixed text is passed over. -/
theorem written_lits (s : List Char) (ds : List Directive) (t : List Char) :
    written (lits s ++ ds) (s ++ t) = written ds t := by
  induction s with
  | nil => rfl
  | cons c s ih =>
    simp only [lits, List.map_cons, List.cons_append, written, if_true]
    exact ih

theorem Numeral.written {digits t : List Char} {z : Int} (h : Numeral digits z)
    (ht : NoDigitNext t) (ds : List Directive) :
    written (.int :: ds) (digits ++ t) = z :: written ds t := by
  simp only [Text.written, h.readInt ht]

/-! ## Characters and lengths -/

/-- A printed number is made of digits and a sign. -/
theorem mem_printInt {z : Int} {c : Char} (h : c ∈ printInt z) : c = '-' ∨ c.isDigit := by
  unfold printInt at h
  split at h
  · rcases List.mem_cons.mp h with rfl | hc
    · exact Or.inl rfl
    · exact Or.inr (isDigit_of_mem hc)
  · exact Or.inr (isDigit_of_mem h)

theorem digit_ne_nul {c : Char} (h : c.isDigit) : c ≠ '\x00' := by
  intro hnul
  rw [hnul] at h
  exact absurd h (by decide)

/-- A printed number has no NUL. -/
theorem printInt_ne_nul {z : Int} {c : Char} (h : c ∈ printInt z) : c ≠ '\x00' := by
  rcases mem_printInt h with hdash | hdigit
  · rw [hdash]
    decide
  · exact digit_ne_nul hdigit

/-- A sign and the digits. -/
theorem printInt_length_le {z : Int} {k : Nat} (hk : 0 < k) (hz : z.natAbs < 10 ^ k) :
    (printInt z).length ≤ k + 1 := by
  have hlen : (Nat.toDigits 10 z.natAbs).length ≤ k :=
    (Nat.length_toDigits_le_iff (by decide) hk).mpr hz
  unfold printInt
  split
  · rw [List.length_cons]
    omega
  · omega

/-- A printed `int64_t` has twenty characters at most. -/
theorem printInt_length {z : Int} (h₀ : -2 ^ 63 ≤ z) (h₁ : z < 2 ^ 63) :
    (printInt z).length ≤ 20 :=
  printInt_length_le (by decide) (by omega)

theorem length_snprintf_le (size : Nat) (text : List Char) :
    (snprintf size text).length ≤ size := by
  unfold snprintf
  rw [List.length_take]
  omega

theorem snprintf_of_lt {size : Nat} {text : List Char} (h : text.length < size) :
    snprintf size text = text :=
  List.take_of_length_le (by omega)

end Text
