import Mathlib
import Libms.Framework.Json

/-! # Reading JSON texts

    The rules by which a text that was put together is read, and by which
    what was read is taken apart.

    * `Gives.unique`: a text is read in one way.
    * `gives_items_last`, `gives_items_cons`, `items_of_gives`: lists between
      brackets. There are such rules for each kind of value.
    * `Spells`: a text that is read as a value whatever comes behind it, with
      one rule for each way to put a text together. -/

open Text

namespace Json

/-! ## Numbers -/

/-- What may follow an item: a comma, or a closing bracket. -/
def Delimited (t : List Char) : Prop := ∃ c r, t = c :: r ∧ (c = ',' ∨ c = ']' ∨ c = '}')

theorem Delimited.noDigitNext {t : List Char} (h : Delimited t) : NoDigitNext t := by
  obtain ⟨c, r, ht, hc⟩ := h
  rw [ht]
  apply noDigitNext_cons
  rcases hc with hc | hc | hc
  all_goals
    rw [hc]
    decide

/-- A number of more than one digit does not begin with a zero. -/
theorem toDigits_head {n : Nat} (hn : 0 < n) : ∃ c t, Nat.toDigits 10 n = c :: t ∧ c ≠ '0' := by
  induction n using Nat.strong_induction_on with
  | _ n ih =>
    have hdigit : ∀ d < 10, 0 < d → d.digitChar ≠ '0' := by decide
    by_cases hlt : n < 10
    · exact ⟨n.digitChar, [], Nat.toDigits_of_lt_base hlt, hdigit n hlt hn⟩
    · obtain ⟨c, t, ht, hc⟩ := ih (n / 10) (by omega) (by omega)
      refine ⟨c, t ++ [(n % 10).digitChar], ?_, hc⟩
      rw [Nat.toDigits_of_base_le (by decide) (by omega), ht, List.cons_append]

theorem digits_append {ds t : List Char} (hne : ds ≠ []) (hds : ∀ c ∈ ds, c.isDigit)
    (ht : NoDigitNext t) : digits (ds ++ t) = some (ds, t) := by
  unfold digits
  dsimp only
  rw [takeWhile_digits hds ht, dropWhile_digits hds ht, if_neg hne]

theorem intPart_toDigits (n : Nat) {t : List Char} (ht : NoDigitNext t) :
    intPart (Nat.toDigits 10 n ++ t) = some (Nat.toDigits 10 n, t) := by
  have hdigits : digits (Nat.toDigits 10 n ++ t) = some (Nat.toDigits 10 n, t) :=
    digits_append Nat.toDigits_ne_nil (fun c hc => isDigit_of_mem hc) ht
  by_cases hn : n = 0
  · rw [hn, Nat.toDigits_zero]
    rfl
  · obtain ⟨c, r, hhead, hc⟩ := toDigits_head (Nat.pos_of_ne_zero hn)
    rw [← hdigits, hhead, List.cons_append]
    unfold intPart
    split
    · rename_i r' heq
      exact absurd (List.cons.inj heq).1 hc
    · rfl

theorem fracPart_delimited {t : List Char} (h : Delimited t) : fracPart t = some ([], t) := by
  obtain ⟨c, r, ht, hc⟩ := h
  rw [ht]
  rcases hc with hc | hc | hc
  all_goals
    rw [hc]
    rfl

theorem expPart_delimited {t : List Char} (h : Delimited t) : expPart t = some ([], t) := by
  obtain ⟨c, r, ht, hc⟩ := h
  rw [ht]
  rcases hc with hc | hc | hc
  all_goals
    rw [hc]
    rfl

theorem unsigned_toDigits (n : Nat) {t : List Char} (h : Delimited t) :
    unsigned (Nat.toDigits 10 n ++ t) = some (Nat.toDigits 10 n, t) := by
  unfold unsigned
  simp only [intPart_toDigits n h.noDigitNext, fracPart_delimited h, expPart_delimited h]
  simp

/-- A printed number is read as it is written. -/
theorem number_printInt (z : Int) {t : List Char} (h : Delimited t) :
    number (printInt z ++ t) = some (printInt z, t) := by
  unfold printInt
  split
  · rw [List.cons_append]
    simp only [number, unsigned_toDigits _ h, Option.map_some]
  · have hunsigned := unsigned_toDigits z.natAbs h
    obtain ⟨c, r, hhead⟩ := List.exists_cons_of_ne_nil (@Nat.toDigits_ne_nil z.natAbs 10)
    have hdash : c ≠ '-' := by
      intro heq
      have hdigit : c.isDigit := isDigit_of_mem (n := z.natAbs) (by rw [hhead]; simp)
      rw [heq] at hdigit
      exact absurd hdigit (by decide)
    rw [hhead] at hunsigned ⊢
    rw [← hunsigned, List.cons_append]
    unfold number
    split
    · rename_i r' heq
      exact absurd (List.cons.inj heq).1 hdash
    · rfl

/-! ## More room -/

/-- More room reads the same. -/
def Growing {α : Type} (f : Nat → Scanner α) : Prop :=
  ∀ n t p, f n t = some p → f (n + 1) t = some p

section rules

variable {α : Type} {f : Nat → Scanner α} {t r : List Char} {x : α}

theorem Growing.le (hf : Growing f) {n m : Nat} {p : α × List Char} (h : f n t = some p)
    (hle : n ≤ m) : f m t = some p := by
  induction m, hle using Nat.le_induction with
  | base => exact h
  | succ m hle ih => exact hf m t p ih

/-- **One reading** at most. -/
theorem Gives.unique (hf : Growing f) {y : α} {r' : List Char} (h : Gives f t x r)
    (h' : Gives f t y r') : x = y ∧ r = r' := by
  obtain ⟨n, hn⟩ := h
  obtain ⟨m, hm⟩ := h'
  have hx := hf.le hn (Nat.le_max_left n m)
  have hy := hf.le hm (Nat.le_max_right n m)
  rw [hx] at hy
  exact Prod.mk.inj (Option.some.inj hy)

theorem map_mono {x y : Option (α × List Char)} {β : Type} {g : α × List Char → β} {q : β}
    (hxy : ∀ p, x = some p → y = some p) (h : x.map g = some q) : y.map g = some q := by
  obtain ⟨p, hp, hq⟩ := Option.map_eq_some_iff.mp h
  rw [hxy p hp, Option.map_some, hq]

theorem items_mono {g h : Scanner α} (hgh : ∀ t p, g t = some p → h t = some p) (close : Char)
    (n : Nat) (t : List Char) (p : List α × List Char) (hp : items close g n t = some p) :
    items close h (n + 1) t = some p := by
  induction n generalizing t p with
  | zero => cases hp
  | succ n ih =>
    rw [items] at hp ⊢
    cases hitem : g t with
    | none =>
      rw [hitem] at hp
      cases hp
    | some y =>
      rw [hitem] at hp
      rw [hgh t y hitem]
      dsimp only at hp ⊢
      cases hrest : skipWs y.2 with
      | nil =>
        rw [hrest] at hp
        cases hp
      | cons c t =>
        rw [hrest] at hp
        dsimp only at hp ⊢
        by_cases hclose : c = close
        · rw [if_pos hclose] at hp ⊢
          exact hp
        · rw [if_neg hclose] at hp ⊢
          by_cases hcomma : c = ','
          · rw [if_pos hcomma] at hp ⊢
            exact map_mono (ih _) hp
          · rw [if_neg hcomma] at hp
            cases hp

theorem closedList_mono {g h : Scanner α} (hgh : ∀ t p, g t = some p → h t = some p) (close : Char)
    (n : Nat) (t : List Char) (p : List α × List Char) (hp : closedList close g n t = some p) :
    closedList close h (n + 1) t = some p := by
  unfold closedList at hp ⊢
  cases hrest : skipWs t with
  | nil =>
    rw [hrest] at hp
    cases hp
  | cons c t =>
    rw [hrest] at hp
    dsimp only at hp ⊢
    by_cases hclose : c = close
    · rw [if_pos hclose] at hp ⊢
      exact hp
    · rw [if_neg hclose] at hp ⊢
      exact items_mono hgh close n _ p hp

theorem pair_mono {g h : Scanner Json} (hgh : ∀ t p, g t = some p → h t = some p) (t : List Char)
    (p : (List Char × Json) × List Char) (hp : pair g t = some p) : pair h t = some p := by
  cases t with
  | nil => cases hp
  | cons c t =>
    unfold pair at hp ⊢
    dsimp only at hp ⊢
    by_cases hquote : c = '"'
    · rw [if_pos hquote] at hp ⊢
      cases hkey : string t with
      | none =>
        rw [hkey] at hp
        cases hp
      | some key =>
        rw [hkey] at hp
        dsimp only at hp ⊢
        cases hrest : skipWs key.2 with
        | nil =>
          rw [hrest] at hp
          cases hp
        | cons c t =>
          rw [hrest] at hp
          dsimp only at hp ⊢
          by_cases hcolon : c = ':'
          · rw [if_pos hcolon] at hp ⊢
            exact map_mono (hgh _) hp
          · rw [if_neg hcolon] at hp
            cases hp
    · rw [if_neg hquote] at hp
      cases hp

theorem growing_value : Growing value := by
  intro n
  induction n with
  | zero =>
    intro t p hp
    cases hp
  | succ n ih =>
    intro t p hp
    cases t with
    | nil => cases hp
    | cons c t =>
      rw [value] at hp ⊢
      by_cases hquote : c = '"'
      · rw [if_pos hquote] at hp ⊢
        exact hp
      rw [if_neg hquote] at hp ⊢
      by_cases harr : c = '['
      · rw [if_pos harr] at hp ⊢
        exact map_mono (closedList_mono ih _ _ _) hp
      rw [if_neg harr] at hp ⊢
      by_cases hobj : c = '{'
      · rw [if_pos hobj] at hp ⊢
        exact map_mono (closedList_mono (pair_mono ih) _ _ _) hp
      rw [if_neg hobj] at hp ⊢
      exact hp

/-- A text has one value. -/
theorem IsText.unique {t : List Char} {v v' : Json} (h : IsText t v) (h' : IsText t v') :
    v = v' := by
  obtain ⟨-, r, hr, -⟩ := h
  obtain ⟨-, r', hr', -⟩ := h'
  exact (hr.unique growing_value hr').1

theorem growing_pair : Growing fun n => pair (value n) := fun n => pair_mono (growing_value n)

theorem growing_items (hf : Growing f) (close : Char) :
    Growing fun n => items close (f n) n :=
  fun n => items_mono (hf n) close n

/-! ## Lists -/

theorem gives_items_last (hf : Growing f) {close : Char} {r' : List Char} (h : Gives f t x r)
    (hr : skipWs r = close :: r') : Gives (fun n => items close (f n) n) t [x] r' := by
  obtain ⟨n, hn⟩ := h
  refine ⟨n + 1, ?_⟩
  simp only [items, hf n t _ hn, hr, if_true]

theorem gives_items_cons (hf : Growing f) {close : Char} (hclose : ',' ≠ close) {xs : List α}
    {r₁ r₂ : List Char} (h : Gives f t x r₁) (hr : skipWs r₁ = ',' :: r₂)
    (hrest : Gives (fun n => items close (f n) n) (skipWs r₂) xs r) :
    Gives (fun n => items close (f n) n) t (x :: xs) r := by
  obtain ⟨n, hn⟩ := h
  obtain ⟨m, hm⟩ := hrest
  have hitem := hf.le hn (show n ≤ max n m + 2 by omega)
  have hmore : ∀ t p, f (max n m) t = some p → f (max n m + 2) t = some p :=
    fun t p hp => hf.le hp (by omega)
  have hitems := items_mono hmore close _ _ _
    ((growing_items hf close).le hm (Nat.le_max_right n m))
  refine ⟨max n m + 2, ?_⟩
  dsimp only
  rw [items, hitem]
  dsimp only
  rw [hr]
  dsimp only
  rw [if_neg hclose, if_pos rfl, hitems]
  rfl

/-- What was read as items: one, and then the bracket, or a comma and more. -/
theorem items_of_gives {close : Char} {xs : List α}
    (h : Gives (fun n => items close (f n) n) t xs r) :
    ∃ x r₁, Gives f t x r₁ ∧ (skipWs r₁ = close :: r ∧ xs = [x] ∨
      ∃ r₂ ys, skipWs r₁ = ',' :: r₂ ∧ xs = x :: ys ∧
        Gives (fun n => items close (f n) n) (skipWs r₂) ys r) := by
  obtain ⟨n, hn⟩ := h
  dsimp only at hn
  cases n with
  | zero => cases hn
  | succ n =>
    rw [items] at hn
    cases hitem : f (n + 1) t with
    | none =>
      rw [hitem] at hn
      cases hn
    | some p =>
      rw [hitem] at hn
      dsimp only at hn
      refine ⟨p.1, p.2, ⟨n + 1, hitem⟩, ?_⟩
      cases hrest : skipWs p.2 with
      | nil =>
        rw [hrest] at hn
        cases hn
      | cons c t' =>
        rw [hrest] at hn
        dsimp only at hn
        by_cases hclose : c = close
        · rw [if_pos hclose, Option.some.injEq, Prod.mk.injEq] at hn
          left
          exact ⟨by rw [hclose, hn.2], hn.1.symm⟩
        · rw [if_neg hclose] at hn
          by_cases hcomma : c = ','
          · rw [if_pos hcomma] at hn
            obtain ⟨q, hq, heq⟩ := Option.map_eq_some_iff.mp hn
            rw [Prod.mk.injEq] at heq
            right
            refine ⟨t', q.1, by rw [hcomma], heq.1.symm, n + 1, ?_⟩
            rw [← heq.2]
            exact items_mono (fun t p h => h) close n _ _ hq
          · rw [if_neg hcomma] at hn
            cases hn

theorem gives_list_nil {close : Char} (h : skipWs t = close :: r) :
    Gives (fun n => closedList close (f n) n) t [] r := by
  refine ⟨0, ?_⟩
  unfold closedList
  dsimp only
  rw [h]
  exact if_pos rfl

/-- Behind the opening bracket, where an item starts. -/
theorem closedList_item {close c : Char} (hc : c ≠ close) (hws : isWs c = false) (item : Scanner α)
    (n : Nat) : closedList close item n (c :: t) = items close item n (c :: t) := by
  have hskip : skipWs (c :: t) = c :: t := List.dropWhile_cons_of_neg (by simp [hws])
  unfold closedList
  rw [hskip]
  exact if_neg hc

end rules

/-! ## Values -/

section values

variable {t r : List Char} {v : Json}

/-- A value that its first character tells. -/
theorem gives_value_iff {α : Type} {c : Char} {g : Nat → Scanner α} {mk : α → Json}
    (h : ∀ n, value (n + 1) (c :: t) = (g n t).map fun x => (mk x.1, x.2)) :
    Gives value (c :: t) v r ↔ ∃ x, Gives g t x r ∧ v = mk x := by
  constructor
  · intro hgives
    obtain ⟨n, hn⟩ := hgives
    cases n with
    | zero => cases hn
    | succ n =>
      rw [h] at hn
      obtain ⟨p, hp, heq⟩ := Option.map_eq_some_iff.mp hn
      rw [Prod.mk.injEq] at heq
      exact ⟨p.1, ⟨n, by rw [hp, ← heq.2]⟩, heq.1.symm⟩
  · intro hgives
    obtain ⟨x, ⟨n, hn⟩, hv⟩ := hgives
    exact ⟨n + 1, by rw [h, hn, hv, Option.map_some]⟩

theorem gives_string_iff :
    Gives value ('"' :: t) v r ↔ ∃ s, string t = some (s, r) ∧ v = .str s := by
  rw [gives_value_iff (g := fun _ => string) fun n => by rw [value, if_pos rfl]]
  simp only [Gives, exists_const]

theorem gives_array_iff :
    Gives value ('[' :: t) v r ↔
      ∃ xs, Gives (fun n => closedList ']' (value n) n) t xs r ∧ v = .arr xs :=
  gives_value_iff fun n => by rw [value, if_neg (by decide), if_pos rfl]

theorem gives_object_iff :
    Gives value ('{' :: t) v r ↔
      ∃ xs, Gives (fun n => closedList '}' (pair (value n)) n) t xs r ∧ v = .obj xs :=
  gives_value_iff fun n => by rw [value, if_neg (by decide), if_neg (by decide), if_pos rfl]

/-- A member whose name is plain, read from the quote of its name. -/
theorem gives_pair_iff {key rest : List Char} (hkey : ∀ c ∈ key, Plain c) {m : List Char × Json} :
    Gives (fun n => pair (value n)) ('"' :: (key ++ '"' :: ':' :: rest)) m r ↔
      Gives value (skipWs rest) m.2 r ∧ m.1 = key := by
  have hpair : ∀ n, pair (value n) ('"' :: (key ++ '"' :: ':' :: rest)) =
      (value n (skipWs rest)).map fun x => ((key, x.1), x.2) := by
    intro n
    have hcolon : skipWs (':' :: rest) = ':' :: rest := rfl
    unfold pair
    dsimp only
    rw [if_pos rfl, string_plain hkey]
    dsimp only
    rw [hcolon]
    exact if_pos rfl
  constructor
  · intro h
    obtain ⟨n, hn⟩ := h
    dsimp only at hn
    rw [hpair] at hn
    obtain ⟨p, hp, heq⟩ := Option.map_eq_some_iff.mp hn
    rw [Prod.mk.injEq] at heq
    exact ⟨⟨n, by rw [hp, ← heq.1, ← heq.2]⟩, by rw [← heq.1]⟩
  · intro h
    obtain ⟨⟨n, hn⟩, hm⟩ := h
    refine ⟨n, ?_⟩
    dsimp only
    rw [hpair, hn, ← hm]
    rfl

end values

/-! ## Texts of values -/

/-- The text is read as `x`, whatever item or bracket comes behind it. -/
structure Spells {α : Type} (f : Nat → Scanner α) (text : List Char) (x : α) : Prop where
  starts : ∃ c t, text = c :: t ∧ isWs c = false ∧ c ≠ ']' ∧ c ≠ '}'
  gives : ∀ tail, Delimited tail → Gives f (text ++ tail) x tail

theorem Spells.skipWs {α : Type} {f : Nat → Scanner α} {text : List Char} {x : α}
    (h : Spells f text x) (tail : List Char) : Json.skipWs (text ++ tail) = text ++ tail := by
  obtain ⟨c, t, htext, hws, -⟩ := h.starts
  rw [htext, List.cons_append]
  exact List.dropWhile_cons_of_neg (by simp [hws])

theorem Delimited.skipWs {t : List Char} (h : Delimited t) : Json.skipWs t = t := by
  obtain ⟨c, r, ht, hc⟩ := h
  rw [ht]
  apply List.dropWhile_cons_of_neg
  rcases hc with hc | hc | hc
  all_goals
    rw [hc]
    decide

/-- A text in quotes. -/
def quoted (s : List Char) : List Char := '"' :: (s ++ ['"'])

theorem spells_string {s : List Char} (hs : ∀ c ∈ s, Plain c) :
    Spells value (quoted s) (.str s) := by
  refine ⟨⟨'"', _, rfl, by decide, by decide, by decide⟩, fun tail _ => ?_⟩
  rw [quoted, List.cons_append, List.append_assoc]
  exact gives_string_iff.mpr ⟨s, string_plain hs tail, rfl⟩

/-- The first character of a printed number. -/
theorem printInt_head (z : Int) : ∃ c t, printInt z = c :: t ∧ (c = '-' ∨ c.isDigit) := by
  have hne : printInt z ≠ [] := by
    unfold printInt
    split
    · exact List.cons_ne_nil _ _
    · exact Nat.toDigits_ne_nil
  obtain ⟨c, t, hhead⟩ := List.exists_cons_of_ne_nil hne
  exact ⟨c, t, hhead, mem_printInt (z := z) (by rw [hhead]; simp)⟩

theorem spells_number (z : Int) : Spells value (printInt z) (.num (printInt z)) := by
  obtain ⟨c, t, hhead, hc⟩ := printInt_head z
  -- none of the characters that other values begin with
  have hne : ∀ d : Char, d ≠ '-' → d.isDigit = false → c ≠ d := by
    intro d hdash hdigit heq
    rw [heq] at hc
    rcases hc with h | h
    · exact hdash h
    · rw [hdigit] at h
      cases h
  constructor
  · refine ⟨c, t, hhead, ?_, hne _ (by decide) (by decide), hne _ (by decide) (by decide)⟩
    have h₁ := hne ' ' (by decide) (by decide)
    have h₂ := hne '\t' (by decide) (by decide)
    have h₃ := hne '\n' (by decide) (by decide)
    have h₄ := hne '\r' (by decide) (by decide)
    simp [isWs, h₁, h₂, h₃, h₄]
  · intro tail htail
    refine ⟨1, ?_⟩
    have hnumber := number_printInt z htail
    rw [hhead, List.cons_append] at hnumber ⊢
    rw [value, if_neg (hne _ (by decide) (by decide)), if_neg (hne _ (by decide) (by decide)),
      if_neg (hne _ (by decide) (by decide)), if_neg (hne _ (by decide) (by decide)),
      if_neg (hne _ (by decide) (by decide)), if_neg (hne _ (by decide) (by decide)), hnumber]
    rfl

/-- A member, with or without white space behind the colon. -/
def pairText (key space text : List Char) : List Char :=
  '"' :: (key ++ '"' :: ':' :: (space ++ text))

theorem spells_pair {key space text : List Char} {v : Json} (hkey : ∀ c ∈ key, Plain c)
    (hspace : ∀ c ∈ space, isWs c) (h : Spells value text v) :
    Spells (fun n => pair (value n)) (pairText key space text) (key, v) := by
  refine ⟨⟨'"', _, rfl, by decide, by decide, by decide⟩, fun tail htail => ?_⟩
  have hgives := (@gives_pair_iff tail key (space ++ text ++ tail) hkey (key, v)).mpr ⟨?_, rfl⟩
  · simpa only [pairText, List.cons_append, List.append_assoc] using hgives
  · have hskip : skipWs (space ++ text ++ tail) = text ++ tail := by
      rw [List.append_assoc]
      exact (List.dropWhile_append_of_pos hspace).trans (h.skipWs tail)
    rw [hskip]
    exact h.gives tail htail

section lists

variable {α : Type} {f : Nat → Scanner α} {close : Char} {texts : List (List Char)} {xs : List α}

theorem intercalate_head (text : List Char) (texts : List (List Char)) :
    ∃ rest, [','].intercalate (text :: texts) = text ++ rest := by
  cases texts with
  | nil => exact ⟨[], by simp⟩
  | cons text' texts =>
    refine ⟨[','] ++ [','].intercalate (text' :: texts), ?_⟩
    rw [List.intercalate_cons_cons, List.append_assoc]

/-- Items with commas between them. -/
theorem gives_items (hf : Growing f) (hclose : close = ']' ∨ close = '}')
    (h : List.Forall₂ (Spells f) texts xs) (hne : texts ≠ []) (tail : List Char) :
    Gives (fun n => items close (f n) n) ([','].intercalate texts ++ close :: tail) xs tail := by
  have hcomma : ',' ≠ close := by
    rcases hclose with hclose | hclose
    all_goals
      rw [hclose]
      decide
  induction h with
  | nil => exact absurd rfl hne
  | @cons text x texts xs hx hxs ih =>
    cases hxs with
    | nil =>
      have hend : Delimited (close :: tail) := ⟨close, tail, rfl, Or.inr hclose⟩
      rw [List.intercalate_singleton]
      exact gives_items_last hf (hx.gives _ hend) hend.skipWs
    | @cons text' y texts ys hy hys =>
      have hrest := ih (List.cons_ne_nil _ _)
      have hmore : Delimited (',' :: ([','].intercalate (text' :: texts) ++ close :: tail)) :=
        ⟨',', _, rfl, Or.inl rfl⟩
      have hstart : skipWs ([','].intercalate (text' :: texts) ++ close :: tail) =
          [','].intercalate (text' :: texts) ++ close :: tail := by
        obtain ⟨rest, hhead⟩ := intercalate_head text' texts
        rw [hhead, List.append_assoc]
        exact hy.skipWs _
      rw [List.intercalate_cons_cons, List.append_assoc, List.append_assoc]
      refine gives_items_cons hf hcomma (hx.gives _ hmore) hmore.skipWs ?_
      rw [hstart]
      exact hrest

theorem gives_list (hf : Growing f) (hclose : close = ']' ∨ close = '}')
    (h : List.Forall₂ (Spells f) texts xs) (tail : List Char) :
    Gives (fun n => closedList close (f n) n) ([','].intercalate texts ++ close :: tail) xs
      tail := by
  have hend : Delimited (close :: tail) := ⟨close, tail, rfl, Or.inr hclose⟩
  have hitems := fun hne => gives_items hf hclose h hne tail
  cases h with
  | nil => exact gives_list_nil hend.skipWs
  | @cons text x texts xs hx hxs =>
    obtain ⟨n, hn⟩ := hitems (List.cons_ne_nil _ _)
    obtain ⟨rest, hhead⟩ := intercalate_head text texts
    obtain ⟨c, t, htext, hws, hbracket, hbrace⟩ := hx.starts
    have hc : c ≠ close := by
      rcases hclose with hclose | hclose
      all_goals
        rw [hclose]
        assumption
    refine ⟨n, ?_⟩
    dsimp only at hn ⊢
    rw [hhead, htext, List.cons_append, List.cons_append] at hn ⊢
    rw [closedList_item hc hws]
    exact hn

end lists

/-- An array. -/
def arrayText (texts : List (List Char)) : List Char := '[' :: ([','].intercalate texts ++ [']'])

/-- An object. -/
def objectText (texts : List (List Char)) : List Char := '{' :: ([','].intercalate texts ++ ['}'])

theorem spells_array {texts : List (List Char)} {xs : List Json}
    (h : List.Forall₂ (Spells value) texts xs) :
    Spells value (arrayText texts) (.arr xs) := by
  refine ⟨⟨'[', _, rfl, by decide, by decide, by decide⟩, fun tail _ => ?_⟩
  rw [arrayText, List.cons_append, List.append_assoc]
  exact gives_array_iff.mpr ⟨xs, gives_list growing_value (Or.inl rfl) h tail, rfl⟩

theorem spells_object {texts : List (List Char)} {xs : List (List Char × Json)}
    (h : List.Forall₂ (Spells fun n => pair (value n)) texts xs) :
    Spells value (objectText texts) (.obj xs) := by
  refine ⟨⟨'{', _, rfl, by decide, by decide, by decide⟩, fun tail _ => ?_⟩
  rw [objectText, List.cons_append, List.append_assoc]
  exact gives_object_iff.mpr ⟨xs, gives_list growing_pair (Or.inr rfl) h tail, rfl⟩

end Json
