import Mathlib

/-! # Partial maps read as byte arrays

    A cache of a large object is a partial map from offsets to bytes. This
    module fixes what reading and writing such a map means, over any type
    of bytes:

    * `readRun m pos n`: the bytes a reader gets that copies from `pos` on
      and stops at the first hole or after `n` bytes.
    * `overlay m pos bytes`: the map after `bytes` were stored at `pos`.
    * `paged unit pages`: the map that a table of pages of `unit` bytes
      stands for.
    * `CopiedRun`: the loop invariant of a reader that has copied a prefix
      so far, and the rules that extend and finish it. -/

namespace PartialMap

variable {β : Type*}

/-! ## Reading -/

/-- The bytes from `pos` on up to the first hole, `n` at most. -/
def readRun (m : Nat → Option β) : Nat → Nat → List β
  | _, 0 => []
  | pos, n + 1 =>
    match m pos with
    | none => []
    | some b => b :: readRun m (pos + 1) n

/-- The number of leading offsets of `[pos, pos + n)` that satisfy `c`. -/
def leading (c : Nat → Bool) : Nat → Nat → Nat
  | _, 0 => 0
  | pos, n + 1 => if c pos then leading c (pos + 1) n + 1 else 0

section reading

variable {m : Nat → Option β} {pos n : Nat}

theorem readRun_length_le : (readRun m pos n).length ≤ n := by
  induction n generalizing pos with
  | zero => simp [readRun]
  | succ n ih =>
    cases h : m pos with
    | none => simp [readRun, h]
    | some b => simpa [readRun, h] using ih

/-- A run has one byte for each leading offset the map defines. -/
theorem readRun_length : (readRun m pos n).length = leading (fun i => (m i).isSome) pos n := by
  induction n generalizing pos with
  | zero => rfl
  | succ n ih =>
    cases h : m pos with
    | none => simp [readRun, leading, h]
    | some b => simp [readRun, leading, h, ih]

/-- The bytes of a run are the map's values, in order. -/
theorem readRun_getElem? {i : Nat} (hi : i < (readRun m pos n).length) :
    (readRun m pos n)[i]? = m (pos + i) := by
  induction n generalizing pos i with
  | zero => simp [readRun] at hi
  | succ n ih =>
    cases h : m pos with
    | none => simp [readRun, h] at hi
    | some b =>
      cases i with
      | zero => simp [readRun, h]
      | succ i =>
        have hi' : i < (readRun m (pos + 1) n).length := by simpa [readRun, h] using hi
        simp only [readRun, h, List.getElem?_cons_succ]
        rw [ih hi']
        congr 1; omega

/-- A map with wrapped values is read like the map. -/
theorem readRun_map {m' : Nat → Option (Option β)}
    (h : ∀ i, pos ≤ i → i < pos + n → m' i = (m i).map some) :
    readRun m' pos n = (readRun m pos n).map some := by
  induction n generalizing pos with
  | zero => rfl
  | succ n ih =>
    have htail := @ih (pos + 1) fun i h₁ h₂ => h i (by omega) (by omega)
    have hhead := h pos (by omega) (by omega)
    cases hm : m pos with
    | none =>
      rw [hm] at hhead
      simp [readRun, hm, hhead]
    | some b =>
      rw [hm] at hhead
      simp [readRun, hm, hhead, htail]

theorem leading_le {c : Nat → Bool} : leading c pos n ≤ n := by
  induction n generalizing pos with
  | zero => simp [leading]
  | succ n ih =>
    have := @ih (pos + 1)
    unfold leading; split <;> omega

theorem leading_congr {c c' : Nat → Bool} (h : ∀ i, pos ≤ i → i < pos + n → c i = c' i) :
    leading c pos n = leading c' pos n := by
  induction n generalizing pos with
  | zero => rfl
  | succ n ih =>
    have htail := @ih (pos + 1) (fun i h₁ h₂ => h i (by omega) (by omega))
    simp only [leading, h pos (by omega) (by omega), htail]

theorem leading_eq_zero {c : Nat → Bool} (hstop : c pos = false) : leading c pos n = 0 := by
  cases n with
  | zero => rfl
  | succ n => simp [leading, hstop]

/-- The predicate holds at `m` offsets, and not at the next one. -/
theorem leading_eq_min {c : Nat → Bool} {m : Nat} (hall : ∀ i, pos ≤ i → i < pos + m → c i)
    (hstop : c (pos + m) = false) : leading c pos n = min n m := by
  induction n generalizing pos m with
  | zero => simp [leading]
  | succ n ih =>
    cases m with
    | zero =>
      rw [Nat.add_zero] at hstop
      simp [leading, hstop]
    | succ m =>
      have htail := @ih (pos + 1) m (fun i h₁ h₂ => hall i (by omega) (by omega))
        (by rwa [show pos + 1 + m = pos + (m + 1) by omega])
      rw [leading, if_pos (hall pos (Nat.le_refl _) (by omega)), htail]
      omega

/-- Where fewer than all offsets are counted, the next one does not satisfy
    the predicate. -/
theorem leading_stop {c : Nat → Bool} (h : leading c pos n < n) :
    c (pos + leading c pos n) = false := by
  induction n generalizing pos with
  | zero => omega
  | succ n ih =>
    cases hc : c pos with
    | false =>
      rw [leading_eq_zero hc]
      exact hc
    | true =>
      have hhead : leading c pos (n + 1) = leading c (pos + 1) n + 1 := by simp [leading, hc]
      rw [hhead] at h ⊢
      rw [show pos + (leading c (pos + 1) n + 1) = pos + 1 + leading c (pos + 1) n by omega]
      exact ih (by omega)

/-- Every offset counted by `leading` satisfies the predicate. -/
theorem leading_spec {c : Nat → Bool} {i : Nat} (hi : i < leading c pos n) : c (pos + i) := by
  induction n generalizing pos i with
  | zero => simp [leading] at hi
  | succ n ih =>
    by_cases hc : c pos
    · cases i with
      | zero => simpa using hc
      | succ i =>
        have hi' : i < leading c (pos + 1) n := by simpa [leading, hc] using hi
        have := ih hi'
        rwa [show pos + 1 + i = pos + (i + 1) by omega] at this
    · simp [leading, hc] at hi

end reading

/-! ## Writing -/

/-- The map after `bytes` were stored at `pos`. -/
def overlay (m : Nat → Option β) (pos : Nat) (bytes : List β) (off : Nat) : Option β :=
  if pos ≤ off ∧ off < pos + bytes.length then bytes[off - pos]? else m off

section writing

variable {m : Nat → Option β} {pos off : Nat} {bytes : List β}

theorem overlay_inside (h₁ : pos ≤ off) (h₂ : off < pos + bytes.length) :
    overlay m pos bytes off = bytes[off - pos]? := if_pos ⟨h₁, h₂⟩

theorem overlay_outside (h : off < pos ∨ pos + bytes.length ≤ off) :
    overlay m pos bytes off = m off := if_neg (by omega)

end writing

/-! ## Pages -/

/-- The map a table of pages of `unit` bytes stands for: a page is a map
    from the offset inside it, and a missing page is a hole. -/
def paged (unit : Nat) (pages : Nat → Option (Nat → Option β)) (off : Nat) : Option β :=
  (pages (off / unit)).bind fun page => page (off % unit)

theorem paged_eq {unit : Nat} {pages : Nat → Option (Nat → Option β)} {page : Nat → Option β}
    {i off : Nat} (hpage : pages i = some page) (hi : off / unit = i) :
    paged unit pages off = page (off % unit) := by
  simp [paged, hi, hpage]

theorem paged_hole {unit : Nat} {pages : Nat → Option (Nat → Option β)} {i off : Nat}
    (hpage : pages i = none) (hi : off / unit = i) : paged unit pages off = none := by
  simp [paged, hi, hpage]

/-! ## The invariant of a copying reader -/

/-- `acc` is what a reader copied from `pos` on, and every offset it
    passed holds a byte. -/
def CopiedRun (m : Nat → Option β) (pos : Nat) (acc : List (Option β)) : Prop :=
  ∀ i < acc.length, (m (pos + i)).isSome ∧ acc[i]? = some (m (pos + i))

section copied

variable {m : Nat → Option β} {pos n : Nat} {acc more : List (Option β)}

theorem copiedRun_nil : CopiedRun m pos [] := fun i hi => by simp at hi

theorem CopiedRun.append (hacc : CopiedRun m pos acc)
    (hmore : CopiedRun m (pos + acc.length) more) :
    CopiedRun m pos (acc ++ more) := by
  intro i hi
  by_cases h : i < acc.length
  · rw [List.getElem?_append_left h]
    exact hacc i h
  · have hlen : i - acc.length < more.length := by
      simp only [List.length_append] at hi; omega
    have hm := hmore (i - acc.length) hlen
    rw [show pos + acc.length + (i - acc.length) = pos + i by omega] at hm
    rwa [List.getElem?_append_right (by omega)]

/-- A reader that stopped at `n` bytes or at a hole has copied the run. -/
theorem CopiedRun.eq_readRun (hacc : CopiedRun m pos acc) (hle : acc.length ≤ n)
    (hstop : acc.length < n → m (pos + acc.length) = none) :
    acc = (readRun m pos n).map some := by
  induction acc generalizing pos n with
  | nil =>
    cases n with
    | zero => rfl
    | succ n =>
      have hnone : m pos = none := by simpa using hstop (by simp)
      simp [readRun, hnone]
  | cons x xs ih =>
    obtain ⟨hsome, hx⟩ := hacc 0 (by simp)
    simp only [Nat.add_zero, List.getElem?_cons_zero, Option.some.injEq] at hsome hx
    obtain ⟨b, hb⟩ := Option.isSome_iff_exists.mp hsome
    cases n with
    | zero => simp at hle
    | succ n =>
      have hxs : CopiedRun m (pos + 1) xs := by
        intro i hi
        have := hacc (i + 1) (by simpa using hi)
        rwa [List.getElem?_cons_succ, show pos + (i + 1) = pos + 1 + i by omega] at this
      have htail : xs = (readRun m (pos + 1) n).map some := by
        refine ih hxs (by simpa using hle) fun hlt => ?_
        have := hstop (by simpa using hlt)
        rwa [List.length_cons, show pos + (xs.length + 1) = pos + 1 + xs.length by omega] at this
      simp only [readRun, hb, List.map_cons]
      rw [hx, hb, ← htail]

end copied

end PartialMap
