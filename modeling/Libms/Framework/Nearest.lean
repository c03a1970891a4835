import Mathlib

/-! # The nearest element of a queue

    A scan of a queue of things that stand at integer positions, for the one
    nearest to `pos` in a direction: `1` for the first at or behind it, `-1`
    for the last at or before it. Of several at one position the first in
    the queue is taken.

    * `nearest`: the scan, as a fold that keeps the best so far.
    * `nearest_eq_none`, `nearest_spec`: what it finds, for any direction.
    * `nearest_up_spec`, `nearest_down_spec`: the two directions as
      inequalities between positions. -/

namespace Nearest

variable {α : Type*}

section scan

variable (key : α → Int) (direction pos : Int)

/-- One element is looked at: it is passed by on the wrong side of `pos`,
    and else replaces the best so far if it is strictly nearer. -/
def nearer (curr : Option α) (x : α) : Option α :=
  if 0 ≤ direction * (key x - pos) then
    match curr with
    | none => some x
    | some c => if direction * (key x - key c) < 0 then some x else some c
  else curr

/-- The nearest element of the queue in a direction. -/
def nearest (xs : List α) : Option α := xs.foldl (nearer key direction pos) none

@[simp] theorem nearest_nil : nearest key direction pos [] = none := rfl

theorem nearest_snoc (xs : List α) (x : α) :
    nearest key direction pos (xs ++ [x]) =
      nearer key direction pos (nearest key direction pos xs) x := by
  simp [nearest, List.foldl_append]

end scan

section spec

variable {key : α → Int} {direction pos : Int} {xs : List α} {c : α}

theorem nearest_eq_none :
    nearest key direction pos xs = none ↔ ∀ x ∈ xs, direction * (key x - pos) < 0 := by
  induction xs using List.reverseRecOn with
  | nil => simp
  | append_singleton xs x ih =>
    rw [nearest_snoc]
    unfold nearer
    by_cases hside : 0 ≤ direction * (key x - pos)
    · -- `x` is on the right side, so the scan has found something
      rw [if_pos hside]
      constructor
      · intro hnone
        cases hcurr : nearest key direction pos xs with
        | none => simp [hcurr] at hnone
        | some c =>
          simp only [hcurr] at hnone
          split at hnone <;> cases hnone
      · intro hall
        have := hall x (by simp)
        omega
    · rw [if_neg hside, ih]
      constructor
      · intro hall y hy
        rcases List.mem_append.mp hy with hy | hy
        · exact hall y hy
        · rw [List.mem_singleton.mp hy]
          omega
      · intro hall y hy
        exact hall y (List.mem_append_left _ hy)

/-- The element found is on the right side, and none there is nearer. -/
theorem nearest_spec (h : nearest key direction pos xs = some c) :
    c ∈ xs ∧ 0 ≤ direction * (key c - pos) ∧
      ∀ x ∈ xs, 0 ≤ direction * (key x - pos) → 0 ≤ direction * (key x - key c) := by
  induction xs using List.reverseRecOn generalizing c with
  | nil => cases h
  | append_singleton xs x ih =>
    rw [nearest_snoc] at h
    unfold nearer at h
    by_cases hside : 0 ≤ direction * (key x - pos)
    · rw [if_pos hside] at h
      cases hcurr : nearest key direction pos xs with
      | none =>
        rw [hcurr] at h
        cases h
        have hbefore := nearest_eq_none.mp hcurr
        refine ⟨by simp, hside, ?_⟩
        intro y hy hy'
        rcases List.mem_append.mp hy with hy | hy
        · have := hbefore y hy
          omega
        · rw [List.mem_singleton.mp hy, sub_self, mul_zero]
      | some c' =>
        obtain ⟨hmem, hside', hmin⟩ := ih hcurr
        simp only [hcurr] at h
        split at h
        · -- `x` is strictly nearer than the best so far
          rename_i hless
          cases h
          refine ⟨by simp, hside, ?_⟩
          intro y hy hy'
          rcases List.mem_append.mp hy with hy | hy
          · have := hmin y hy hy'
            rw [mul_sub] at this hless ⊢
            omega
          · rw [List.mem_singleton.mp hy, sub_self, mul_zero]
        · rename_i hless
          cases h
          refine ⟨List.mem_append_left _ hmem, hside', ?_⟩
          intro y hy hy'
          rcases List.mem_append.mp hy with hy | hy
          · exact hmin y hy hy'
          · rw [List.mem_singleton.mp hy]
            omega
    · rw [if_neg hside] at h
      obtain ⟨hmem, hside', hmin⟩ := ih h
      refine ⟨List.mem_append_left _ hmem, hside', ?_⟩
      intro y hy hy'
      rcases List.mem_append.mp hy with hy | hy
      · exact hmin y hy hy'
      · rw [List.mem_singleton.mp hy] at hy'
        exact absurd hy' hside

/-! ## The two directions -/

theorem nearest_up_eq_none : nearest key 1 pos xs = none ↔ ∀ x ∈ xs, key x < pos := by
  simp [nearest_eq_none]

theorem nearest_up_spec (h : nearest key 1 pos xs = some c) :
    c ∈ xs ∧ pos ≤ key c ∧ ∀ x ∈ xs, pos ≤ key x → key c ≤ key x := by
  simpa using nearest_spec h

theorem nearest_down_eq_none : nearest key (-1) pos xs = none ↔ ∀ x ∈ xs, pos < key x := by
  simp [nearest_eq_none]

theorem nearest_down_spec (h : nearest key (-1) pos xs = some c) :
    c ∈ xs ∧ key c ≤ pos ∧ ∀ x ∈ xs, key x ≤ pos → key x ≤ key c := by
  simpa using nearest_spec h

/-- The scan upwards stops at `pos` iff something stands there. -/
theorem nearest_up_at :
    (nearest key 1 pos xs).any (fun c => key c = pos) ↔ ∃ x ∈ xs, key x = pos := by
  cases h : nearest key 1 pos xs with
  | none =>
    have hnone := nearest_up_eq_none.mp h
    constructor
    · intro hfalse
      cases hfalse
    · rintro ⟨x, hx, hpos⟩
      have := hnone x hx
      omega
  | some c =>
    obtain ⟨hmem, hle, hmin⟩ := nearest_up_spec h
    simp only [Option.any_some, decide_eq_true_eq]
    constructor
    · intro hpos
      exact ⟨c, hmem, hpos⟩
    · rintro ⟨x, hx, hpos⟩
      have := hmin x hx (by omega)
      omega

end spec

end Nearest
