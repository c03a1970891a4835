import Mathlib
import Libms.Task.MsTask

/-! # What the two dispatchers decide

    * `dispatchOf_openPipe`, `wantedRange_range`: what `dispatch_reader` opens
      a pipe for.
    * `served_iff`: it leaves a reader that has all it needs, or a pipe to
      wait for.
    * `Useful`: a pipe at a position belongs to a reader: the nearest reader
      behind it is close, and no other pipe is in between.
    * `dispatchPipe_of_stays`, `dispatchPipe_of_not_stays`: `dispatch_pipe`
      keeps a pipe iff it is useful and alone at its position.
    * `Pruned`: closing pipes changes nothing but the queue. -/

namespace Libms

open Nearest

namespace MsTask

/-! ## `dispatch_reader` -/

/-- `dispatch_reader` would return without opening a pipe. -/
def Served (w : IntArith) (t : MsTask) (r : Reader) : Prop :=
  (t.dispatchReader w r).aborted = false ∧ (t.dispatchReader w r).opened = t.opened

/-- A pipe of the queue stands at `pos`. -/
def PipeAt (t : MsTask) (pos : Nat) : Prop := ∃ id ∈ t.pipes, t.currentPos id = pos

/-- A reader that has all it needs, whatever pipes there are. -/
def NeedsNothing (w : IntArith) (t : MsTask) (r : Reader) : Prop :=
  t.wantedRange w r = .covered ∨
    ∃ pos stop, t.wantedRange w r = .range pos stop ∧ stop ≤ pos ∧ stop ≠ 0

section reader

variable {w : IntArith} {t : MsTask} {r : Reader}

theorem nearestPipe_any {pos : Nat} :
    ((t.nearestPipe pos 1).any fun id => (t.currentPos id : Int) = pos) ↔ t.PipeAt pos := by
  unfold nearestPipe PipeAt
  rw [nearest_up_at]
  constructor
  · rintro ⟨id, hid, hpos⟩
    exact ⟨id, hid, by omega⟩
  · rintro ⟨id, hid, hpos⟩
    exact ⟨id, hid, by omega⟩

theorem dispatchOf_done :
    t.dispatchOf w r = .done ↔
      t.NeedsNothing w r ∨ ∃ pos stop, t.wantedRange w r = .range pos stop ∧ t.PipeAt pos := by
  unfold dispatchOf NeedsNothing
  cases hwanted : t.wantedRange w r with
  | abort => simp
  | covered => simp
  | range pos stop =>
    simp only
    by_cases hpipe : t.PipeAt pos
    · -- a pipe at the border of the piece is waited for
      rw [if_pos (nearestPipe_any.mpr hpipe)]
      simp only [true_iff]
      exact Or.inr ⟨pos, stop, rfl, hpipe⟩
    · rw [if_neg (fun h => hpipe (nearestPipe_any.mp h))]
      by_cases hpast : stop ≤ pos ∧ stop ≠ 0
      · rw [if_pos hpast]
        simp only [true_iff]
        exact Or.inl (Or.inr ⟨pos, stop, rfl, hpast⟩)
      · rw [if_neg hpast]
        constructor
        · intro h
          cases h
        · rintro ((h | ⟨_, _, heq, h⟩) | ⟨_, _, heq, h⟩)
          · cases h
          · cases heq
            exact absurd h hpast
          · cases heq
            exact absurd h hpipe

/-- What a pipe is opened with. -/
theorem dispatchOf_openPipe {pos : Nat} {len : Int} (h : t.dispatchOf w r = .openPipe pos len) :
    ∃ stop, t.wantedRange w r = .range pos stop ∧ ¬ t.PipeAt pos ∧ ¬ (stop ≤ pos ∧ stop ≠ 0) ∧
      len = if 0 < stop then stop - pos else 0 := by
  unfold dispatchOf at h
  cases hwanted : t.wantedRange w r with
  | abort => simp [hwanted] at h
  | covered => simp [hwanted] at h
  | range pos' stop =>
    simp only [hwanted] at h
    split at h
    · cases h
    · rename_i hpipe
      split at h
      · cases h
      · rename_i hmore
        cases h
        exact ⟨stop, rfl, fun hat => hpipe (nearestPipe_any.mpr hat), hmore, rfl⟩

theorem wantedFrom_range {start stop stop' : Int} {pos : Nat}
    (h : wantedFrom start stop = .range pos stop') : pos % 16384 = 0 ∧ stop' = stop := by
  unfold wantedFrom at h
  split at h
  · cases h
  · simp only [msPieceUnitSize, Wanted.range.injEq] at h
    omega

/-- A reader asks for whole pieces, up to a cache length from where it is,
    or to the end of the file. -/
theorem wantedRange_range {pos : Nat} {stop : Int} (h : t.wantedRange w r = .range pos stop) :
    pos % 16384 = 0 ∧ stop = min (r.next + maxCacheLen) t.storage.estimateSize := by
  have hstop : (if (r.next : Int) + maxCacheLen > t.storage.estimateSize then
      t.storage.estimateSize else r.next + maxCacheLen) =
        min (r.next + maxCacheLen) t.storage.estimateSize := by
    split <;> omega
  simp only [wantedRange, hstop] at h
  split at h
  · split at h
    · cases h
    · split at h
      · cases h
      · split at h
        · exact wantedFrom_range h
        · exact wantedFrom_range h
  · exact wantedFrom_range h

/-- As long as the task has no error, to be served is to be left alone. -/
theorem served_iff (hcode : t.code = 0) :
    t.Served w r ↔ t.aborted = false ∧ t.dispatchOf w r = .done := by
  unfold Served dispatchReader
  cases haborted : t.aborted with
  | true => simp [haborted]
  | false =>
    cases t.dispatchOf w r with
    | abort => simp [abort]
    | done => simp [haborted]
    | openPipe pos len =>
      simp [createPipeFor, hcode, setPipe]

end reader

/-! ## `dispatch_pipe` -/

/-- A pipe at `pos` is useful to `r`: of the readers at or before it `r` is
    the nearest and less than a cache length away, and no pipe stands
    between the two. -/
structure Useful (t : MsTask) (pos : Nat) (r : Reader) : Prop where
  reader : r ∈ t.readers
  behind : r.next ≤ pos
  nearest : ∀ r' ∈ t.readers, r'.next ≤ pos → r'.next ≤ r.next
  close : pos < r.next + maxCacheLen
  first : ∀ id ∈ t.pipes, t.currentPos id < pos → t.currentPos id < r.next

/-- No other pipe of the queue stands where this one does. -/
def Alone (t : MsTask) (id : Nat) : Prop :=
  ∀ other ∈ t.pipes, other ≠ id → t.currentPos other ≠ t.currentPos id

section pipe

variable {t : MsTask} {id : Nat} {r : Reader}

theorem twin_iff : t.twin id = false ↔ t.Alone id := by
  simp [twin, Alone]

theorem shadowed_iff :
    t.shadowed r id = false ↔
      ∀ other ∈ t.pipes, t.currentPos other < t.currentPos id → t.currentPos other < r.next := by
  unfold shadowed nearestPipe
  cases hnear : nearest (fun id => (t.currentPos id : Int)) (-1) (t.currentPos id - 1) t.pipes with
  | none =>
    have hnone := nearest_down_eq_none.mp hnear
    simp only [Option.any_none, Bool.and_false, true_iff]
    intro other hother hlt
    have := hnone other hother
    omega
  | some near =>
    obtain ⟨hmem, hle, hmax⟩ := nearest_down_spec hnear
    simp only [Option.any_some, Bool.and_eq_false_iff, decide_eq_false_iff_not]
    constructor
    · intro h other hother hlt
      have := hmax other hother (by omega)
      rcases h with h | h <;> omega
    · intro h
      have := h near hmem (by omega)
      right
      omega

/-- `dispatch_pipe` keeps a useful pipe that is alone. -/
theorem dispatchPipe_of_stays (hr : t.Useful (t.currentPos id) r) (halone : t.Alone id) :
    t.dispatchPipe id = t := by
  unfold dispatchPipe
  rw [if_neg (by rw [twin_iff.mpr halone]; simp)]
  -- the reader that the source finds stands where the useful one does
  cases hnearest : t.nearestReader (t.currentPos id) (-1) with
  | none =>
    have := nearest_down_eq_none.mp hnearest r hr.reader
    have := hr.behind
    omega
  | some r' =>
    obtain ⟨hmem, hle, hmax⟩ := nearest_down_spec hnearest
    have hbehind := hr.behind
    have hsame : r'.next = r.next := by
      have := hr.nearest r' hmem (by omega)
      have := hmax r hr.reader (by omega)
      omega
    have hclose := hr.close
    simp only
    rw [if_neg (by omega)]
    -- no pipe stands between that reader and the pipe
    have hfirst : t.shadowed r' id = false := by
      rw [shadowed_iff, hsame]
      exact hr.first
    rw [hfirst]
    rfl

/-- `dispatch_pipe` closes every other pipe. -/
theorem dispatchPipe_of_not_stays (h : t.Alone id → ¬ ∃ r, t.Useful (t.currentPos id) r) :
    t.dispatchPipe id = t.closePipe id := by
  unfold dispatchPipe
  by_cases htwin : t.twin id
  · rw [if_pos htwin]
  · rw [if_neg htwin]
    have hno := h (twin_iff.mp (by simpa using htwin))
    cases hnearest : t.nearestReader (t.currentPos id) (-1) with
    | none => rfl
    | some r =>
      obtain ⟨hmem, hle, hmax⟩ := nearest_down_spec hnearest
      simp only
      by_cases hfar : r.next + maxCacheLen ≤ t.currentPos id
      · rw [if_pos hfar]
      · rw [if_neg hfar, if_pos]
        -- the found reader would make the pipe useful
        by_contra hshadow
        apply hno
        refine ⟨r, hmem, by omega, ?_, by omega, shadowed_iff.mp (by simpa using hshadow)⟩
        intro r' hr' hle'
        have := hmax r' hr' (by omega)
        omega

theorem dispatchPipe_cases : t.dispatchPipe id = t ∨ t.dispatchPipe id = t.closePipe id := by
  by_cases h : t.Alone id ∧ ∃ r, t.Useful (t.currentPos id) r
  · obtain ⟨halone, r, hr⟩ := h
    exact Or.inl (dispatchPipe_of_stays hr halone)
  · exact Or.inr (dispatchPipe_of_not_stays fun halone hr => h ⟨halone, hr⟩)

end pipe

/-! ## Closing pipes -/

/-- Pipes were closed, and nothing else was done. -/
structure Pruned (t t' : MsTask) : Prop where
  storage : t'.storage = t.storage
  readers : t'.readers = t.readers
  code : t'.code = t.code
  aborted : t'.aborted = t.aborted
  opened : t'.opened = t.opened
  sizeCalls : t'.sizeCalls = t.sizeCalls
  currentPos : ∀ id, t'.currentPos id = t.currentPos id
  pipes : ∀ id ∈ t'.pipes, id ∈ t.pipes

section pruned

variable {t t' t'' : MsTask} {id : Nat}

theorem Pruned.refl : Pruned t t :=
  ⟨rfl, rfl, rfl, rfl, rfl, rfl, fun _ => rfl, fun _ h => h⟩

theorem Pruned.trans (h : Pruned t t') (h' : Pruned t' t'') : Pruned t t'' where
  storage := h'.storage.trans h.storage
  readers := h'.readers.trans h.readers
  code := h'.code.trans h.code
  aborted := h'.aborted.trans h.aborted
  opened := h'.opened.trans h.opened
  sizeCalls := h'.sizeCalls.trans h.sizeCalls
  currentPos id := (h'.currentPos id).trans (h.currentPos id)
  pipes id hid := h.pipes id (h'.pipes id hid)

theorem mem_closePipe {other : Nat} :
    other ∈ (t.closePipe id).pipes ↔ other ∈ t.pipes ∧ other ≠ id := by
  simp [closePipe]

theorem closePipe_pruned : Pruned t (t.closePipe id) where
  storage := rfl
  readers := rfl
  code := rfl
  aborted := rfl
  opened := rfl
  sizeCalls := rfl
  currentPos other := by
    by_cases h : other = id
    · subst h
      simp [currentPos, closePipe, setPipe, HttpPipe.pipeClose]
    · simp [currentPos, closePipe, setPipe, h]
  pipes other hother := (mem_closePipe.mp hother).1

theorem dispatchPipe_pruned : Pruned t (t.dispatchPipe id) := by
  rcases @dispatchPipe_cases t id with h | h
  · rw [h]
    exact Pruned.refl
  · rw [h]
    exact closePipe_pruned

theorem dispatchPipes_pruned (ids : List Nat) : Pruned t (ids.foldl dispatchPipe t) := by
  induction ids generalizing t with
  | nil => exact Pruned.refl
  | cons id ids ih => exact dispatchPipe_pruned.trans ih

/-- What a reader needs does not depend on the pipes. -/
theorem Pruned.wantedRange (h : Pruned t t') (w : IntArith) (r : Reader) :
    t'.wantedRange w r = t.wantedRange w r := by
  unfold MsTask.wantedRange
  rw [h.storage]

end pruned

end MsTask

end Libms
