import Mathlib
import Libms.Storage.FarOffsets
import Libms.Task.Serving

/-! # The offsets that clients ask for

    A session hands the offset of its request to the task as it is. This
    module follows `dispatch_reader` for every offset of type `int64_t`, with
    the conversions that only matter for huge ones: `block_index` returns an
    `int`, and the end of the range that is asked for is computed unsigned.

    * `dispatchReaderInt`, `addReaderInt`: the functions with these
      conversions. Below 4 PiB they are `dispatchReader` and `addReader`.
    * `OffsetSafe`: no assert fails, and behind the end of the file no pipe
      is opened.
    * `OffsetFits`: the states and offsets for which this is so.
    * `offsetSafe_iff`: the two agree in every state that knows the size. -/

namespace Libms

open CInt MemStorage Runs

namespace MsTask

/-! ## The functions -/

/-- The first part of `dispatch_reader`. -/
def wantedRangeInt (w : IntArith) (t : MsTask) (r : Reader) : Wanted :=
  let pos : Int := r.next
  -- the sum with a `size_t` is unsigned, and becomes an `int64_t` again
  let stop := toInt64 (pos + maxCacheLen)
  let stop := if stop > t.storage.estimateSize then t.storage.estimateSize else stop
  if 0 < t.storage.estimateSize then
    match t.storage.cachedFromInt w pos with
    | none => .abort
    | some (cachedNextPos, cachedNextLen) =>
      if cachedNextPos = pos ∧ maxCacheLen / 2 ≤ cachedNextLen then .covered
      else if cachedNextPos = pos ∧ 0 < cachedNextLen then wantedFrom (pos + cachedNextLen) stop
      else wantedFrom pos stop
  else wantedFrom pos stop

/-- The second part: what is done about a range. -/
def dispatchWanted (t : MsTask) : Wanted → Dispatch
  | .abort => .abort
  | .covered => .done
  | .range pos stop =>
    if (t.nearestPipe pos 1).any fun id => (t.currentPos id : Int) = pos then .done
    else if stop ≤ pos ∧ stop ≠ 0 then .done
    else .openPipe pos (if 0 < stop then stop - pos else 0)

/-- `dispatch_reader` -/
def dispatchReaderInt (w : IntArith) (t : MsTask) (r : Reader) : MsTask :=
  if t.aborted then t
  else
    match t.dispatchWanted (t.wantedRangeInt w r) with
    | .abort => t.abort
    | .done => t
    | .openPipe pos len => t.createPipeFor pos len

/-- `add_reader` -/
def addReaderInt (w : IntArith) (t : MsTask) (r : Reader) : MsTask :=
  dispatchReaderInt w { t with readers := t.readers ++ [r] } r

variable {w : IntArith} {t : MsTask} {r : Reader}

/-! ## Below 4 PiB -/

theorem wantedRangeInt_eq (h : r.next < 2 ^ 52) : t.wantedRangeInt w r = t.wantedRange w r := by
  have hstop : toInt64 ((r.next : Int) + maxCacheLen) = r.next + maxCacheLen := by
    have hcache : maxCacheLen = 20971520 := rfl
    exact toInt64_of_range (by omega) (by omega)
  have hfound := @cachedFromInt_eq w t.storage r.next h
  unfold wantedRangeInt wantedRange
  cases hcached : t.storage.cachedFrom w r.next with
  | none =>
    rw [hcached] at hfound
    simp only [hstop, hfound, hcached]
  | some found =>
    rw [hcached] at hfound
    simp only [hstop, hfound, hcached]

theorem dispatchOf_eq : t.dispatchOf w r = t.dispatchWanted (t.wantedRange w r) := by
  unfold dispatchOf dispatchWanted
  cases t.wantedRange w r with
  | abort => rfl
  | covered => rfl
  | range pos stop => rfl

/-- **Below 4 PiB** nothing is converted to another value. -/
theorem dispatchReaderInt_eq (h : r.next < 2 ^ 52) :
    t.dispatchReaderInt w r = t.dispatchReader w r := by
  have hwanted : t.dispatchWanted (t.wantedRangeInt w r) = t.dispatchOf w r := by
    rw [wantedRangeInt_eq h, dispatchOf_eq]
  unfold dispatchReaderInt dispatchReader
  cases hcase : t.dispatchOf w r with
  | abort =>
    rw [hcase] at hwanted
    simp only [hwanted]
  | done =>
    rw [hcase] at hwanted
    simp only [hwanted]
  | openPipe pos len =>
    rw [hcase] at hwanted
    simp only [hwanted]

theorem addReaderInt_eq (h : r.next < 2 ^ 52) : t.addReaderInt w r = t.addReader w r :=
  dispatchReaderInt_eq h

/-! ## Safe offsets -/

/-- No assert has failed, and no pipe was opened for a reader behind the end
    of the file. -/
structure OffsetSafe (t t' : MsTask) (r : Reader) : Prop where
  completes : t'.aborted = false
  noPipe : t.storage.filesize ≤ r.pos → t'.pipes = t.pipes

/-- The offset suits the state of the task: the scan stays in the table and
    finds no run that starts, or is entered, behind the end of the file; and
    an offset between the end of the file and the border of its last piece
    finds a pipe at that piece, or a task that opens none. -/
structure OffsetFits (t : MsTask) (r : Reader) : Prop where
  table : 0 ≤ blockIndexInt r.next
  run : ∀ k i, t.storage.FirstPieces (scanStart r.next) k i →
    t.storage.MissingAt i ∨ max (r.next : Int) (pieceFrom toInt32 k) ≤ t.storage.filesize
  slack : t.storage.filesize ≤ r.pos → t.storage.filesize < r.next →
    (border r.next : Int) < t.storage.filesize → r.next + maxCacheLen < 2 ^ 63 →
      t.code ≠ 0 ∨ t.PipeAt (border r.next)

/-! ## The asserts -/

theorem wantedRangeInt_abort_iff (hest : 0 < t.storage.estimateSize) :
    t.wantedRangeInt w r = .abort ↔ t.storage.cachedFromInt w r.next = none := by
  have hfrom : ∀ pos stop, wantedFrom pos stop ≠ .abort := by
    intro pos stop
    unfold wantedFrom
    split
    · exact Wanted.noConfusion
    · exact Wanted.noConfusion
  unfold wantedRangeInt
  dsimp only
  rw [if_pos hest]
  cases t.storage.cachedFromInt w r.next with
  | none => exact iff_of_true rfl rfl
  | some found =>
    refine iff_of_false ?_ (by simp)
    dsimp only
    split
    · exact Wanted.noConfusion
    · split
      · exact hfrom _ _
      · exact hfrom _ _

theorem dispatchWanted_abort_iff {x : Wanted} : t.dispatchWanted x = .abort ↔ x = .abort := by
  cases x with
  | abort => exact iff_of_true rfl rfl
  | covered => exact iff_of_false Dispatch.noConfusion Wanted.noConfusion
  | range pos stop =>
    refine iff_of_false ?_ Wanted.noConfusion
    unfold dispatchWanted
    dsimp only
    split
    · exact Dispatch.noConfusion
    · split
      · exact Dispatch.noConfusion
      · exact Dispatch.noConfusion

/-- An assert fails iff it is one of the scan. -/
theorem dispatchReaderInt_completes (hlive : t.aborted = false)
    (hest : 0 < t.storage.estimateSize) :
    (t.dispatchReaderInt w r).aborted = false ↔ (t.storage.cachedFromInt w r.next).isSome := by
  have habort := (@dispatchWanted_abort_iff t (t.wantedRangeInt w r)).trans
    (wantedRangeInt_abort_iff (w := w) (r := r) hest)
  unfold dispatchReaderInt
  rw [if_neg (by rw [hlive]; exact Bool.false_ne_true)]
  cases hcase : t.dispatchWanted (t.wantedRangeInt w r) with
  | abort =>
    rw [habort.mp hcase]
    exact iff_of_false (fun h => by cases h) (fun h => by cases h)
  | done =>
    refine iff_of_true hlive (Option.isSome_iff_ne_none.mpr fun hnone => ?_)
    rw [habort.mpr hnone] at hcase
    cases hcase
  | openPipe pos len =>
    refine iff_of_true ((createPipeFor_aborted t pos len).trans hlive)
      (Option.isSome_iff_ne_none.mpr fun hnone => ?_)
    rw [habort.mpr hnone] at hcase
    cases hcase

/-! ## Behind the end of the file -/

/-- The range that is asked for starts at the offset, and its stop is the end
    of the file or has wrapped. -/
theorem wantedRangeInt_past (hle : ∀ i, pieceFrom w i ≤ i * 16384)
    (hest : 0 < t.storage.estimateSize) (hpast : t.storage.estimateSize ≤ r.next)
    (hpos : r.next < 2 ^ 63) (hscan : (t.storage.cachedFromInt w r.next).isSome) :
    ∃ stop, t.wantedRangeInt w r = wantedFrom r.next stop ∧
      (r.next + maxCacheLen < 2 ^ 63 ∧ stop = t.storage.estimateSize ∨
        2 ^ 63 ≤ r.next + maxCacheLen ∧ stop < 0) := by
  have hcache : maxCacheLen = 20971520 := rfl
  obtain ⟨⟨at', len⟩, hfound⟩ := Option.isSome_iff_exists.mp hscan
  have hnothing := cachedFromInt_past hle hest hpast hfound
  have hfew : ¬ (at' = (r.next : Int) ∧ maxCacheLen / 2 ≤ len) := by
    intro hmany
    exact hnothing ⟨hmany.1, by omega⟩
  unfold wantedRangeInt
  dsimp only
  rw [if_pos hest, hfound]
  dsimp only
  rw [if_neg hfew, if_neg hnothing]
  refine ⟨_, rfl, ?_⟩
  by_cases hfits : (r.next : Int) + maxCacheLen < 2 ^ 63
  · left
    rw [toInt64_of_range (by omega) hfits, if_pos (by omega)]
    exact ⟨hfits, rfl⟩
  · right
    have hwrapped : toInt64 ((r.next : Int) + maxCacheLen) = r.next + maxCacheLen - 2 ^ 64 := by
      unfold toInt64
      omega
    rw [hwrapped, if_neg (by omega)]
    exact ⟨by omega, by omega⟩

/-- Behind the end of the file a pipe is opened only between the end and the
    border of the last piece. -/
theorem dispatchReaderInt_past (hle : ∀ i, pieceFrom w i ≤ i * 16384) (hlive : t.aborted = false)
    (hest : 0 < t.storage.estimateSize) (hpast : t.storage.estimateSize ≤ r.next)
    (hpos : r.next < 2 ^ 63) (hscan : (t.storage.cachedFromInt w r.next).isSome) :
    (t.dispatchReaderInt w r).pipes = t.pipes ↔
      (t.storage.estimateSize < r.next → (border r.next : Int) < t.storage.estimateSize →
        r.next + maxCacheLen < 2 ^ 63 → t.code ≠ 0 ∨ t.PipeAt (border r.next)) := by
  obtain ⟨stop, hwanted, hstop⟩ := wantedRangeInt_past hle hest hpast hpos hscan
  have hborder : (border r.next : Int) ≤ r.next := by
    have := Nat.sub_le r.next (r.next % msPieceUnitSize)
    unfold border
    omega
  unfold dispatchReaderInt
  rw [if_neg (by rw [hlive]; exact Bool.false_ne_true), hwanted]
  by_cases hend : 0 < (r.next : Int) ∧ (r.next : Int) = stop
  · -- exactly at the end
    rw [wantedFrom, if_pos hend]
    exact iff_of_true rfl fun _ => by omega
  · rw [wantedFrom_border (by omega)]
    unfold dispatchWanted
    dsimp only
    by_cases hpipe : t.PipeAt (border r.next)
    · rw [if_pos (nearestPipe_any.mpr hpipe)]
      exact iff_of_true rfl fun _ _ _ => Or.inr hpipe
    · rw [if_neg fun hany => hpipe (nearestPipe_any.mp hany)]
      by_cases hclosed : stop ≤ (border r.next : Int) ∧ stop ≠ 0
      · rw [if_pos hclosed]
        exact iff_of_true rfl fun _ _ _ => by omega
      · rw [if_neg hclosed]
        dsimp only
        generalize (if 0 < stop then stop - (border r.next : Int) else 0) = len
        by_cases hcode : t.code = 0
        · -- a pipe for the start of the last piece
          obtain ⟨url, hopened⟩ := createPipeFor_opened hcode (border r.next) len
          rw [hopened.pipes]
          refine iff_of_false (by simp) fun hall => ?_
          rcases hall (by omega) (by omega) (by omega) with hne | hat
          · exact hne hcode
          · exact hpipe hat
        · have hsame : t.createPipeFor (border r.next) len = t := if_pos hcode
          rw [hsame]
          exact iff_of_true rfl fun _ _ _ => Or.inl hcode

/-! ## Every offset -/

theorem dispatchReaderInt_safe_iff (hlive : t.aborted = false) (hsize : 0 < t.storage.filesize)
    (hpos : r.next < 2 ^ 63) :
    OffsetSafe t (t.dispatchReaderInt toInt32 r) r ↔ OffsetFits t r := by
  have hest := t.storage.known hsize
  have hnext : r.pos ≤ r.next := Nat.le_add_right _ _
  have hcompletes := @dispatchReaderInt_completes toInt32 t r hlive (by omega)
  have hasserts := @cachedFromInt_isSome_iff toInt32 t.storage r.next pieceFrom_toInt32_le
    (by omega)
  rw [hest] at hasserts
  have hpipes := fun hpast hscan => @dispatchReaderInt_past toInt32 t r pieceFrom_toInt32_le hlive
    (by omega) hpast hpos hscan
  rw [hest] at hpipes
  constructor
  · intro hsafe
    have hscan := hcompletes.mp hsafe.completes
    obtain ⟨htable, hrun⟩ := hasserts.mp hscan
    exact ⟨htable, hrun, fun hpast => (hpipes (by omega) hscan).mp (hsafe.noPipe hpast)⟩
  · intro hfits
    have hscan := hasserts.mpr ⟨hfits.table, hfits.run⟩
    exact ⟨hcompletes.mpr hscan, fun hpast => (hpipes (by omega) hscan).mpr (hfits.slack hpast)⟩

/-- **Client offsets.** In every state of a task that knows the size of its
    file, and for every reader: `dispatch_reader` and `add_reader` fail no
    assert, and open no pipe for an offset behind the end, iff the offset
    suits the state. -/
theorem offsetSafe_iff (t : MsTask) (r : Reader) (hlive : t.aborted = false)
    (hsize : 0 < t.storage.filesize) (hpos : r.next < 2 ^ 63) :
    (OffsetSafe t (t.dispatchReaderInt toInt32 r) r ↔ OffsetFits t r) ∧
      (OffsetSafe t (t.addReaderInt toInt32 r) r ↔ OffsetFits t r) := by
  refine ⟨dispatchReaderInt_safe_iff hlive hsize hpos, ?_⟩
  -- the queue of the readers has no part in it
  have hadded : OffsetFits { t with readers := t.readers ++ [r] } r ↔ OffsetFits t r :=
    ⟨fun h => ⟨h.table, h.run, h.slack⟩, fun h => ⟨h.table, h.run, h.slack⟩⟩
  have hsafe := @dispatchReaderInt_safe_iff { t with readers := t.readers ++ [r] } r hlive hsize
    hpos
  have hsame : OffsetSafe { t with readers := t.readers ++ [r] } (t.addReaderInt toInt32 r) r ↔
      OffsetSafe t (t.addReaderInt toInt32 r) r :=
    ⟨fun h => ⟨h.completes, h.noPipe⟩, fun h => ⟨h.completes, h.noPipe⟩⟩
  exact hsame.symm.trans (hsafe.trans hadded)

/-- An offset up to the end of a file of 2 GiB at most suits every state with
    no piece cached behind the end. -/
theorem offsetFits_of_le (hfile : t.storage.filesize ≤ 2 ^ 31) (hinside : t.storage.InsideFile)
    (hnext : (r.next : Int) ≤ t.storage.filesize) : OffsetFits t r := by
  have hbelow : r.next < 2 ^ 52 := by omega
  refine ⟨?_, fun k i hrun => ?_, fun _ hpast => ?_⟩
  · rw [blockIndexInt_eq hbelow]
    omega
  · have hcached := hrun.all k (Nat.le_refl _) hrun.more
    have hoffset := pieceFrom_toInt32_le k
    have hlast := hinside k hcached
    exact Or.inr (max_le hnext (by omega))
  · omega

/-- A task whose file of ten bytes has come whole. -/
def wholeTask : MsTask :=
  run (opStep toInt32) (msTaskOpen [])
    [.addReader ⟨0, 0, 0⟩, .callback 0 0 (.onFilesize 10) fun _ _ _ => [],
      .callback 0 10 (.onRecv [1, 2, 3, 4, 5, 6, 7, 8, 9, 10] 0) fun _ _ _ => []]

/-- A task that knows the size of the file, and whose only reader has left
    before its bytes came. -/
def leftTask : MsTask :=
  run (opStep toInt32) (msTaskOpen [])
    [.addReader ⟨0, 0, 0⟩, .callback 0 0 (.onFilesize 10) fun _ _ _ => [], .removeReader 0]

/-- The fourth byte of ten. -/
theorem offsetSafe_iff_ten :
    (OffsetSafe wholeTask (wholeTask.dispatchReaderInt toInt32 ⟨1, 3, 0⟩) ⟨1, 3, 0⟩ ↔
      OffsetFits wholeTask ⟨1, 3, 0⟩) ∧
    (OffsetSafe wholeTask (wholeTask.addReaderInt toInt32 ⟨1, 3, 0⟩) ⟨1, 3, 0⟩ ↔
      OffsetFits wholeTask ⟨1, 3, 0⟩) :=
  offsetSafe_iff wholeTask ⟨1, 3, 0⟩ (by decide +kernel) (by decide +kernel) (by decide)

/-- A reader at the twelfth byte of ten fails an assert of the scan when the
    bytes are cached, and opens a pipe when neither they nor a pipe are
    there. At 4 PiB the scan leaves the table. -/
theorem offset_misdirects :
    wholeTask.aborted = false ∧ wholeTask.storage.filesize = 10 ∧
      (wholeTask.addReaderInt toInt32 ⟨1, 2 ^ 52, 0⟩).aborted = true ∧
      ¬ OffsetSafe wholeTask (wholeTask.addReaderInt toInt32 ⟨1, 11, 0⟩) ⟨1, 11, 0⟩ ∧
    leftTask.aborted = false ∧ leftTask.storage.filesize = 10 ∧ leftTask.pipes = [] ∧
      (leftTask.addReaderInt toInt32 ⟨1, 11, 0⟩).pipes = [1] ∧
      ¬ OffsetSafe leftTask (leftTask.addReaderInt toInt32 ⟨1, 11, 0⟩) ⟨1, 11, 0⟩ := by
  have habort : (wholeTask.addReaderInt toInt32 ⟨1, 11, 0⟩).aborted = true := by decide +kernel
  have hsize : leftTask.storage.filesize = 10 := by decide +kernel
  have hnone : leftTask.pipes = [] := by decide +kernel
  have hopened : (leftTask.addReaderInt toInt32 ⟨1, 11, 0⟩).pipes = [1] := by decide +kernel
  refine ⟨by decide +kernel, by decide +kernel, by decide +kernel, fun hsafe => ?_,
    by decide +kernel, hsize, hnone, hopened, fun hsafe => ?_⟩
  · have hlive := hsafe.completes
    rw [habort] at hlive
    cases hlive
  · have hsame := hsafe.noPipe (by rw [hsize]; decide)
    rw [hopened, hnone] at hsame
    cases hsame

end MsTask

end Libms
