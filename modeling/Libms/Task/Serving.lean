import Mathlib
import Libms.Storage.IntOffsets
import Libms.Storage.Scan
import Libms.Task.SizesAgree

/-! # What `dispatch_reader` does for a reader

    After `dispatch_reader` a reader has enough bytes to go on with, or a
    pipe stands at the piece it needs next, or one was opened there. How
    much is cached at the reader's offset is what `cached_from` says, which
    forms the offset of the first piece it finds in an `int`.

    * `Enough`: so many bytes at the offset call for no new pipe.
    * `ServesReader`: what `dispatch_reader` should do by the bytes that are
      there.
    * `dispatchReader_reported`: what it does by the bytes that are reported.
    * `servesReader_iff`: when the two agree, in every state of a task. -/

namespace Libms

open CInt PartialMap Runs MemStorage

/-! ## Offsets in `int` -/

theorem pieceFrom_toInt32_le (i : Nat) : pieceFrom toInt32 i ≤ i * 16384 := by
  simp only [pieceFrom, pieceStart, blockStart, msBlockUnitSize, msPieceUnitSize, toInt32]
  push_cast
  omega

/-- An offset that wraps is still that of a piece. -/
theorem pieceFrom_toInt32_border (i : Nat) : (16384 : Int) ∣ pieceFrom toInt32 i := by
  simp only [pieceFrom, pieceStart, blockStart, msBlockUnitSize, msPieceUnitSize, toInt32]
  push_cast
  omega

theorem pieceFrom_toInt32_eq {i : Nat} (h : i * 16384 < 2 ^ 31) :
    pieceFrom toInt32 i = i * 16384 := by
  simp only [pieceFrom, pieceStart, blockStart, msBlockUnitSize, msPieceUnitSize, toInt32]
  push_cast
  omega

namespace MsTask

/-! ## What a reader should get -/

/-- The bytes cached at `pos`, one after the other, up to the end of the
    file. -/
def cachedAt (t : MsTask) (pos : Nat) : Nat :=
  leading t.storage.cachedByte pos (t.storage.filesize - pos).toNat

/-- The start of the piece that `pos` lies in. -/
def border (pos : Nat) : Nat := pos - pos % msPieceUnitSize

/-- With `n` bytes at `pos` nothing more is called for: that is half a cache
    length, or the rest of the file, or a pipe stands where they end. -/
def Enough (t : MsTask) (pos n : Nat) : Prop :=
  maxCacheLen / 2 ≤ n ∨ (0 < t.storage.filesize ∧ (pos + n : Int) = t.storage.filesize) ∨
    t.PipeAt (border (pos + n))

/-- One pipe was opened behind the bytes that are cached at `pos`. -/
structure Fetches (t t' : MsTask) (pos : Nat) : Prop where
  pipes : t'.pipes = t.pipes ++ [t.opened]
  opened : t'.currentPos t.opened = border (pos + t.cachedAt pos)
  alone : ∀ id ∈ t.pipes, t'.currentPos id ≠ border (pos + t.cachedAt pos)
  uncached : t.storage.cached (border (pos + t.cachedAt pos) / 16384) = false
  len : (t'.pipeOf t.opened).len =
    if t.storage.filesize = 0 then 0
    else min (pos + maxCacheLen) t.storage.filesize - border (pos + t.cachedAt pos)
  more : 0 < t.storage.filesize → 0 < (t'.pipeOf t.opened).len

/-- `dispatch_reader` fails no assert, and it opens no pipe and the reader
    has enough, or it opens one where the reader needs it. -/
def ServesReader (w : IntArith) (t : MsTask) (r : Reader) : Prop :=
  (t.dispatchReader w r).aborted = false ∧
    (t.dispatchReader w r = t ∧ t.Enough r.next (t.cachedAt r.next) ∨
      Fetches t (t.dispatchReader w r) r.next)

/-- The bytes at `pos` of a run of pieces from `k` up to `i`, counted from
    the offset that is formed for piece `k`. -/
def counted (w : IntArith) (t : MsTask) (pos k i : Nat) : Nat :=
  if pieceFrom w k ≤ pos then
    (min (pieceFrom w k + ((i : Int) - k) * 16384) t.storage.filesize - pos).toNat
  else 0

section serving

variable {w : IntArith} {t : MsTask} {r : Reader} {first pos n k i : Nat}

/-! ## What is reported -/

/-- `cached_from` reports `n` bytes at `pos`; none, if the run it has found
    starts elsewhere. -/
def Reports (w : IntArith) (t : MsTask) (pos n : Nat) : Prop :=
  ∃ start len, t.storage.cachedFrom w pos = some (start, len) ∧
    n = if start = (pos : Int) then len.toNat else 0

/-- The bytes end inside the file, and there are none while its size is
    unknown. -/
def InRange (t : MsTask) (pos n : Nat) : Prop :=
  t.storage.filesize = 0 ∧ n = 0 ∨
    0 < t.storage.filesize ∧ (pos + n : Int) ≤ t.storage.filesize

/-- While the size is unknown nothing is cached. -/
theorem cachedAt_unsized (h : SizesAgree first t) (hsize : t.storage.filesize = 0) :
    t.cachedAt pos = 0 :=
  leading_eq_zero (h.empty hsize _)

/-- And nothing is reported. -/
theorem reports_unsized (h : SizesAgree first t) (hsize : t.storage.filesize = 0) :
    Reports w t pos 0 := by
  have hest := h.estimate
  refine ⟨pos, -1, ?_, by simp⟩
  rw [MemStorage.cachedFrom, if_pos (by omega)]

/-- Where no piece is cached from `pos` on, nothing is reported. -/
theorem reports_none (hle : ∀ i, pieceFrom w i ≤ i * 16384) (h : SizesAgree first t)
    (hsize : 0 < t.storage.filesize) (hpos : (pos : Int) ≤ t.storage.filesize)
    (hnone : ∀ j, pos / 16384 ≤ j → t.storage.cached j = false) :
    Reports w t pos 0 ∧ t.cachedAt pos = 0 := by
  have hest := h.estimate
  constructor
  · rcases cachedFrom_cases hle (by omega) (by omega : (pos : Int) ≤ t.storage.estimateSize) with
      ⟨-, hscan⟩ | ⟨k, i, hrun, -⟩
    · refine ⟨0, 0, ?_, by simp⟩
      rw [hscan, clipScan, if_pos (by dsimp only; omega), if_neg (by dsimp only; omega)]
    · have hcached := hrun.all k (Nat.le_refl _) hrun.more
      rw [hnone k hrun.first] at hcached
      cases hcached
  · exact leading_eq_zero (hnone _ (Nat.le_refl _))

/-- A run that starts in the file is reported as it is counted. -/
theorem reports_run (hle : ∀ i, pieceFrom w i ≤ i * 16384) (h : SizesAgree first t)
    (hsize : 0 < t.storage.filesize) (hpos : (pos : Int) ≤ t.storage.filesize)
    (hrun : t.storage.FirstPieces pos k i) (hin : pieceFrom w k ≤ t.storage.filesize) :
    Reports w t pos (t.counted w pos k i) := by
  have hest := h.estimate
  have hscan := hrun.cachedFrom hle (by omega) (by omega)
  rw [clipScan, hest, if_pos (by simp only [runLoop]; omega)] at hscan
  refine ⟨_, _, hscan, ?_⟩
  have hend : (runLoop w pos k i).pos + (runLoop w pos k i).len =
      pieceFrom w k + ((i : Int) - k) * 16384 := by
    simp only [runLoop]
    ring
  by_cases hbefore : pieceFrom w k ≤ pos
  · have hat : (runLoop w pos k i).pos = pos := max_eq_left hbefore
    rw [counted, if_pos hbefore, if_pos hat]
    split <;> omega
  · have hat : (runLoop w pos k i).pos ≠ pos := by
      simp only [runLoop]
      omega
    rw [counted, if_neg hbefore, if_neg hat]

/-- The assert fails for a run that starts behind the end of the file. -/
theorem cachedFrom_eq_none (hle : ∀ i, pieceFrom w i ≤ i * 16384) (h : SizesAgree first t)
    (hsize : 0 < t.storage.filesize) (hpos : (pos : Int) ≤ t.storage.filesize)
    (hrun : t.storage.FirstPieces pos k i) (hin : t.storage.filesize < pieceFrom w k) :
    t.storage.cachedFrom w pos = none := by
  have hest := h.estimate
  rw [hrun.cachedFrom hle (by omega) (by omega), clipScan, hest, if_neg]
  simp only [runLoop]
  omega

/-- What is counted ends inside the file, and at a piece border or with the
    file. -/
theorem counted_range (hborder : ∀ i, (16384 : Int) ∣ pieceFrom w i)
    (hpos : (pos : Int) ≤ t.storage.filesize) :
    (pos + t.counted w pos k i : Int) ≤ t.storage.filesize ∧
      (t.counted w pos k i = 0 ∨ (pos + t.counted w pos k i : Int) = t.storage.filesize ∨
        (pos + t.counted w pos k i) % 16384 = 0) := by
  have hk := hborder k
  unfold counted
  split
  · rcases Int.le_total (pieceFrom w k + ((i : Int) - k) * 16384) t.storage.filesize with hle | hle
    · rw [min_eq_left hle]
      omega
    · rw [min_eq_right hle]
      omega
  · exact ⟨by omega, Or.inl rfl⟩

/-- From the right offset the bytes are counted as they are. -/
theorem counted_eq (hoffset : pieceFrom w k = k * 16384) (hpos : (pos : Int) ≤ t.storage.filesize)
    (hrun : t.storage.FirstPieces pos k i) : t.counted w pos k i = t.cachedAt pos := by
  have hfirst := hrun.first
  have hmore := hrun.more
  unfold counted cachedAt
  rw [hoffset]
  split
  · rw [hrun.leading_eq (by omega) (by omega)]
    omega
  · -- the run starts behind `pos`
    have huncached : t.storage.cachedByte pos = false :=
      hrun.before _ (Nat.le_refl _) (by omega)
    exact (leading_eq_zero huncached).symm

/-! ## What `dispatch_reader` does -/

theorem wantedFrom_border {stop : Int} (h : ¬ (0 < pos ∧ (pos : Int) = stop)) :
    wantedFrom pos stop = .range (border pos) stop := by
  rw [wantedFrom, if_neg (by omega)]
  congr 1
  simp only [border, msPieceUnitSize]
  omega

/-- The range that a reader asks for by what is reported. -/
theorem wantedRange_reported (h : SizesAgree first t) (hn : Reports w t r.next n)
    (hin : t.InRange r.next n) :
    (t.wantedRange w r = .covered ∧ t.Enough r.next n) ∨
      ¬ maxCacheLen / 2 ≤ n ∧ ¬ (0 < t.storage.filesize ∧ (r.next + n : Int) = t.storage.filesize) ∧
        t.wantedRange w r = .range (border (r.next + n))
          (min (r.next + maxCacheLen) t.storage.filesize) := by
  have hest := h.estimate
  have hcache : maxCacheLen = 20971520 := rfl
  have hstop : (if (r.next : Int) + maxCacheLen > t.storage.estimateSize then
      t.storage.estimateSize else r.next + maxCacheLen) =
        min (r.next + maxCacheLen) t.storage.filesize := by
    rw [hest]
    split <;> omega
  simp only [wantedRange, hstop]
  rcases hin with ⟨hsize, rfl⟩ | ⟨hsize, hin⟩
  · -- without a size nothing is asked of the storage
    have hzero : min ((r.next : Int) + maxCacheLen) t.storage.filesize = 0 := by
      rw [hsize]
      exact min_eq_right (by omega)
    right
    rw [hzero, if_neg (by omega), Nat.add_zero, wantedFrom_border (by omega)]
    exact ⟨by rw [hcache]; decide, by omega, rfl⟩
  · obtain ⟨start, len, hscan, hlen⟩ := hn
    rw [if_pos (by omega), hscan]
    dsimp only
    by_cases hmany : start = (r.next : Int) ∧ maxCacheLen / 2 ≤ len
    · rw [if_pos hmany]
      rw [if_pos hmany.1] at hlen
      left
      refine ⟨rfl, Or.inl ?_⟩
      rw [hcache] at hmany ⊢
      omega
    · rw [if_neg hmany]
      -- fewer bytes are there, if any, and the range starts behind them
      have hfew : (n : Int) < maxCacheLen / 2 := by
        rw [hcache] at hmany ⊢
        split at hlen <;> omega
      have hbehind : (if start = (r.next : Int) ∧ 0 < len then
          wantedFrom (r.next + len) (min (r.next + maxCacheLen) t.storage.filesize)
          else wantedFrom r.next (min (r.next + maxCacheLen) t.storage.filesize)) =
            wantedFrom ((r.next + n : Nat) : Int)
              (min (r.next + maxCacheLen) t.storage.filesize) := by
        split
        · rename_i hsome
          rw [if_pos hsome.1] at hlen
          congr 1
          omega
        · have hnone : n = 0 := by
            split at hlen <;> omega
          rw [hnone]
          rfl
      rw [hbehind]
      rw [hcache] at hfew
      by_cases hrest : (r.next + n : Int) = t.storage.filesize
      · left
        refine ⟨?_, Or.inr (Or.inl ⟨hsize, hrest⟩)⟩
        rw [wantedFrom, if_pos (by omega)]
      · right
        rw [wantedFrom_border (by omega)]
        exact ⟨by rw [hcache]; omega, fun hall => hrest hall.2, rfl⟩

/-- A range that is asked for starts before its stop. -/
theorem border_lt_stop (hsize : 0 < t.storage.filesize) (hhalf : ¬ maxCacheLen / 2 ≤ (n : Int))
    (hrest : ¬ (0 < t.storage.filesize ∧ (pos + n : Int) = t.storage.filesize))
    (hin : t.InRange pos n) :
    (border (pos + n) : Int) < min (pos + maxCacheLen) t.storage.filesize := by
  have hborder : border (pos + n) ≤ pos + n := Nat.sub_le _ _
  have hcache : maxCacheLen = 20971520 := rfl
  rw [hcache] at hhalf ⊢
  rcases hin with ⟨hzero, -⟩ | ⟨-, hin⟩
  · omega
  · apply lt_min
    · omega
    · omega

/-- `dispatch_reader` opens a pipe behind what is reported, unless that is
    enough. -/
theorem dispatchReader_reported (h : SizesAgree first t) (hlive : t.aborted = false)
    (hn : Reports w t r.next n) (hin : t.InRange r.next n) :
    (t.Enough r.next n ∧ t.dispatchReader w r = t) ∨
      ¬ t.Enough r.next n ∧ t.dispatchReader w r = t.createPipeFor (border (r.next + n))
        (if t.storage.filesize = 0 then 0
          else min (r.next + maxCacheLen) t.storage.filesize - border (r.next + n)) := by
  have hrange := wantedRange_reported h hn hin
  have hdispatches : ¬ t.aborted := by
    rw [hlive]
    exact Bool.false_ne_true
  rcases hrange with ⟨hcovered, henough⟩ | ⟨hhalf, hrest, hrange⟩
  · left
    refine ⟨henough, ?_⟩
    rw [dispatchReader, if_neg hdispatches, dispatchOf, hcovered]
  · by_cases hpipe : t.PipeAt (border (r.next + n))
    · left
      refine ⟨Or.inr (Or.inr hpipe), ?_⟩
      rw [dispatchReader, if_neg hdispatches, dispatchOf, hrange]
      dsimp only
      rw [if_pos (nearestPipe_any.mpr hpipe)]
    · right
      constructor
      · rintro (henough | henough | henough)
        · exact hhalf henough
        · exact hrest henough
        · exact hpipe henough
      · rw [dispatchReader, if_neg hdispatches, dispatchOf, hrange]
        dsimp only
        rw [if_neg fun hany => hpipe (nearestPipe_any.mp hany)]
        by_cases hsize : t.storage.filesize = 0
        · -- the stop is zero as long as the size is unknown
          have hcache : maxCacheLen = 20971520 := rfl
          have hstop : min ((r.next : Int) + maxCacheLen) t.storage.filesize = 0 := by
            rw [hsize]
            exact min_eq_right (by omega)
          rw [hstop, if_neg (fun hpast => hpast.2 rfl), if_neg (by decide), if_pos hsize]
        · have hnonneg := h.nonneg
          have hstop := border_lt_stop (by omega) hhalf hrest hin
          generalize min ((r.next : Int) + maxCacheLen) t.storage.filesize = stop at hstop ⊢
          rw [if_neg (by omega), if_pos (by omega), if_neg hsize]

theorem cachedAt_inRange (h : SizesAgree first t)
    (hpos : t.storage.filesize = 0 ∨ (pos : Int) ≤ t.storage.filesize) :
    t.InRange pos (t.cachedAt pos) := by
  have hnonneg := h.nonneg
  rcases Int.lt_or_eq_of_le hnonneg with hsize | hsize
  · right
    have hle : t.cachedAt pos ≤ (t.storage.filesize - pos).toNat := leading_le
    omega
  · exact Or.inl ⟨hsize.symm, cachedAt_unsized h hsize.symm⟩

/-- The byte behind those that are cached is not. -/
theorem cachedAt_stop (h : SizesAgree first t)
    (hrest : ¬ (0 < t.storage.filesize ∧ (pos + t.cachedAt pos : Int) = t.storage.filesize))
    (hin : t.InRange pos (t.cachedAt pos)) :
    t.storage.cached (border (pos + t.cachedAt pos) / 16384) = false := by
  have hborder : border (pos + t.cachedAt pos) / 16384 = (pos + t.cachedAt pos) / 16384 := by
    simp only [border, msPieceUnitSize]
    omega
  rw [hborder]
  rcases hin with ⟨hsize, -⟩ | ⟨hsize, hle⟩
  · exact h.empty hsize _
  · have hless : t.cachedAt pos < (t.storage.filesize - pos).toNat := by
      omega
    exact leading_stop hless

/-- A reader is served by what is there, if that is what is reported. -/
theorem servesReader_of_reports (h : SizesAgree first t) (hlive : t.aborted = false)
    (hcode : t.code = 0) (hin : t.InRange r.next (t.cachedAt r.next))
    (hn : Reports w t r.next (t.cachedAt r.next)) : ServesReader w t r := by
  rcases dispatchReader_reported h hlive hn hin with ⟨henough, hsame⟩ | ⟨hmore, hopen⟩
  · rw [ServesReader, hsame]
    exact ⟨hlive, Or.inl ⟨rfl, henough⟩⟩
  · rw [ServesReader, hopen]
    obtain ⟨url, hopened⟩ := createPipeFor_opened hcode (border (r.next + t.cachedAt r.next))
      (if t.storage.filesize = 0 then 0
        else min (r.next + maxCacheLen) t.storage.filesize - border (r.next + t.cachedAt r.next))
    refine ⟨(createPipeFor_aborted t _ _).trans hlive, Or.inr ?_⟩
    have hrest : ¬ (0 < t.storage.filesize ∧
        (r.next + t.cachedAt r.next : Int) = t.storage.filesize) :=
      fun hall => hmore (Or.inr (Or.inl hall))
    have hhalf : ¬ maxCacheLen / 2 ≤ (t.cachedAt r.next : Int) := fun hhalf => hmore (Or.inl hhalf)
    have hlen : 0 < t.storage.filesize → (border (r.next + t.cachedAt r.next) : Int) <
        min (r.next + maxCacheLen) t.storage.filesize :=
      fun hsize => border_lt_stop hsize hhalf hrest hin
    constructor
    · exact hopened.pipes
    · rw [currentPos, hopened.new]
      rfl
    · intro id hid hat
      apply hmore
      refine Or.inr (Or.inr ⟨id, hid, ?_⟩)
      rwa [currentPos, hopened.old id (h.known id hid)] at hat
    · exact cachedAt_stop h hrest hin
    · rw [hopened.new]
      simp only [HttpPipe.pipeConnect, msHttpPipeCreate]
      have hnonneg := h.nonneg
      by_cases hsize : t.storage.filesize = 0
      · rw [if_pos hsize]
        rfl
      · have := hlen (by omega)
        rw [if_neg hsize, if_pos (by omega)]
    · intro hsize
      have := hlen hsize
      rw [hopened.new]
      simp only [HttpPipe.pipeConnect, msHttpPipeCreate]
      rw [if_neg hsize.ne', if_pos (by omega)]
      omega

/-- A reader for which other bytes are reported than there are is served if
    both are enough. -/
theorem servesReader_of_miscounted (hborder : n = 0 ∨ (r.next + n : Int) = t.storage.filesize ∨
      (r.next + n) % 16384 = 0) (h : SizesAgree first t) (hlive : t.aborted = false)
    (hcode : t.code = 0) (hin : t.InRange r.next n) (hn : Reports w t r.next n)
    (hne : n ≠ t.cachedAt r.next) :
    ServesReader w t r ↔ t.Enough r.next n ∧ t.Enough r.next (t.cachedAt r.next) := by
  rcases dispatchReader_reported h hlive hn hin with ⟨henough, hsame⟩ | ⟨hmore, hopen⟩
  · rw [ServesReader, hsame]
    constructor
    · rintro ⟨-, ⟨-, hcached⟩ | hfetches⟩
      · exact ⟨henough, hcached⟩
      · have hpipes := congrArg List.length hfetches.pipes
        simp at hpipes
    · intro hboth
      exact ⟨hlive, Or.inl ⟨rfl, hboth.2⟩⟩
  · constructor
    · rw [ServesReader, hopen]
      obtain ⟨url, hopened⟩ := createPipeFor_opened hcode (border (r.next + n))
        (if t.storage.filesize = 0 then 0
          else min (r.next + maxCacheLen) t.storage.filesize - border (r.next + n))
      rintro ⟨-, ⟨hsame, -⟩ | hfetches⟩
      · have hpipes := congrArg List.length hopened.pipes
        rw [hsame] at hpipes
        simp at hpipes
      · -- the pipe stands at the wrong piece
        have hat : border (r.next + n) = border (r.next + t.cachedAt r.next) := by
          have hpos := hfetches.opened
          rwa [currentPos, hopened.new] at hpos
        have huncached := hfetches.uncached
        rw [← hat] at huncached
        simp only [border, msPieceUnitSize] at hat huncached
        rcases Nat.lt_or_gt_of_ne hne with hless | hgreater
        · have hcached : t.storage.cachedByte (r.next + n) = true := leading_spec hless
          rw [cachedByte, show (r.next + n) / 16384 =
            (r.next + n - (r.next + n) % 16384) / 16384 by omega, huncached] at hcached
          cases hcached
        · rcases hborder with hzero | hall | hborder
          · omega
          · refine absurd (Or.inr (Or.inl ⟨?_, hall⟩)) hmore
            rcases hin with ⟨-, hzero⟩ | ⟨hsize, -⟩
            · omega
            · exact hsize
          · omega
    · intro hboth
      exact absurd hboth.1 hmore

/-- **One reader.** In a state of a task a reader is served iff the run of
    cached pieces from its offset on, if there is one, is found inside the
    file and counted right, or would do either way. -/
theorem servesReader_iff_counted (hle : ∀ i, pieceFrom w i ≤ i * 16384)
    (hborder : ∀ i, (16384 : Int) ∣ pieceFrom w i) (h : SizesAgree first t)
    (hlive : t.aborted = false) (hcode : t.code = 0)
    (hpos : t.storage.filesize = 0 ∨ (r.next : Int) ≤ t.storage.filesize) :
    ServesReader w t r ↔ ∀ k i, t.storage.FirstPieces r.next k i →
      pieceFrom w k ≤ t.storage.filesize ∧
        (t.counted w r.next k i = t.cachedAt r.next ∨
          t.Enough r.next (t.counted w r.next k i) ∧ t.Enough r.next (t.cachedAt r.next)) := by
  have hin := cachedAt_inRange h hpos
  have hnonneg := h.nonneg
  by_cases hsize : t.storage.filesize = 0
  · -- without a size there is no run
    have hserves : ServesReader w t r := by
      apply servesReader_of_reports h hlive hcode hin
      rw [cachedAt_unsized h hsize]
      exact reports_unsized h hsize
    refine iff_of_true hserves fun k i hrun => ?_
    have hcached := hrun.all k (Nat.le_refl _) hrun.more
    rw [h.empty hsize k] at hcached
    cases hcached
  · have hsize : 0 < t.storage.filesize := by omega
    have hpos : (r.next : Int) ≤ t.storage.filesize := by omega
    constructor
    · intro hserves k i hrun
      have hfile : pieceFrom w k ≤ t.storage.filesize := by
        by_contra hbehind
        -- the scan fails its assert
        have hnone := cachedFrom_eq_none hle h hsize hpos hrun (by omega)
        have habort : t.dispatchReader w r = t.abort := by
          have hest := h.estimate
          rw [dispatchReader, if_neg (by rw [hlive]; exact Bool.false_ne_true), dispatchOf,
            wantedRange, if_pos (by omega)]
          simp only [hnone]
        have halive := hserves.1
        rw [habort] at halive
        cases halive
      refine ⟨hfile, ?_⟩
      by_cases hsame : t.counted w r.next k i = t.cachedAt r.next
      · exact Or.inl hsame
      · right
        obtain ⟨hend, hat⟩ := @counted_range w t r.next k i hborder hpos
        exact (servesReader_of_miscounted hat h hlive hcode (Or.inr ⟨hsize, hend⟩)
          (reports_run hle h hsize hpos hrun hfile) hsame).mp hserves
    · intro hruns
      by_cases hnone : ∀ j, r.next / 16384 ≤ j → t.storage.cached j = false
      · obtain ⟨hreports, hzero⟩ := @reports_none w t first r.next hle h hsize hpos hnone
        apply servesReader_of_reports h hlive hcode hin
        rwa [hzero]
      · have hest := h.estimate
        rcases @cachedFrom_cases w t.storage r.next hle (by omega) (by omega) with
          ⟨hno, -⟩ | ⟨k, i, hrun, -⟩
        · exact absurd hno hnone
        · obtain ⟨hfile, hcounted⟩ := hruns k i hrun
          have hreports := reports_run hle h hsize hpos hrun hfile
          by_cases hsame : t.counted w r.next k i = t.cachedAt r.next
          · rw [hsame] at hreports
            exact servesReader_of_reports h hlive hcode hin hreports
          · obtain ⟨hend, hat⟩ := @counted_range w t r.next k i hborder hpos
            exact (servesReader_of_miscounted hat h hlive hcode (Or.inr ⟨hsize, hend⟩)
              hreports hsame).mpr (hcounted.resolve_left hsame)

/-- On a file of at most 2 GiB, with no piece cached behind its end, every
    reader is served. -/
theorem servesReader_two_gib (h : SizesAgree first t) (hlive : t.aborted = false)
    (hcode : t.code = 0) (hpos : t.storage.filesize = 0 ∨ (r.next : Int) ≤ t.storage.filesize)
    (hfile : t.storage.filesize ≤ 2 ^ 31) (hinside : t.storage.InsideFile) :
    ServesReader toInt32 t r := by
  apply (servesReader_iff_counted pieceFrom_toInt32_le pieceFrom_toInt32_border h hlive hcode
    hpos).mpr
  intro k i hrun
  have hk := hinside k (hrun.all k (Nat.le_refl _) hrun.more)
  have hoffset := @pieceFrom_toInt32_eq k (by omega)
  have hnonneg := h.nonneg
  refine ⟨by omega, Or.inl ?_⟩
  exact counted_eq hoffset (by omega) hrun

/-! ## Callbacks that readers ignore -/

theorem notify_idle (c : PipeCall) : t.notify w (fun _ _ _ => []) c = t := by
  unfold notify
  induction t.readers.map Reader.id with
  | nil => rfl
  | cons _ _ ih => exact ih

/-- The first size that is reported. -/
theorem opStep_onFilesize {id : Nat} {filesize : Int} {st : MemStorage} (hlive : t.aborted = false)
    (hid : id ∈ t.pipes) (hst : t.storage.setFilesize filesize = some st) :
    t.opStep w (.callback id pos (.onFilesize filesize) fun _ _ _ => []) =
      { t with sizeCalls := t.sizeCalls ++ [⟨t.storage.filesize, filesize⟩], storage := st } := by
  have hset : t.setFilesize filesize =
      { t with sizeCalls := t.sizeCalls ++ [⟨t.storage.filesize, filesize⟩], storage := st } := by
    simp only [MsTask.setFilesize, hst]
  rw [opStep, if_neg (by rw [hlive]; exact Bool.false_ne_true), if_pos hid,
    pipeCallback_other rfl]
  simp only [MsTask.callback, onFilesize, hset, notify_idle, ite_self]

/-- The first size that follows from the length of an open-ended answer. -/
theorem opStep_onContentSize {id start : Nat} {size : Int} {st : MemStorage}
    (hlive : t.aborted = false) (hid : id ∈ t.pipes) (hlen : (t.pipeOf id).reqLen = 0)
    (hst : t.storage.setFilesize (start + size) = some st) :
    t.opStep w (.callback id pos (.onContentSize start size) fun _ _ _ => []) =
      { t with
        sizeCalls := t.sizeCalls ++ [⟨t.storage.filesize, start + size⟩], storage := st } := by
  have hset : t.setFilesize (start + size) =
      { t with
        sizeCalls := t.sizeCalls ++ [⟨t.storage.filesize, start + size⟩], storage := st } := by
    simp only [MsTask.setFilesize, hst]
  rw [opStep, if_neg (by rw [hlive]; exact Bool.false_ne_true), if_pos hid,
    pipeCallback_other rfl]
  simp only [MsTask.callback, onContentSize, if_pos hlen, hset, notify_idle, ite_self]

/-- Data that is stored. Then the pipe is looked at. -/
theorem opStep_onRecv {id start : Nat} {buf : List UInt8} {st : MemStorage}
    (hlive : t.aborted = false) (hid : id ∈ t.pipes)
    (hst : (t.recvCleared w start buf.length).storageWrite buf start = some (st, buf.length)) :
    t.opStep w (.callback id pos (.onRecv buf start) fun _ _ _ => []) =
      { t.setPipe id { t.pipeOf id with pos := pos } with storage := st }.dispatchPipe id := by
  have hstored : (t.setPipe id { t.pipeOf id with pos := pos }).recvStore w buf start =
      { t.setPipe id { t.pipeOf id with pos := pos } with storage := st } := by
    have hcleared : (t.setPipe id { t.pipeOf id with pos := pos }).recvCleared w start buf.length =
        t.recvCleared w start buf.length := rfl
    simp only [recvStore, hcleared, hst, if_true]
  have halive : { t.setPipe id { t.pipeOf id with pos := pos } with storage := st }.aborted =
      false := hlive
  rw [opStep, if_neg (by rw [hlive]; exact Bool.false_ne_true), if_pos hid, pipeCallback_recv]
  simp only [onRecv, hstored, notify_idle, ite_self, halive, Bool.false_eq_true, if_false]

/-- The first data of a file is stored where nothing is to be evicted. -/
theorem stored_first {st : MemStorage} (holdPos : List Int) {buf : List UInt8} {start : Nat}
    (hnothing : ∀ i, st.cached i = false) (halign : (start : Int) % 16384 = 0)
    (hwhole : buf.length % 16384 = 0) (hin : (start : Int) + buf.length ≤ st.estimateSize) :
    ∃ st', (st.clearBufferFor w holdPos start buf.length).storageWrite buf start =
        some (st', buf.length) ∧ st'.filesize = st.filesize ∧
      ∀ i, st'.cached i = decide (start ≤ i * 16384 ∧ i * 16384 < start + buf.length) := by
  have hcleared := @clearBufferFor_spec w holdPos st start buf.length
  obtain ⟨st', hst', hwritten⟩ :=
    @storageWrite_spec buf (st.clearBufferFor w holdPos start buf.length) start
      (writeAligned_iff.mpr ⟨halign, Or.inr hwhole⟩) (by rw [hcleared.estimateSize]; exact hin)
  refine ⟨st', hst', hwritten.filesize.trans hcleared.filesize, fun i => ?_⟩
  have hnone : (st.clearBufferFor w holdPos start buf.length).cached i = false := by
    by_contra hyes
    have hbefore := clearBufferFor_subset (eq_true_of_ne_false hyes)
    rw [hnothing] at hbefore
    cases hbefore
  rw [hwritten.cached, hnone, Bool.false_or]

end serving

end MsTask

open MsTask

/-- **A reader is served.** In every state of a task without an error,
    `dispatch_reader` leaves a reader of unknown size, or inside the file,
    with what it needs, iff the first cached piece from its offset on is
    found inside the file and its run counted right, or what is counted and
    what is there are both enough. The calls that lead to the state are those
    of readers and of the pipes in the queue; what a pipe calls back behind
    the callback that took it out is not among them. -/
theorem servesReader_iff (url : List Char) (ops : List TaskOp) (r : Reader)
    (hlive : (run (opStep toInt32) (msTaskOpen url) ops).aborted = false)
    (hcode : (run (opStep toInt32) (msTaskOpen url) ops).code = 0)
    (hpos : (run (opStep toInt32) (msTaskOpen url) ops).storage.filesize = 0 ∨
      (r.next : Int) ≤ (run (opStep toInt32) (msTaskOpen url) ops).storage.filesize) :
    let t := run (opStep toInt32) (msTaskOpen url) ops
    ServesReader toInt32 t r ↔ ∀ k i, t.storage.FirstPieces r.next k i →
      pieceFrom toInt32 k ≤ t.storage.filesize ∧
        (t.counted toInt32 r.next k i = t.cachedAt r.next ∨
          t.Enough r.next (t.counted toInt32 r.next k i) ∧
            t.Enough r.next (t.cachedAt r.next)) := by
  obtain ⟨first, h⟩ := run_sizesAgree toInt32 url ops
  exact servesReader_iff_counted pieceFrom_toInt32_le pieceFrom_toInt32_border h hlive hcode hpos

/-- A reader asks for the last byte of a file of 16 KiB and one byte, and the
    byte comes. -/
def lastByte : List TaskOp :=
  [.addReader ⟨0, 16384, 0⟩, .callback 0 16384 (.onFilesize 16385) fun _ _ _ => [],
    .callback 0 16385 (.onRecv [9] 16384) fun _ _ _ => []]

/-- Another reader, before that byte. -/
theorem servesReader_iff_last :
    let t := run (opStep toInt32) (msTaskOpen []) lastByte
    let r : Reader := ⟨1, 5, 0⟩
    t.storage.cached 1 = true ∧ t.aborted = false ∧ t.code = 0 ∧
      (r.next : Int) ≤ t.storage.filesize ∧
      (ServesReader toInt32 t r ↔ ∀ k i, t.storage.FirstPieces r.next k i →
        pieceFrom toInt32 k ≤ t.storage.filesize ∧
          (t.counted toInt32 r.next k i = t.cachedAt r.next ∨
            t.Enough r.next (t.counted toInt32 r.next k i) ∧
              t.Enough r.next (t.cachedAt r.next))) :=
  ⟨by decide +kernel, by decide +kernel, by decide +kernel, by decide +kernel,
    servesReader_iff [] lastByte ⟨1, 5, 0⟩ (by decide +kernel) (by decide +kernel)
      (Or.inr (by decide +kernel))⟩

/-- The reader of the last piece of a file of 2 GiB and 16 KiB. -/
def lastPieceReader : Reader := ⟨0, 2147483648, 0⟩

/-- The reader asks for the piece, and the piece comes. -/
def lastPiece : List TaskOp :=
  [.addReader lastPieceReader, .callback 0 0 (.onFilesize 2147500032) fun _ _ _ => [],
    .callback 0 2147500032 (.onRecv (List.replicate 16384 0) 2147483648) fun _ _ _ => []]

/-- A task that has the last piece, and no pipe that could bring it. Of the
    cached bytes none are counted, since their offset wraps. -/
theorem not_servesReader_last {first : Nat} {t : MsTask} (h : SizesAgree first t)
    (hlive : t.aborted = false) (hcode : t.code = 0) (hfile : t.storage.filesize = 2147500032)
    (hcached : ∀ i, t.storage.cached i = decide (i = 131072)) (hpipe : ¬ t.PipeAt 2147483648) :
    t.cachedAt 2147483648 = 16384 ∧ ¬ ServesReader toInt32 t lastPieceReader := by
  have hfirst : t.storage.FirstPieces 2147483648 131072 131073 := by
    constructor
    · decide
    · decide
    · intro j hj hlt
      omega
    · intro j hj hlt
      rw [hcached, decide_eq_true_eq]
      omega
    · rw [hcached, decide_eq_false_iff_not]
      decide
  have hthere : t.cachedAt 2147483648 = 16384 := by
    rw [cachedAt, hfirst.leading_eq (by decide) (by decide), hfile]
    decide
  refine ⟨hthere, fun hserves => ?_⟩
  obtain ⟨-, hcounted⟩ := (servesReader_iff_counted pieceFrom_toInt32_le pieceFrom_toInt32_border h
    hlive hcode (Or.inr (by rw [hfile]; decide))).mp hserves 131072 131073 hfirst
  have hzero : t.counted toInt32 2147483648 131072 131073 = 0 := by
    have hoffset : pieceFrom toInt32 131072 = -2147483648 := by decide
    rw [counted, hoffset, hfile]
    decide
  rw [show lastPieceReader.next = 2147483648 from rfl, hzero, hthere] at hcounted
  rcases hcounted with hsame | ⟨hhalf | ⟨-, hrest⟩ | hat, -⟩
  · omega
  · exact absurd hhalf (by decide)
  · rw [hfile] at hrest
    exact absurd hrest (by decide)
  · exact hpipe hat

/-- With the last piece cached there is nothing more to ask for, but the
    offset of that piece is formed as a negative `int`. -/
theorem servesReader_wrapped :
    let t := run (opStep toInt32) (msTaskOpen []) lastPiece
    t.aborted = false ∧ t.code = 0 ∧ t.storage.filesize = 2147500032 ∧
      t.cachedAt 2147483648 = 16384 ∧ ¬ ServesReader toInt32 t lastPieceReader := by
  obtain ⟨first, h⟩ := run_sizesAgree toInt32 [] lastPiece
  have hlength : (List.replicate 16384 (0 : UInt8)).length = 16384 := List.length_replicate
  rw [lastPiece] at h ⊢
  generalize List.replicate 16384 (0 : UInt8) = buf at hlength h ⊢
  -- the first two steps
  obtain ⟨st₁, hst₁⟩ := @setFilesize_open 2147500032 (by decide)
  obtain ⟨hfile₁, hest₁, -, hpiece₁⟩ := setFilesize_spec hst₁
  let t₁ := opStep toInt32 (msTaskOpen []) (.addReader lastPieceReader)
  let t₂ : MsTask :=
    { t₁ with sizeCalls := t₁.sizeCalls ++ [⟨t₁.storage.filesize, 2147500032⟩], storage := st₁ }
  have ht₂ : opStep toInt32 t₁ (.callback 0 0 (.onFilesize 2147500032) fun _ _ _ => []) = t₂ :=
    opStep_onFilesize rfl (by decide) hst₁
  have hnothing : ∀ i, st₁.cached i = false := by
    intro i
    rw [not_cached_iff]
    exact hpiece₁ i
  obtain ⟨st₃, hst₃, hfile₃, hcached⟩ :=
    @stored_first toInt32 st₁ t₂.holdPositions buf 2147483648 hnothing (by decide)
      (by rw [hlength]) (by rw [hest₁, hlength]; decide)
  let t₃ : MsTask :=
    { t₂.setPipe 0 { t₂.pipeOf 0 with pos := 2147500032 } with storage := st₃ }
  have ht₃ : opStep toInt32 t₂ (.callback 0 2147500032 (.onRecv buf 2147483648)
      fun _ _ _ => []) = t₃.dispatchPipe 0 :=
    opStep_onRecv rfl (List.mem_singleton.mpr rfl) hst₃
  have hpruned : Pruned t₃ (t₃.dispatchPipe 0) := dispatchPipe_pruned
  rw [run_cons, run_cons, ht₂, run_cons, ht₃, run_nil] at h ⊢
  -- the pipe of the queue, if it is still there, has passed the piece
  have hpipe : ¬ (t₃.dispatchPipe 0).PipeAt 2147483648 := by
    rintro ⟨id, hid, hat⟩
    have hzero : id = 0 := List.mem_singleton.mp (hpruned.pipes id hid)
    have hpassed : t₃.currentPos 0 = 2147500032 := rfl
    rw [hpruned.currentPos, hzero, hpassed] at hat
    omega
  have hstorage : (t₃.dispatchPipe 0).storage = st₃ := hpruned.storage
  have hlive : (t₃.dispatchPipe 0).aborted = false := hpruned.aborted
  have hcode : (t₃.dispatchPipe 0).code = 0 := hpruned.code
  have hfile : (t₃.dispatchPipe 0).storage.filesize = 2147500032 := by
    rw [hstorage, hfile₃, hfile₁]
  refine ⟨hlive, hcode, hfile, not_servesReader_last h hlive hcode hfile (fun i => ?_) hpipe⟩
  rw [hstorage, hcached, hlength, decide_eq_decide]
  omega

end Libms
