import Mathlib
import Libms.Task.Dispatch

/-! # Which readers a removed one starves

    `remove_reader` runs `dispatch_pipe` over all pipes and dispatches no
    reader again. A reader that waits for a pipe at the piece it needs is
    starved when that pipe is closed: the pipe stands at the border of the
    piece, and a reader in the middle of it does not count as behind the pipe.

    * `Useful.dispatchPipe`: while a pipe at a position is useful, one stays there.
    * `useless_dispatchPipe`: a position where no pipe is useful stays so.
    * `pipeAt_removeReader`: where pipes are left.
    * `removeReader_served_iff`: which readers are served afterwards. -/

namespace Libms

open Runs

namespace MsTask

section prune

variable {t : MsTask} {pos id : Nat} {r : Reader} {ids : List Nat}

/-! ## A useful position -/

/-- Closing pipes keeps a useful position useful. -/
theorem Useful.pruned {t' : MsTask} (h : t.Useful pos r) (hp : Pruned t t') : t'.Useful pos r where
  reader := by rw [hp.readers]; exact h.reader
  behind := h.behind
  nearest r' hr' := by
    rw [hp.readers] at hr'
    exact h.nearest r' hr'
  close := h.close
  first id hid hlt := by
    rw [hp.currentPos] at hlt ⊢
    exact h.first id (hp.pipes id hid) hlt

/-- At a useful position `dispatch_pipe` leaves a pipe: only a twin is closed. -/
theorem Useful.dispatchPipe (h : t.Useful pos r) (hat : t.PipeAt pos) :
    (t.dispatchPipe id).PipeAt pos := by
  obtain ⟨q, hq, hpos⟩ := hat
  by_cases hstay : t.Alone id ∧ ∃ r, t.Useful (t.currentPos id) r
  · obtain ⟨halone, r', hr'⟩ := hstay
    rw [dispatchPipe_of_stays hr' halone]
    exact ⟨q, hq, hpos⟩
  · rw [dispatchPipe_of_not_stays fun halone hr => hstay ⟨halone, hr⟩]
    have hsame := (@closePipe_pruned t id).currentPos
    by_cases hqid : q = id
    · -- the closed pipe stood at `pos`, so it was not alone there
      subst hqid
      have htwin : ¬ t.Alone q := fun halone => hstay ⟨halone, r, by rwa [hpos]⟩
      unfold Alone at htwin
      push Not at htwin
      obtain ⟨other, hother, hne, heq⟩ := htwin
      refine ⟨other, mem_closePipe.mpr ⟨hother, hne⟩, ?_⟩
      rw [hsame, heq, hpos]
    · refine ⟨q, mem_closePipe.mpr ⟨hq, hqid⟩, ?_⟩
      rw [hsame, hpos]

theorem Useful.dispatchPipes (h : t.Useful pos r) (hat : t.PipeAt pos) :
    (ids.foldl MsTask.dispatchPipe t).PipeAt pos := by
  induction ids generalizing t with
  | nil => exact hat
  | cons id ids ih => exact ih (h.pruned dispatchPipe_pruned) (h.dispatchPipe hat)

/-! ## A useless position -/

/-- Of the pipes between a reader and a position, the first stands at a
    position of its own. -/
theorem exists_first {start : Nat}
    (h : ∃ q ∈ t.pipes, start ≤ t.currentPos q ∧ t.currentPos q < pos) :
    ∃ x, t.PipeAt x ∧ start ≤ x ∧ x < pos ∧
      ∀ q ∈ t.pipes, t.currentPos q < x → t.currentPos q < start := by
  have hex : ∃ x, t.PipeAt x ∧ start ≤ x ∧ x < pos := by
    obtain ⟨q, hq, hle, hlt⟩ := h
    exact ⟨t.currentPos q, ⟨q, hq, rfl⟩, hle, hlt⟩
  classical
  obtain ⟨hat, hle, hlt⟩ := Nat.find_spec hex
  refine ⟨Nat.find hex, hat, hle, hlt, ?_⟩
  intro q hq hbefore
  by_contra hnot
  exact Nat.find_min hex hbefore ⟨⟨q, hq, rfl⟩, by omega, by omega⟩

/-- What makes a position useless stays: a pipe in between is closed only
    if another one is left in between. -/
theorem useless_dispatchPipe (h : ¬ ∃ r, t.Useful pos r) :
    ¬ ∃ r, (t.dispatchPipe id).Useful pos r := by
  rintro ⟨r, hr⟩
  have hp := @dispatchPipe_pruned t id
  apply h
  refine ⟨r, by rw [← hp.readers]; exact hr.reader, hr.behind, ?_, hr.close, ?_⟩
  · intro r' hr'
    rw [← hp.readers] at hr'
    exact hr.nearest r' hr'
  · intro q hq hlt
    by_contra hbetween
    obtain ⟨x, hx, hle, hxlt, hfirst⟩ := @exists_first t pos r.next ⟨q, hq, by omega, hlt⟩
    have huseful : t.Useful x r := by
      refine ⟨by rw [← hp.readers]; exact hr.reader, hle, ?_, ?_, hfirst⟩
      · intro r' hr' hle'
        rw [← hp.readers] at hr'
        exact hr.nearest r' hr' (by omega)
      · have := hr.close
        omega
    -- so a pipe is left at `x`, before `pos` and not before the reader
    obtain ⟨q', hq', hpos'⟩ := @Useful.dispatchPipe t x id r huseful hx
    have := hr.first q' hq' (by omega)
    omega

/-- Every pipe at a useless position is closed when its turn comes. -/
theorem useless_dispatchPipes (h : ¬ ∃ r, t.Useful pos r) (hid : id ∈ ids)
    (hpos : t.currentPos id = pos) : id ∉ (ids.foldl MsTask.dispatchPipe t).pipes := by
  induction ids generalizing t with
  | nil => cases hid
  | cons first ids ih =>
    rw [List.foldl_cons]
    rcases List.mem_cons.mp hid with rfl | hlater
    · intro hleft
      -- its turn: it is closed, and never opened again
      have hnot : t.Alone id → ¬ ∃ r, t.Useful (t.currentPos id) r := by
        intro _
        rwa [hpos]
      rw [dispatchPipe_of_not_stays hnot] at hleft
      have := (dispatchPipes_pruned ids).pipes id hleft
      exact (mem_closePipe.mp this).2 rfl
    · -- not yet its turn: the position stays useless until then
      apply ih (useless_dispatchPipe h) hlater
      rw [dispatchPipe_pruned.currentPos, hpos]

/-- After `dispatch_pipe` over the queue a pipe stands at a position iff
    one stood there and is useful. -/
theorem pipeAt_prune :
    (t.pipes.foldl MsTask.dispatchPipe t).PipeAt pos ↔ t.PipeAt pos ∧ ∃ r, t.Useful pos r := by
  have hp := @dispatchPipes_pruned t t.pipes
  constructor
  · rintro ⟨q, hq, hpos⟩
    rw [hp.currentPos] at hpos
    have hbefore := hp.pipes q hq
    refine ⟨⟨q, hbefore, hpos⟩, ?_⟩
    by_contra hno
    exact useless_dispatchPipes hno hbefore hpos hq
  · rintro ⟨hat, r, hr⟩
    exact hr.dispatchPipes hat

end prune

/-! ## `remove_reader` -/

/-- The task without a reader, before its pipes are looked at. -/
def withoutReader (t : MsTask) (id : Nat) : MsTask :=
  { t with readers := t.readers.filter fun r => r.id ≠ id }

section remove

variable {w : IntArith} {t : MsTask} {id : Nat} {r : Reader}

theorem removeReader_eq :
    t.removeReader id = (t.withoutReader id).pipes.foldl dispatchPipe (t.withoutReader id) := rfl

/-- Where pipes are left: at the useful positions. -/
theorem pipeAt_removeReader {pos : Nat} :
    (t.removeReader id).PipeAt pos ↔ t.PipeAt pos ∧ ∃ r, (t.withoutReader id).Useful pos r := by
  rw [removeReader_eq, pipeAt_prune]
  rfl

theorem removeReader_wantedRange : (t.removeReader id).wantedRange w r = t.wantedRange w r := by
  rw [removeReader_eq, (dispatchPipes_pruned _).wantedRange]
  rfl

theorem removeReader_needsNothing :
    (t.removeReader id).NeedsNothing w r ↔ t.NeedsNothing w r := by
  unfold NeedsNothing
  rw [removeReader_wantedRange]

/-- **Starved readers.** A reader that is served stays served when reader
    `id` is removed iff it needs no pipe, or the position that
    `dispatch_reader` asks for is useful to a reader that is left: such a
    reader is at or before it, less than a cache length away, and with no
    pipe in between. -/
theorem removeReader_served_iff (w : IntArith) (t : MsTask) (id : Nat) (r : Reader)
    (hcode : t.code = 0) (hserved : t.Served w r) :
    (t.removeReader id).Served w r ↔
      t.NeedsNothing w r ∨
        ∃ pos stop, t.wantedRange w r = .range pos stop ∧
          ∃ r', (t.withoutReader id).Useful pos r' := by
  have hp := @dispatchPipes_pruned (t.withoutReader id) (t.withoutReader id).pipes
  rw [← removeReader_eq] at hp
  obtain ⟨halive, hdone⟩ := (served_iff hcode).mp hserved
  have halive' : (t.removeReader id).aborted = false := by rw [hp.aborted]; exact halive
  rw [served_iff (by rw [hp.code]; exact hcode), dispatchOf_done, removeReader_needsNothing,
    removeReader_wantedRange]
  constructor
  · rintro ⟨_, hneeds | ⟨pos, stop, hwanted, hat⟩⟩
    · exact Or.inl hneeds
    · exact Or.inr ⟨pos, stop, hwanted, (pipeAt_removeReader.mp hat).2⟩
  · rintro (hneeds | ⟨pos, stop, hwanted, hr⟩)
    · exact ⟨halive', Or.inl hneeds⟩
    · refine ⟨halive', ?_⟩
      rcases dispatchOf_done.mp hdone with hneeds | ⟨pos', stop', hwanted', hat⟩
      · exact Or.inl hneeds
      · -- the pipe that served the reader stands at the position asked for
        rw [hwanted] at hwanted'
        cases hwanted'
        exact Or.inr ⟨pos, stop, hwanted, pipeAt_removeReader.mpr ⟨hat, hr⟩⟩

/-- Two readers of a new task, at the first byte and in the first piece. -/
def twoReaders : MsTask :=
  run (step exactInt) (msTaskOpen ['u']) [.addReader ⟨0, 0, 0⟩, .addReader ⟨1, 100, 0⟩]

/-- The condition for the second of them when the first is removed. -/
theorem removeReader_served_iff_two :
    (twoReaders.removeReader 0).Served exactInt ⟨1, 100, 0⟩ ↔
      twoReaders.NeedsNothing exactInt ⟨1, 100, 0⟩ ∨
        ∃ pos stop, twoReaders.wantedRange exactInt ⟨1, 100, 0⟩ = .range pos stop ∧
          ∃ r', (twoReaders.withoutReader 0).Useful pos r' :=
  removeReader_served_iff exactInt twoReaders 0 ⟨1, 100, 0⟩ rfl ⟨rfl, rfl⟩

/-- The second reader waits for the pipe at offset 0 and loses it. -/
theorem removeReader_starves :
    Reachable exactInt twoReaders ∧ twoReaders.code = 0 ∧
      twoReaders.readers = [⟨0, 0, 0⟩, ⟨1, 100, 0⟩] ∧
      twoReaders.Served exactInt ⟨1, 100, 0⟩ ∧
      ¬ (twoReaders.removeReader 0).Served exactInt ⟨1, 100, 0⟩ := by
  refine ⟨⟨_, _, rfl⟩, rfl, rfl, ⟨rfl, rfl⟩, ?_⟩
  rintro ⟨_, hopened⟩
  exact absurd hopened (by decide)

end remove

end MsTask

end Libms
