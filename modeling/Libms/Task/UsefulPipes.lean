import Mathlib
import Libms.Task.RemoveReader

/-! # Which pipes a removed reader leaves

    `remove_reader` judges each pipe against the queue as it is by then, and
    later verdicts take more pipes out. A pipe that was kept stays useful to
    its reader, and alone where it stands: both speak of the other pipes only
    to say that there are none.

    * `kept_of_mem_dispatchPipes`: every pipe that is left was kept in its turn.
    * `Serves.injective`: two pipes do not serve one reader.
    * `removeReader_prunes`: what is left in the queue. -/

namespace Libms

namespace MsTask

/-- Pipe `p` serves reader `r`: of the readers at or behind the pipe it is
    the nearest and less than a cache length away, and no other pipe stands
    between the two, the position of either included. -/
structure Serves (t : MsTask) (p : Nat) (r : Reader) : Prop where
  reader : r ∈ t.readers
  behind : r.next ≤ t.currentPos p
  nearest : ∀ r' ∈ t.readers, r'.next ≤ t.currentPos p → r'.next ≤ r.next
  close : t.currentPos p < r.next + maxCacheLen
  only : ∀ p' ∈ t.pipes, p' ≠ p → ¬ (r.next ≤ t.currentPos p' ∧ t.currentPos p' ≤ t.currentPos p)

section kept

variable {t t' : MsTask} {id p p' : Nat} {r : Reader}

theorem Alone.pruned (h : t.Alone id) (hp : Pruned t t') : t'.Alone id := by
  intro other hother hne
  rw [hp.currentPos, hp.currentPos]
  exact h other (hp.pipes other hother) hne

/-- A useful pipe that is alone serves its reader. -/
theorem Useful.serves (hr : t.Useful (t.currentPos p) r) (halone : t.Alone p) : t.Serves p r where
  reader := hr.reader
  behind := hr.behind
  nearest := hr.nearest
  close := hr.close
  only := by
    rintro p' hp' hne ⟨hfrom, hto⟩
    have hother : t.currentPos p' ≠ t.currentPos p := halone p' hp' hne
    have := hr.first p' hp' (by omega)
    omega

/-- **Verdicts stay valid.** A pipe that is left when the loop has ended was
    kept in its turn, and no later turn changes what it was kept for. -/
theorem kept_of_mem_dispatchPipes {ids : List Nat} (hid : id ∈ ids)
    (hleft : id ∈ (ids.foldl MsTask.dispatchPipe t).pipes) :
    (ids.foldl MsTask.dispatchPipe t).Alone id ∧
      ∃ r, (ids.foldl MsTask.dispatchPipe t).Useful (t.currentPos id) r := by
  induction ids generalizing t with
  | nil => cases hid
  | cons first ids ih =>
    rw [List.foldl_cons] at hleft ⊢
    by_cases hlater : id ∈ ids
    · obtain ⟨halone, r, hr⟩ := ih hlater hleft
      rw [dispatchPipe_pruned.currentPos] at hr
      exact ⟨halone, r, hr⟩
    · have hself : id = first := (List.mem_cons.mp hid).resolve_right hlater
      subst hself
      have hrest := @dispatchPipes_pruned (t.dispatchPipe id) ids
      by_cases hstays : t.Alone id ∧ ∃ r, t.Useful (t.currentPos id) r
      · obtain ⟨halone, r, hr⟩ := hstays
        rw [dispatchPipe_of_stays hr halone] at hrest ⊢
        exact ⟨halone.pruned hrest, r, hr.pruned hrest⟩
      · -- it was closed, and a closed pipe does not come back
        have hclosed := @dispatchPipe_of_not_stays t id fun halone hr => hstays ⟨halone, hr⟩
        have hin := hrest.pipes id hleft
        rw [hclosed] at hin
        exact absurd rfl (mem_closePipe.mp hin).2

/-- Of two pipes behind one reader the nearer one stands in the other's way. -/
theorem Serves.injective (hp : p ∈ t.pipes) (hp' : p' ∈ t.pipes) (h : t.Serves p r)
    (h' : t.Serves p' r) : p = p' := by
  by_contra hne
  rcases Nat.le_total (t.currentPos p) (t.currentPos p') with hle | hle
  · exact h'.only p hp hne ⟨h.behind, hle⟩
  · exact h.only p' hp' (Ne.symm hne) ⟨h'.behind, hle⟩

/-- Pipes that all serve some reader are at most as many as the readers. -/
theorem card_pipes_le (h : ∀ p ∈ t.pipes, ∃ r, t.Serves p r) :
    t.pipes.toFinset.card ≤ t.readers.length := by
  classical
  have : Nonempty Reader := ⟨⟨0, 0, 0⟩⟩
  choose! reader hserves using h
  have hmem : ∀ p ∈ t.pipes.toFinset, reader p ∈ t.readers.toFinset := by
    intro p hp
    exact List.mem_toFinset.mpr (hserves p (List.mem_toFinset.mp hp)).reader
  have hinj : Set.InjOn reader t.pipes.toFinset := by
    intro p hp p' hp' heq
    have hp := List.mem_toFinset.mp (Finset.mem_coe.mp hp)
    have hp' := List.mem_toFinset.mp (Finset.mem_coe.mp hp')
    have hserves' := hserves p' hp'
    rw [← heq] at hserves'
    exact Serves.injective hp hp' (hserves p hp) hserves'
  calc t.pipes.toFinset.card
      ≤ t.readers.toFinset.card := Finset.card_le_card_of_injOn reader hmem hinj
    _ ≤ t.readers.length := t.readers.toFinset_card_le

end kept

/-- **What `remove_reader` leaves.** The readers are those before the call
    without the removed one. Every pipe that is left serves one of them, so
    there are at most as many pipes as readers, and none when no reader is
    left. A pipe is known by its address, which the queue holds once. -/
theorem removeReader_prunes (t : MsTask) (id : Nat) :
    let t' := t.removeReader id
    t'.readers = t.readers.filter (fun r => r.id ≠ id) ∧
      (∀ p ∈ t'.pipes, ∃ r, t'.Serves p r) ∧
      t'.pipes.toFinset.card ≤ t'.readers.length ∧
      (t'.readers = [] → t'.pipes = []) := by
  intro t'
  have hpruned : Pruned (t.withoutReader id) t' := by
    have h := @dispatchPipes_pruned (t.withoutReader id) (t.withoutReader id).pipes
    rwa [← removeReader_eq] at h
  have hserves : ∀ p ∈ t'.pipes, ∃ r, t'.Serves p r := by
    intro p hp
    have hkept := @kept_of_mem_dispatchPipes (t.withoutReader id) p (t.withoutReader id).pipes
      (hpruned.pipes p hp) (by rwa [← removeReader_eq])
    rw [← removeReader_eq] at hkept
    obtain ⟨halone, r, hr⟩ := hkept
    rw [← hpruned.currentPos] at hr
    exact ⟨r, hr.serves halone⟩
  refine ⟨hpruned.readers, hserves, card_pipes_le hserves, fun hnone => ?_⟩
  rw [List.eq_nil_iff_forall_not_mem]
  intro p hp
  obtain ⟨r, hr⟩ := hserves p hp
  have hmem := hr.reader
  rw [hnone] at hmem
  cases hmem

end MsTask

end Libms
