import Mathlib
import Libms.Storage.Windows
import Libms.Task.MsTask

/-! # Which readers the eviction respects

    `on_recv` makes room before it writes, and passes one hold position for
    each reader. The loop that fills the array never moves its index on, so
    the array holds the position of the last reader and zeros.

    * `mem_holdPositions`: what the array holds.
    * `recv_keepsWindows_iff`: when no piece inside the window of a reader
      is freed. -/

namespace Libms

open CInt

/-! ## The array of hold positions -/

namespace MsTask

open MemStorage

variable {t : MsTask}

/-- The loop over the readers writes every position to the first entry. -/
theorem foldl_holdPos (readers : List Reader) (holdPos : List Int) (hne : holdPos ≠ []) :
    readers.foldl (fun holdPos r => holdPos.set 0 (r.next : Int)) holdPos =
      match readers.getLast? with
      | none => holdPos
      | some r => (r.next : Int) :: holdPos.tail := by
  -- from the back: the last write to entry 0 is the one that stays
  induction readers using List.reverseRecOn with
  | nil => rfl
  | append_singleton readers r ih =>
    rw [List.foldl_append, ih, List.getLast?_concat]
    obtain ⟨first, rest, rfl⟩ := List.exists_cons_of_ne_nil hne
    cases readers.getLast? with
    | none => rfl
    | some r' => rfl

/-- The array holds the position of the last reader, and a zero for each
    other one. -/
theorem mem_holdPositions {pos : Int} :
    pos ∈ t.holdPositions ↔
      (∃ last, t.readers.getLast? = some last ∧ pos = last.next) ∨
        (2 ≤ t.readers.length ∧ pos = 0) := by
  unfold holdPositions
  cases hreaders : t.readers with
  | nil => simp
  | cons r rs =>
    rw [foldl_holdPos _ _ (by simp)]
    obtain ⟨last, hlast⟩ : ∃ last, (r :: rs).getLast? = some last :=
      ⟨_, List.getLast?_eq_some_getLast (by simp)⟩
    rw [hlast]
    simp only [List.length_cons, List.replicate_succ, List.tail_cons, List.mem_cons,
      List.mem_replicate]
    constructor
    · rintro (rfl | ⟨hlen, rfl⟩)
      · exact Or.inl ⟨last, rfl, rfl⟩
      · exact Or.inr ⟨by omega, rfl⟩
    · rintro (⟨last', hlast', rfl⟩ | ⟨hlen, rfl⟩)
      · cases hlast'
        exact Or.inl rfl
      · exact Or.inr ⟨by omega, rfl⟩

theorem holdPositions_length : t.holdPositions.length = t.readers.length := by
  have hset : ∀ (readers : List Reader) (holdPos : List Int),
      (readers.foldl (fun holdPos r => holdPos.set 0 (r.next : Int)) holdPos).length =
        holdPos.length := by
    intro readers
    induction readers with
    | nil => exact fun _ => rfl
    | cons r readers ih =>
      intro holdPos
      rw [List.foldl_cons, ih, List.length_set]
  unfold holdPositions
  rw [hset, List.length_replicate]

/-! ## `clear_buffer_for` in `on_recv` -/

/-- The `clear_buffer_for` step of `on_recv` frees no cached piece that lies
    in the window of a reader. -/
def KeepsWindows (w : IntArith) (t : MsTask) (pos len : Nat) : Prop :=
  ∀ r ∈ t.readers, ∀ i, t.storage.cached i → InWindow t.storage.filesize r.next i →
    (t.recvCleared w pos len).cached i

/-- The array asks for piece `i`. -/
def Asked (t : MsTask) (i : Nat) : Prop :=
  (∃ last, t.readers.getLast? = some last ∧ SlotInWindow last.next i) ∨
    (2 ≤ t.readers.length ∧ SlotInWindow 0 i)

theorem heldPiece_holdPositions {i : Nat} :
    heldPiece exactInt t.holdPositions i = true ↔ t.Asked i := by
  rw [heldPiece_iff]
  constructor
  · rintro ⟨pos, hpos, hslot⟩
    rcases mem_holdPositions.mp hpos with ⟨last, hlast, rfl⟩ | ⟨hlen, rfl⟩
    · exact Or.inl ⟨last, hlast, hslot⟩
    · exact Or.inr ⟨hlen, hslot⟩
  · rintro (⟨last, hlast, hslot⟩ | ⟨hlen, hslot⟩)
    · exact ⟨_, mem_holdPositions.mpr (Or.inl ⟨last, hlast, rfl⟩), hslot⟩
    · exact ⟨_, mem_holdPositions.mpr (Or.inr ⟨hlen, rfl⟩), hslot⟩

/-- **Windows.** The eviction of `on_recv` respects every reader iff the
    data fits below the limit of the cache, or each cached piece behind the
    first block that lies in the window of some reader

    * has its slot in the window of the last reader of the queue, or,
      with two readers or more, in that of offset 0, or
    * is not come to, since enough was given back before its block. -/
theorem recv_keepsWindows_iff (t : MsTask) (pos len : Nat) :
    t.KeepsWindows exactInt pos len ↔
      t.storage.completedSize + toInt64 len ≤ holdSize t.readers.length ∨
        ∀ r ∈ t.readers, ∀ i, t.storage.cached i → InWindow t.storage.filesize r.next i →
          128 ≤ i → t.Asked i ∨
            ¬ t.storage.Reaches exactInt t.holdPositions 1 (toInt32 len) (i / 128) := by
  have hkept : t.KeepsWindows exactInt pos len ↔
      ∀ r ∈ t.readers, ∀ i, t.storage.cached i → InWindow t.storage.filesize r.next i →
        ¬ t.storage.Evicts exactInt t.holdPositions len i := by
    constructor
    · intro h r hr i hcached hin
      exact (clearBufferFor_cached hcached).mp (h r hr i hcached hin)
    · intro h r hr i hcached hin
      exact (clearBufferFor_cached hcached).mpr (h r hr i hcached hin)
  rw [hkept]
  constructor
  · intro h
    rw [← holdPositions_length (t := t)]
    by_cases hroom : t.storage.completedSize + toInt64 len ≤ holdSize t.holdPositions.length
    · exact Or.inl hroom
    · right
      intro r hr i hcached hin hbehind
      by_cases hasked : t.Asked i
      · exact Or.inl hasked
      · right
        -- a piece that is not asked for is freed when its block is come to
        intro hreach
        have hfree : heldPiece exactInt t.holdPositions i = false := by
          rw [← Bool.not_eq_true, heldPiece_holdPositions]
          exact hasked
        obtain ⟨hlen, hvisit⟩ := visits_of_cached hcached hfree
        exact h r hr i hcached hin ⟨by omega, by omega, hlen, hvisit, hreach, hfree⟩
  · rintro (hroom | h) r hr i hcached hin ⟨hfull, hbehind, _, _, hreach, hfree⟩
    · rw [holdPositions_length] at hfull
      omega
    · rcases h r hr i hcached hin (by omega) with hasked | hnot
      · rw [heldPiece_holdPositions.mpr hasked] at hfree
        cases hfree
      · exact hnot hreach

/-! ## Two readers -/

/-- A block whose pieces are all cached. -/
def fullBlock : Block := ⟨fun _ => some msMallocPieceBuf⟩

/-- A file of 128 MiB whose first 62 MiB are cached. -/
def halfCached : MemStorage where
  filesize := 134217728
  estimateSize := 134217728
  completedSize := 65011712
  blocks := List.replicate 31 (some fullBlock) ++ List.replicate 33 none
  sized := by decide
  known := fun _ => rfl

/-- Readers at 12 MiB and at 100 MiB of that file. -/
def farReaders : MsTask :=
  { msTaskOpen ['u'] with
    storage := halfCached
    readers := [⟨0, 12582912, 0⟩, ⟨1, 104857600, 0⟩] }

/-- When the piece behind the cached ones arrives, the piece at 20 MiB is
    freed, which lies in the window [2 MiB, 32 MiB] of the first reader. -/
theorem recv_frees_window : ¬ farReaders.KeepsWindows exactInt 65011712 16384 := by
  intro h
  have hin : InWindow farReaders.storage.filesize
      ((⟨0, 12582912, 0⟩ : Reader).next : Int) 1280 := by
    constructor <;> decide
  have hkept := h ⟨0, 12582912, 0⟩ (List.mem_cons_self ..) 1280 rfl hin
  have hhold : farReaders.holdPositions = [104857600, 0] := rfl
  have hgone : farReaders.storage.Evicts exactInt farReaders.holdPositions 16384 1280 := by
    rw [hhold]
    refine ⟨by decide, by decide, by decide, by decide, ?_, by decide⟩
    -- the blocks before 20 MiB are held for the entries that stayed zero
    intro b hfirst hb hvisit
    have hpassed : farReaders.storage.visits exactInt [104857600, 0] b = false := by
      interval_cases b <;> decide
    rw [hpassed] at hvisit
    cases hvisit
  exact (clearBufferFor_cached rfl).mp hkept hgone

end MsTask

end Libms
