import Mathlib
import Libms.Storage.Eviction

/-! # Hold windows

    The window of a hold position reaches from 10 MiB before it to 20 MiB
    behind it. `should_hold_piece` tests the slot of a piece, which is 16 KiB
    also where the file ends inside it.

    * `heldPiece_iff`: the pieces that exact windows hold.
    * `clearBufferFor_cached`: what is left of them. -/

namespace Libms

namespace MemStorage

/-- The slot of piece `i`, 16 KiB whatever the size of the file, lies in the
    window held for `pos`. -/
def SlotInWindow (pos : Int) (i : Nat) : Prop :=
  max 0 (pos - maxCacheLeft) ≤ i * 16384 ∧ i * 16384 + 16384 ≤ pos + maxCacheLen

instance (pos : Int) (i : Nat) : Decidable (SlotInWindow pos i) :=
  inferInstanceAs (Decidable (_ ∧ _))

/-- The bytes of piece `i`, which end where the file does, lie in the window
    of a reader at `pos`. -/
def InWindow (filesize pos : Int) (i : Nat) : Prop :=
  max 0 (pos - maxCacheLeft) ≤ i * 16384 ∧
    min ((i : Int) * 16384 + 16384) filesize ≤ pos + maxCacheLen

theorem heldPiece_iff {holdPos : List Int} {i : Nat} :
    heldPiece exactInt holdPos i = true ↔ ∃ pos ∈ holdPos, SlotInWindow pos i := by
  have hstart : pieceStart exactInt (i / 128) (i % 128) = (i : Int) * 16384 := by
    simp only [pieceStart, blockStart, exactInt, msBlockUnitSize, msPieceUnitSize]
    omega
  simp only [heldPiece, shouldHoldPiece, holdRangeFrom, hstart, msPieceUnitSize, List.any_eq_true,
    Bool.and_eq_true, decide_eq_true_eq, SlotInWindow]
  constructor
  · rintro ⟨pos, hpos, hfrom, hend⟩
    refine ⟨pos, hpos, ?_, by omega⟩
    -- the window starts at zero for a position near the start of the file
    split at hfrom <;> omega
  · rintro ⟨pos, hpos, hfrom, hend⟩
    refine ⟨pos, hpos, ?_, by omega⟩
    split <;> omega

/-- Every piece of a block that is held is held. -/
theorem heldPiece_of_holdBlock {holdPos : List Int} {i : Nat}
    (h : shouldHoldBlock exactInt (i / 128) holdPos = true) :
    heldPiece exactInt holdPos i = true := by
  simp only [shouldHoldBlock, blockStart, exactInt, holdRangeFrom, msBlockUnitSize,
    List.any_eq_true, Bool.and_eq_true] at h
  obtain ⟨pos, hpos, hfrom, hend⟩ := h
  have hfrom := of_decide_eq_true hfrom
  have hend := of_decide_eq_true hend
  rw [heldPiece_iff]
  unfold SlotInWindow
  refine ⟨pos, hpos, ?_, by omega⟩
  split at hfrom <;> omega

/-- A cached piece lies in an allocated block, which the walk visits unless
    it is held. -/
theorem visits_of_cached {holdPos : List Int} {st : MemStorage} {i : Nat} (hcached : st.cached i)
    (hfree : heldPiece exactInt holdPos i = false) :
    i / 128 < st.blocks.length ∧ st.visits exactInt holdPos (i / 128) := by
  simp only [cached, pieceAt, msPieceNumOfPerBlock] at hcached
  split at hcached
  · rename_i block hblock
    refine ⟨(List.getElem?_eq_some_iff.mp hblock).1, ?_⟩
    simp only [visits, hblock]
    cases hhold : shouldHoldBlock exactInt (i / 128) holdPos with
    | true =>
      rw [heldPiece_of_holdBlock hhold] at hfree
      cases hfree
    | false => rfl
  · cases hcached

/-- A cached piece is freed iff it is evicted. -/
theorem clearBufferFor_cached {holdPos : List Int} {st : MemStorage} {pos : Int} {len i : Nat}
    (hcached : st.cached i) :
    (st.clearBufferFor exactInt holdPos pos len).cached i ↔ ¬ st.Evicts exactInt holdPos len i := by
  have hspec := @clearBufferFor_spec exactInt holdPos st pos len
  unfold cached at hcached ⊢
  constructor
  · intro hkept hgone
    rw [hspec.freed i hgone] at hkept
    cases hkept
  · intro hkept
    rw [hspec.kept i hkept]
    exact hcached

end MemStorage

end Libms
