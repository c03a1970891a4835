import Mathlib
import Libms.Framework.CInt
import Libms.Storage.MemStorage

/-! # What the storage evicts

    `clear_buffer_for` walks the table from the block behind the head and
    frees what no hold position asks for, until it has given back as many
    bytes as it was asked for. This module says which pieces that are.

    * `Evicts`: the call frees piece `i`. The cache is over its limit, the
      walk comes to the block of the piece (`Reaches`), and neither the
      block nor the piece is held.
    * `clearBufferFor_spec`: the pieces the call evicts are empty after it,
      and every other piece is what it was before. -/

namespace Libms

open CInt

namespace MemStorage

section eviction

variable (w : IntArith) (holdPos : List Int)

/-- Piece `i` of the file lies in the window of a hold position. -/
def heldPiece (i : Nat) : Bool := shouldHoldPiece w (i / 128) (i % 128) holdPos

/-- Block `ib` is allocated and not held, so the walk looks at its pieces. -/
def visits (st : MemStorage) (ib : Nat) : Bool :=
  match st.blocks[ib]? with
  | some (some _) => !shouldHoldBlock w ib holdPos
  | _ => false

/-- The bytes given back for piece `ip` of a block. -/
def pieceReleased (filesize : Int) (ib : Nat) (block : Block) (ip : Nat) : Int :=
  if (block.buf ip).isSome && !shouldHoldPiece w ib ip holdPos then pieceLen w filesize ib ip
  else 0

/-- The bytes given back for block `ib`. -/
def blockReleased (st : MemStorage) (ib : Nat) : Int :=
  match st.blocks[ib]? with
  | some (some block) =>
    if shouldHoldBlock w ib holdPos then 0
    else ∑ ip ∈ Finset.range 128, pieceReleased w holdPos st.filesize ib block ip
  | _ => 0

/-- The walk that starts at block `start` with `releaseLen` to give back
    comes to block `ib`: after no visited block before it is the `int`
    `release_len` down to zero. -/
def Reaches (st : MemStorage) (start : Nat) (releaseLen : Int) (ib : Nat) : Prop :=
  ∀ b, start ≤ b → b < ib → st.visits w holdPos b →
    0 < toInt32 (releaseLen - ∑ b' ∈ Finset.Ico start (b + 1), st.blockReleased w holdPos b')

/-- The walk that starts at block `start` with `releaseLen` to give back
    ends behind block `b`, where the `int` `release_len` is used up. -/
def StopsAt (st : MemStorage) (start : Nat) (releaseLen : Int) (b : Nat) : Prop :=
  start ≤ b ∧ st.visits w holdPos b ∧ st.Reaches w holdPos start releaseLen b ∧
    toInt32 (releaseLen - ∑ b' ∈ Finset.Ico start (b + 1), st.blockReleased w holdPos b') ≤ 0

/-- `clear_buffer_for` with these arguments frees piece `i` if it is cached. -/
def Evicts (st : MemStorage) (len : Nat) (i : Nat) : Prop :=
  holdSize holdPos.length < st.completedSize + toInt64 len ∧
    1 ≤ i / 128 ∧ i / 128 < st.blocks.length ∧ st.visits w holdPos (i / 128) ∧
    st.Reaches w holdPos 1 (toInt32 len) (i / 128) ∧ heldPiece w holdPos i = false

end eviction

section spec

variable {w : IntArith} {holdPos : List Int}

/-! ## One piece -/

/-- What the loop body does to a piece: nothing, a count, or a free. -/
theorem clearPiece_cases (filesize : Int) (ib ip : Nat) (l : ClearLoop) :
    (l.block.buf ip = none ∧ clearPiece w holdPos filesize ib ip l = l) ∨
    ((l.block.buf ip).isSome ∧ shouldHoldPiece w ib ip holdPos = true ∧
      clearPiece w holdPos filesize ib ip l = { l with bufCount := l.bufCount + 1 }) ∨
    ((l.block.buf ip).isSome ∧ shouldHoldPiece w ib ip holdPos = false ∧
      clearPiece w holdPos filesize ib ip l =
        { block := l.block.setBuf ip none
          bufCount := l.bufCount + 1
          releaseCount := l.releaseCount + 1
          completedSize := l.completedSize - pieceLen w filesize ib ip
          releaseLen := toInt32 (l.releaseLen - pieceLen w filesize ib ip) }) := by
  unfold clearPiece
  cases hbuf : l.block.buf ip with
  | none => exact Or.inl ⟨rfl, rfl⟩
  | some buf =>
    right
    cases hheld : shouldHoldPiece w ib ip holdPos with
    | true => exact Or.inl ⟨rfl, rfl, rfl⟩
    | false => exact Or.inr ⟨rfl, rfl, rfl⟩

theorem clearPiece_buf_ne (filesize : Int) (ib : Nat) {ip j : Nat} (l : ClearLoop) (hj : j ≠ ip) :
    (clearPiece w holdPos filesize ib ip l).block.buf j = l.block.buf j := by
  rcases clearPiece_cases filesize ib ip l with ⟨_, h⟩ | ⟨_, _, h⟩ | ⟨_, _, h⟩
  · rw [h]
  · rw [h]
  · rw [h]
    exact Block.buf_setBuf_ne _ _ hj

theorem clearPiece_buf_self (filesize : Int) (ib : Nat) {ip : Nat} (l : ClearLoop)
    (hip : ip < 128) :
    (clearPiece w holdPos filesize ib ip l).block.buf ip =
      if shouldHoldPiece w ib ip holdPos then l.block.buf ip else none := by
  rcases clearPiece_cases filesize ib ip l with ⟨hnone, h⟩ | ⟨_, hheld, h⟩ | ⟨_, hheld, h⟩
  · rw [h, hnone]
    simp
  · rw [h, if_pos hheld]
  · rw [h, hheld]
    simp [hip]

/-! ## The pieces of one block -/

/-- The counts of the loop: as long as they agree, every piece passed so
    far is empty. -/
structure Counted (ip : Nat) (l : ClearLoop) : Prop where
  le : l.releaseCount ≤ l.bufCount
  empty : l.releaseCount = l.bufCount → ∀ j < ip, l.block.buf j = none

theorem clearPiece_counted {filesize : Int} {ib ip : Nat} {l : ClearLoop} (hip : ip < 128)
    (h : Counted ip l) : Counted (ip + 1) (clearPiece w holdPos filesize ib ip l) := by
  have hbefore : ∀ j < ip, (clearPiece w holdPos filesize ib ip l).block.buf j = l.block.buf j :=
    fun j hj => clearPiece_buf_ne filesize ib l (by omega)
  have hself := @clearPiece_buf_self w holdPos filesize ib ip l hip
  have hle := h.le
  rcases clearPiece_cases filesize ib ip l with ⟨hnone, hl⟩ | ⟨_, hheld, hl⟩ | ⟨_, hheld, hl⟩
  · rw [hl] at hbefore hself ⊢
    refine ⟨hle, fun heq j hj => ?_⟩
    rcases Nat.lt_succ_iff_lt_or_eq.mp hj with hlt | rfl
    · exact h.empty heq j hlt
    · exact hnone
  · -- a held piece: from now on the counts differ
    rw [hl]
    refine ⟨by dsimp only; omega, fun heq => ?_⟩
    dsimp only at heq
    omega
  · rw [hl] at hbefore hself ⊢
    refine ⟨by dsimp only; omega, fun heq j hj => ?_⟩
    have heq' : l.releaseCount = l.bufCount := by
      dsimp only at heq; omega
    rcases Nat.lt_succ_iff_lt_or_eq.mp hj with hlt | rfl
    · rw [hbefore j hlt]
      exact h.empty heq' j hlt
    · rw [hself, hheld]
      rfl

theorem clearPieces_counted {filesize : Int} {ib : Nat} (n ip : Nat) (l : ClearLoop)
    (hip : ip + n ≤ 128) (h : Counted ip l) :
    Counted (ip + n) (clearPieces w holdPos filesize ib n ip l) := by
  induction n generalizing ip l with
  | zero => exact h
  | succ n ih =>
    rw [show ip + (n + 1) = ip + 1 + n by omega]
    exact ih (ip + 1) _ (by omega) (clearPiece_counted (by omega) h)

/-- The loop keeps the held pieces of a block and no other. -/
theorem clearPieces_buf {filesize : Int} {ib : Nat} (n ip : Nat) (l : ClearLoop)
    (hip : ip + n ≤ 128) (j : Nat) :
    (clearPieces w holdPos filesize ib n ip l).block.buf j =
      if ip ≤ j ∧ j < ip + n ∧ shouldHoldPiece w ib j holdPos = false then none
      else l.block.buf j := by
  induction n generalizing ip l with
  | zero =>
    rw [if_neg (by omega)]
    rfl
  | succ n ih =>
    rw [clearPieces, ih (ip + 1) _ (by omega)]
    -- a piece is decided when the loop comes to it
    by_cases hj : j = ip
    · subst hj
      rw [if_neg (by omega), clearPiece_buf_self filesize ib l (by omega)]
      cases shouldHoldPiece w ib j holdPos <;> simp
    · rw [clearPiece_buf_ne filesize ib l hj]
      by_cases hin : ip + 1 ≤ j ∧ j < ip + 1 + n ∧ shouldHoldPiece w ib j holdPos = false
      · rw [if_pos hin, if_pos ⟨by omega, by omega, hin.2.2⟩]
      · rw [if_neg hin, if_neg]
        rintro ⟨h₁, h₂, h₃⟩
        exact hin ⟨by omega, by omega, h₃⟩

/-- One piece takes its bytes off `completed_size` and `release_len`. -/
theorem clearPiece_sizes {filesize : Int} {ib ip : Nat} {l : ClearLoop}
    (hint : toInt32 l.releaseLen = l.releaseLen) :
    (clearPiece w holdPos filesize ib ip l).completedSize =
        l.completedSize - pieceReleased w holdPos filesize ib l.block ip ∧
      (clearPiece w holdPos filesize ib ip l).releaseLen =
        toInt32 (l.releaseLen - pieceReleased w holdPos filesize ib l.block ip) := by
  unfold pieceReleased
  rcases clearPiece_cases filesize ib ip l with ⟨hnone, h⟩ | ⟨_, hheld, h⟩ | ⟨hsome, hheld, h⟩
  · rw [h, hnone]
    simp [hint]
  · rw [h, hheld]
    simp [hint]
  · rw [h, hheld, hsome]
    simp

theorem clearPieces_sizes {filesize : Int} {ib : Nat} (n ip : Nat) (l : ClearLoop)
    (hint : toInt32 l.releaseLen = l.releaseLen) :
    (clearPieces w holdPos filesize ib n ip l).completedSize =
        l.completedSize -
          ∑ k ∈ Finset.range n, pieceReleased w holdPos filesize ib l.block (ip + k) ∧
      (clearPieces w holdPos filesize ib n ip l).releaseLen =
        toInt32 (l.releaseLen -
          ∑ k ∈ Finset.range n, pieceReleased w holdPos filesize ib l.block (ip + k)) := by
  induction n generalizing ip l with
  | zero => simp [clearPieces, hint]
  | succ n ih =>
    obtain ⟨hcompleted, hrelease⟩ :=
      @clearPiece_sizes w holdPos filesize ib ip l hint
    -- the pieces behind `ip` are untouched when the loop comes to them
    have hrest : ∑ k ∈ Finset.range n, pieceReleased w holdPos filesize ib
          (clearPiece w holdPos filesize ib ip l).block (ip + 1 + k) =
        ∑ k ∈ Finset.range n, pieceReleased w holdPos filesize ib l.block (ip + (k + 1)) := by
      apply Finset.sum_congr rfl
      intro k _
      unfold pieceReleased
      rw [clearPiece_buf_ne filesize ib l (by omega), show ip + 1 + k = ip + (k + 1) by omega]
    -- `release_len` is an `int` after each piece
    have hint' : toInt32 (clearPiece w holdPos filesize ib ip l).releaseLen =
        (clearPiece w holdPos filesize ib ip l).releaseLen := by
      rw [hrelease]
      simpa using toInt32_toInt32_sub
        (l.releaseLen - pieceReleased w holdPos filesize ib l.block ip) 0
    obtain ⟨ihc, ihr⟩ := ih (ip + 1) _ hint'
    rw [clearPieces, ihc, ihr, hrest, hcompleted, hrelease, toInt32_toInt32_sub,
      Finset.sum_range_succ', Nat.add_zero]
    exact ⟨by omega, by congr 1; omega⟩

/-! ## One block -/

section block

variable {ib : Nat} {block : Block} {releaseLen : Int} {st : MemStorage}

theorem clearBlock_filesize :
    (clearBlock w holdPos ib block releaseLen st).1.filesize = st.filesize := by
  simp only [clearBlock, setCompleted_filesize, setBlock_filesize]

theorem clearBlock_estimateSize :
    (clearBlock w holdPos ib block releaseLen st).1.estimateSize = st.estimateSize := by
  simp only [clearBlock, setCompleted_estimateSize, setBlock_estimateSize]

theorem clearBlock_blocks_ne {b : Nat} (hb : b ≠ ib) :
    (clearBlock w holdPos ib block releaseLen st).1.blocks[b]? = st.blocks[b]? := by
  simp only [clearBlock, setCompleted_blocks, setBlock_blocks]
  exact List.getElem?_set_ne (Ne.symm hb)

theorem clearBlock_pieceAt (hblock : st.blocks[ib]? = some (some block)) (i : Nat) :
    (clearBlock w holdPos ib block releaseLen st).1.pieceAt i =
      if i / 128 = ib ∧ heldPiece w holdPos i = false then none else st.pieceAt i := by
  by_cases hi : i / 128 = ib
  · have hib : ib < st.blocks.length := (List.getElem?_eq_some_iff.mp hblock).1
    simp only [clearBlock, setCompleted_pieceAt, msPieceNumOfPerBlock]
    have hbuf := @clearPieces_buf w holdPos st.filesize ib 128 0
      ⟨block, 0, 0, st.completedSize, releaseLen⟩ (by omega) (i % 128)
    have hcount := @clearPieces_counted w holdPos st.filesize ib 128 0
      ⟨block, 0, 0, st.completedSize, releaseLen⟩ (by omega) ⟨Nat.le_refl 0, by simp⟩
    revert hbuf hcount
    generalize clearPieces w holdPos st.filesize ib 128 0
      ⟨block, 0, 0, st.completedSize, releaseLen⟩ = l
    intro hbuf hcount
    have hpiece : st.pieceAt i = block.buf (i % 128) := pieceAt_of_block hblock hi
    have hleft : l.block.buf (i % 128) =
        if i / 128 = ib ∧ heldPiece w holdPos i = false then none else st.pieceAt i := by
      rw [hbuf, hpiece, heldPiece, hi]
      congr 1
      apply propext
      exact ⟨fun h => ⟨rfl, h.2.2⟩, fun h => ⟨by omega, by omega, h.2⟩⟩
    rw [← hleft]
    by_cases hfree : 0 < l.releaseCount ∧ l.releaseCount = l.bufCount
    · -- the block is freed: the counts say that nothing was left in it
      rw [if_pos hfree, pieceAt_setBlock_none st hi]
      exact (hcount.empty hfree.2 _ (by omega)).symm
    · rw [if_neg hfree, pieceAt_setBlock_some st _ hib hi]
  · rw [if_neg (fun h => hi h.1)]
    simp only [clearBlock, setCompleted_pieceAt]
    exact pieceAt_setBlock_ne st _ hi

theorem clearBlock_released (hblock : st.blocks[ib]? = some (some block))
    (hheld : shouldHoldBlock w ib holdPos = false) (hint : toInt32 releaseLen = releaseLen) :
    (clearBlock w holdPos ib block releaseLen st).2 =
        toInt32 (releaseLen - st.blockReleased w holdPos ib) ∧
      (clearBlock w holdPos ib block releaseLen st).1.completedSize =
        st.completedSize - st.blockReleased w holdPos ib := by
  obtain ⟨hcompleted, hrelease⟩ := @clearPieces_sizes w holdPos st.filesize ib 128 0
    ⟨block, 0, 0, st.completedSize, releaseLen⟩ hint
  simp only [Nat.zero_add] at hcompleted hrelease
  simp only [clearBlock, blockReleased, hblock, hheld, setCompleted_completedSize]
  exact ⟨hrelease, hcompleted⟩

theorem clearBlock_visits_ne {b : Nat} (hb : b ≠ ib) :
    (clearBlock w holdPos ib block releaseLen st).1.visits w holdPos b = st.visits w holdPos b := by
  unfold visits
  rw [clearBlock_blocks_ne hb]

theorem clearBlock_blockReleased_ne {b : Nat} (hb : b ≠ ib) :
    (clearBlock w holdPos ib block releaseLen st).1.blockReleased w holdPos b =
      st.blockReleased w holdPos b := by
  unfold blockReleased
  rw [clearBlock_blocks_ne hb, clearBlock_filesize]

/-- The blocks behind it give back what they would have. -/
theorem clearBlock_sum_behind (b : Nat) :
    ∑ b' ∈ Finset.Ico (ib + 1) (b + 1),
        (clearBlock w holdPos ib block releaseLen st).1.blockReleased w holdPos b' =
      ∑ b' ∈ Finset.Ico (ib + 1) (b + 1), st.blockReleased w holdPos b' := by
  apply Finset.sum_congr rfl
  intro b' hb'
  have := Finset.mem_Ico.mp hb'
  exact clearBlock_blockReleased_ne (by omega)

/-- What is left to give back is an `int` again. -/
theorem clearBlock_toInt32 (hblock : st.blocks[ib]? = some (some block))
    (hheld : shouldHoldBlock w ib holdPos = false) (hint : toInt32 releaseLen = releaseLen) :
    toInt32 (clearBlock w holdPos ib block releaseLen st).2 =
      (clearBlock w holdPos ib block releaseLen st).2 := by
  rw [(clearBlock_released hblock hheld hint).1]
  simpa using toInt32_toInt32_sub (releaseLen - st.blockReleased w holdPos ib) 0

end block

/-! ## The walk over the table -/

/-- A block that is not visited gives nothing back. -/
theorem blockReleased_of_not_visits {st : MemStorage} {ib : Nat}
    (h : st.visits w holdPos ib = false) : st.blockReleased w holdPos ib = 0 := by
  unfold visits at h
  unfold blockReleased
  split
  · rename_i block hblock
    rw [hblock] at h
    rw [if_pos (by simpa using h)]
  · rfl

/-- Behind a block that is not visited the walk is what it was. -/
theorem reaches_skip {st : MemStorage} {start ib : Nat} {releaseLen : Int}
    (hskip : st.visits w holdPos start = false) :
    st.Reaches w holdPos start releaseLen ib ↔ st.Reaches w holdPos (start + 1) releaseLen ib := by
  -- the block adds nothing to the sums
  have hsum : ∀ b, start < b → ∑ b' ∈ Finset.Ico start (b + 1), st.blockReleased w holdPos b' =
      ∑ b' ∈ Finset.Ico (start + 1) (b + 1), st.blockReleased w holdPos b' := by
    intro b hb
    rw [Finset.sum_eq_sum_Ico_succ_bot (by omega), blockReleased_of_not_visits hskip, zero_add]
  constructor
  · intro h b hstart hb hvisit
    rw [← hsum b (by omega)]
    exact h b (by omega) hb hvisit
  · intro h b hstart hb hvisit
    rcases Nat.eq_or_lt_of_le hstart with rfl | hlt
    · rw [hskip] at hvisit
      cases hvisit
    · rw [hsum b hlt]
      exact h b (by omega) hb hvisit

/-- Behind a visited block the walk goes on with what is left to give back. -/
theorem reaches_visit {st : MemStorage} {start ib : Nat} {releaseLen : Int} {block : Block}
    (hlt : start < ib) (hblock : st.blocks[start]? = some (some block))
    (hheld : shouldHoldBlock w start holdPos = false) (hint : toInt32 releaseLen = releaseLen) :
    let r := clearBlock w holdPos start block releaseLen st
    st.Reaches w holdPos start releaseLen ib ↔
      0 < r.2 ∧ r.1.Reaches w holdPos (start + 1) r.2 ib := by
  intro r
  have hvisit : st.visits w holdPos start := by
    simp [visits, hblock, hheld]
  have hr : r.2 = toInt32 (releaseLen - st.blockReleased w holdPos start) :=
    (clearBlock_released hblock hheld hint).1
  -- what is left behind the block, and what is given back from there on
  have hsum : ∀ b, start < b →
      toInt32 (r.2 - ∑ b' ∈ Finset.Ico (start + 1) (b + 1), r.1.blockReleased w holdPos b') =
      toInt32 (releaseLen - ∑ b' ∈ Finset.Ico start (b + 1), st.blockReleased w holdPos b') := by
    intro b hb
    rw [clearBlock_sum_behind, hr, toInt32_toInt32_sub, sub_sub,
      Finset.sum_eq_sum_Ico_succ_bot (show start < b + 1 by omega)]
  constructor
  · intro h
    constructor
    · -- the walk went on behind the block itself
      have := h start (Nat.le_refl _) hlt hvisit
      rw [Finset.sum_Ico_succ_top (Nat.le_refl _), Finset.Ico_self, Finset.sum_empty,
        zero_add] at this
      rwa [hr]
    · intro b hstart hb hvisit'
      rw [hsum b (by omega)]
      rw [clearBlock_visits_ne (by omega)] at hvisit'
      exact h b (by omega) hb hvisit'
  · rintro ⟨hpos, h⟩ b hstart hb hvisit'
    rcases Nat.eq_or_lt_of_le hstart with rfl | hlt'
    · rw [Finset.sum_Ico_succ_top (Nat.le_refl _), Finset.Ico_self, Finset.sum_empty, zero_add,
        ← hr]
      exact hpos
    · rw [← hsum b hlt']
      refine h b (by omega) hb ?_
      rwa [clearBlock_visits_ne (by omega)]

/-- The pieces freed by the walk over the `n` blocks from `start` on. -/
def WalkEvicts (w : IntArith) (holdPos : List Int) (n start : Nat) (releaseLen : Int)
    (st : MemStorage) (i : Nat) : Prop :=
  start ≤ i / 128 ∧ i / 128 < start + n ∧ st.visits w holdPos (i / 128) ∧
    st.Reaches w holdPos start releaseLen (i / 128) ∧ heldPiece w holdPos i = false

/-- The walk empties the pieces it frees and keeps the others. -/
structure Cleared (gone : Nat → Prop) (st st' : MemStorage) : Prop where
  filesize : st'.filesize = st.filesize
  estimateSize : st'.estimateSize = st.estimateSize
  length : st'.blocks.length = st.blocks.length
  freed : ∀ i, gone i → st'.pieceAt i = none
  kept : ∀ i, ¬ gone i → st'.pieceAt i = st.pieceAt i

theorem Cleared.refl {gone : Nat → Prop} {st : MemStorage}
    (h : ∀ i, gone i → st.pieceAt i = none) : Cleared gone st st :=
  ⟨rfl, rfl, rfl, h, fun _ _ => rfl⟩

theorem Cleared.congr {gone gone' : Nat → Prop} {st st' : MemStorage}
    (h : Cleared gone st st') (hiff : ∀ i, gone' i ↔ gone i) : Cleared gone' st st' :=
  ⟨h.filesize, h.estimateSize, h.length, fun i hi => h.freed i ((hiff i).mp hi),
    fun i hi => h.kept i (fun hf => hi ((hiff i).mpr hf))⟩

/-! ## One block of the walk -/

/-- The walk passes a block by, or it visits it and then may end. -/
theorem clearBlocks_cases (n start : Nat) (releaseLen : Int) (st : MemStorage) :
    (st.visits w holdPos start = false ∧
        clearBlocks w holdPos (n + 1) start releaseLen st =
          clearBlocks w holdPos n (start + 1) releaseLen st) ∨
      ∃ block, st.blocks[start]? = some (some block) ∧ shouldHoldBlock w start holdPos = false ∧
        clearBlocks w holdPos (n + 1) start releaseLen st =
          if (clearBlock w holdPos start block releaseLen st).2 ≤ 0 then
            (clearBlock w holdPos start block releaseLen st).1
          else
            clearBlocks w holdPos n (start + 1) (clearBlock w holdPos start block releaseLen st).2
              (clearBlock w holdPos start block releaseLen st).1 := by
  rw [clearBlocks]
  split
  · rename_i block hblock
    cases hheld : shouldHoldBlock w start holdPos with
    | true =>
      refine Or.inl ⟨by simp [visits, hblock, hheld], ?_⟩
      rw [if_pos rfl]
    | false =>
      refine Or.inr ⟨block, hblock, rfl, ?_⟩
      rw [if_neg Bool.false_ne_true]
  · rename_i hnull
    refine Or.inl ⟨?_, rfl⟩
    unfold visits
    split
    · rename_i block hblock
      exact absurd hblock (hnull block)
    · rfl

section walk

variable {st : MemStorage} {start n i : Nat} {releaseLen : Int} {block : Block}

/-- A block that the walk passes by frees nothing. -/
theorem walkEvicts_skip (hskip : st.visits w holdPos start = false) :
    WalkEvicts w holdPos (n + 1) start releaseLen st i ↔
      WalkEvicts w holdPos n (start + 1) releaseLen st i := by
  constructor
  · rintro ⟨h₁, h₂, hvisit, hreach, hfree⟩
    have hne : i / 128 ≠ start := by
      intro heq
      rw [heq, hskip] at hvisit
      cases hvisit
    exact ⟨by omega, by omega, hvisit, (reaches_skip hskip).mp hreach, hfree⟩
  · rintro ⟨h₁, h₂, hvisit, hreach, hfree⟩
    exact ⟨by omega, by omega, hvisit, (reaches_skip hskip).mpr hreach, hfree⟩

/-- In a visited block every piece that is not held is freed. -/
theorem walkEvicts_here (hvisit : st.visits w holdPos start) (hi : i / 128 = start) :
    WalkEvicts w holdPos (n + 1) start releaseLen st i ↔ heldPiece w holdPos i = false := by
  constructor
  · exact fun h => h.2.2.2.2
  · intro hfree
    refine ⟨by omega, by omega, by rwa [hi], ?_, hfree⟩
    intro b h₁ h₂
    omega

/-- Behind a visited block the walk goes on if there is more to give back. -/
theorem walkEvicts_later (hblock : st.blocks[start]? = some (some block))
    (hheld : shouldHoldBlock w start holdPos = false) (hint : toInt32 releaseLen = releaseLen)
    (hi : i / 128 ≠ start) :
    WalkEvicts w holdPos (n + 1) start releaseLen st i ↔
      0 < (clearBlock w holdPos start block releaseLen st).2 ∧
        WalkEvicts w holdPos n (start + 1) (clearBlock w holdPos start block releaseLen st).2
          (clearBlock w holdPos start block releaseLen st).1 i := by
  have hreach := fun hlt => @reaches_visit w holdPos st start (i / 128) releaseLen block hlt
    hblock hheld hint
  have hvisits := @clearBlock_visits_ne w holdPos start block releaseLen st (i / 128) hi
  constructor
  · rintro ⟨h₁, h₂, hv, hr, hf⟩
    obtain ⟨hmore, hr'⟩ := (hreach (by omega)).mp hr
    exact ⟨hmore, by omega, by omega, by rwa [hvisits], hr', hf⟩
  · rintro ⟨hmore, h₁, h₂, hv, hr, hf⟩
    rw [hvisits] at hv
    exact ⟨by omega, by omega, hv, (hreach (by omega)).mpr ⟨hmore, hr⟩, hf⟩

/-- A visited block, and then what the rest of the walk does. -/
theorem Cleared.visit {gone gone' : Nat → Prop} {st' : MemStorage}
    (hblock : st.blocks[start]? = some (some block))
    (h : Cleared gone' (clearBlock w holdPos start block releaseLen st).1 st')
    (hhere : ∀ i, i / 128 = start → (gone i ↔ heldPiece w holdPos i = false) ∧ ¬ gone' i)
    (hlater : ∀ i, i / 128 ≠ start → (gone i ↔ gone' i)) : Cleared gone st st' := by
  have hpiece := @clearBlock_pieceAt w holdPos start block releaseLen st hblock
  refine ⟨h.filesize.trans clearBlock_filesize, h.estimateSize.trans clearBlock_estimateSize,
    h.length.trans (by simp [clearBlock]), fun i hi => ?_, fun i hi => ?_⟩
  · -- a piece of this block is decided here, and the rest of the walk leaves it alone
    by_cases hb : i / 128 = start
    · obtain ⟨hiff, hrest⟩ := hhere i hb
      rw [h.kept i hrest, hpiece, if_pos ⟨hb, hiff.mp hi⟩]
    · exact h.freed i ((hlater i hb).mp hi)
  · by_cases hb : i / 128 = start
    · obtain ⟨hiff, hrest⟩ := hhere i hb
      rw [h.kept i hrest, hpiece, if_neg fun hfree => hi (hiff.mpr hfree.2)]
    · have hrest : ¬ gone' i := fun hrest => hi ((hlater i hb).mpr hrest)
      rw [h.kept i hrest, hpiece, if_neg fun hfree => hb hfree.1]

end walk

theorem clearBlocks_spec (n start : Nat) (releaseLen : Int) (st : MemStorage)
    (hint : toInt32 releaseLen = releaseLen) :
    Cleared (WalkEvicts w holdPos n start releaseLen st) st
      (clearBlocks w holdPos n start releaseLen st) := by
  induction n generalizing start releaseLen st with
  | zero =>
    refine Cleared.refl fun i hi => ?_
    obtain ⟨h₁, h₂, _⟩ := hi
    omega
  | succ n ih =>
    rcases clearBlocks_cases n start releaseLen st with
      ⟨hskip, hpass⟩ | ⟨block, hblock, hheld, hstep⟩
    · rw [hpass]
      exact (ih (start + 1) releaseLen st hint).congr fun _ => walkEvicts_skip hskip
    · have hvisit : st.visits w holdPos start := by simp [visits, hblock, hheld]
      have hhere := fun i hi => @walkEvicts_here w holdPos st start n i releaseLen hvisit hi
      have hlater := fun i hi =>
        @walkEvicts_later w holdPos st start n i releaseLen block hblock hheld hint hi
      rw [hstep]
      split
      · -- enough is given back, and the walk ends
        rename_i hstop
        refine Cleared.visit hblock (@Cleared.refl (fun _ => False) _ fun _ hi => hi.elim)
          (fun i hi => ⟨hhere i hi, id⟩) fun i hi => ?_
        rw [hlater i hi]
        exact ⟨fun h => by omega, False.elim⟩
      · rename_i hmore
        have hint' := clearBlock_toInt32 hblock hheld hint
        refine Cleared.visit hblock (ih (start + 1) _ _ hint')
          (fun i hi => ⟨hhere i hi, fun h => ?_⟩) fun i hi => ?_
        · have := h.1
          omega
        · rw [hlater i hi]
          exact and_iff_right (by omega)

/-- **`clear_buffer_for`.** The call empties the pieces it evicts, and no
    other piece changes. -/
theorem clearBufferFor_spec (st : MemStorage) (pos : Int) (len : Nat) :
    Cleared (st.Evicts w holdPos len) st (st.clearBufferFor w holdPos pos len) := by
  unfold clearBufferFor
  by_cases hroom : st.completedSize + toInt64 len ≤ holdSize holdPos.length
  · rw [if_pos hroom]
    refine Cleared.refl fun i hi => ?_
    have := hi.1
    omega
  · rw [if_neg hroom]
    have hint : toInt32 (toInt32 len) = toInt32 len := by
      simpa using toInt32_toInt32_sub len 0
    refine (clearBlocks_spec _ _ _ st hint).congr fun i => ?_
    -- the walk starts behind the head, and covers the table
    have hfirst : blockIndex holdHeadSize.toNat = 1 := rfl
    have hsized := st.sized
    rw [hfirst, ← hsized]
    constructor
    · rintro ⟨_, h₁, h₂, hv, hr, hf⟩
      exact ⟨h₁, by omega, hv, hr, hf⟩
    · rintro ⟨h₁, h₂, hv, hr, hf⟩
      exact ⟨by omega, h₁, by omega, hv, hr, hf⟩

/-- A walk stops at one block, and comes to none behind it. -/
theorem StopsAt.not_reaches {st : MemStorage} {start b ib : Nat} {releaseLen : Int}
    (h : st.StopsAt w holdPos start releaseLen b) (hlt : b < ib) :
    ¬ st.Reaches w holdPos start releaseLen ib := by
  intro hreach
  obtain ⟨hstart, hvisit, -, hstop⟩ := h
  have := hreach b hstart hlt hvisit
  omega

/-- **How the walk ends.** It stops behind a block, with what was given back
    up to there taken off the counter, or it comes to every block. -/
theorem clearBlocks_ends (n start : Nat) (releaseLen : Int) (st : MemStorage)
    (hint : toInt32 releaseLen = releaseLen) :
    (∃ b, b < start + n ∧ st.StopsAt w holdPos start releaseLen b ∧
        (clearBlocks w holdPos n start releaseLen st).completedSize = st.completedSize -
          ∑ b' ∈ Finset.Ico start (b + 1), st.blockReleased w holdPos b') ∨
      ∀ ib, start ≤ ib → ib < start + n → st.Reaches w holdPos start releaseLen ib := by
  induction n generalizing start releaseLen st with
  | zero =>
    right
    intro ib hstart hend
    omega
  | succ n ih =>
    -- no block comes before the first one
    have hfirst : st.Reaches w holdPos start releaseLen start :=
      fun b h₁ h₂ => absurd h₁ (Nat.not_le.mpr h₂)
    rcases @clearBlocks_cases w holdPos n start releaseLen st with
      ⟨hskip, hpass⟩ | ⟨block, hblock, hheld, hstep⟩
    · have hnothing := blockReleased_of_not_visits hskip
      rw [hpass]
      rcases ih (start + 1) releaseLen st hint with
        ⟨b, hb, ⟨hle, hvisit, hreach, hstop⟩, hdone⟩ | hall
      · left
        have hsum : ∑ b' ∈ Finset.Ico start (b + 1), st.blockReleased w holdPos b' =
            ∑ b' ∈ Finset.Ico (start + 1) (b + 1), st.blockReleased w holdPos b' := by
          rw [Finset.sum_eq_sum_Ico_succ_bot (by omega), hnothing, zero_add]
        rw [← hsum] at hstop hdone
        exact ⟨b, by omega, ⟨by omega, hvisit, (reaches_skip hskip).mpr hreach, hstop⟩, hdone⟩
      · right
        intro ib hstart hend
        rcases Nat.eq_or_lt_of_le hstart with rfl | hlt
        · exact hfirst
        · exact (reaches_skip hskip).mpr (hall ib hlt (by omega))
    · have hvisit : st.visits w holdPos start := by simp [visits, hblock, hheld]
      obtain ⟨hleft, hcompleted⟩ :=
        @clearBlock_released w holdPos start block releaseLen st hblock hheld hint
      rw [hstep]
      by_cases hstop : (clearBlock w holdPos start block releaseLen st).2 ≤ 0
      · -- `release_len` is used up by this block
        left
        rw [if_pos hstop]
        refine ⟨start, by omega, ⟨Nat.le_refl _, hvisit, hfirst, ?_⟩, ?_⟩
        · rw [Finset.sum_Ico_succ_top (Nat.le_refl _), Finset.Ico_self, Finset.sum_empty,
            zero_add, ← hleft]
          exact hstop
        · rw [Finset.sum_Ico_succ_top (Nat.le_refl _), Finset.Ico_self, Finset.sum_empty,
            zero_add]
          exact hcompleted
      · rw [if_neg hstop]
        -- the rest of the walk, in terms of the storage before this block
        have hsum : ∀ b, start < b →
            ∑ b' ∈ Finset.Ico (start + 1) (b + 1),
              (clearBlock w holdPos start block releaseLen st).1.blockReleased w holdPos b' =
            ∑ b' ∈ Finset.Ico start (b + 1), st.blockReleased w holdPos b' -
              st.blockReleased w holdPos start := by
          intro b hb
          rw [Finset.sum_eq_sum_Ico_succ_bot (show start < b + 1 by omega), add_sub_cancel_left]
          exact clearBlock_sum_behind b
        have hint' := clearBlock_toInt32 hblock hheld hint
        rcases ih (start + 1) (clearBlock w holdPos start block releaseLen st).2
          (clearBlock w holdPos start block releaseLen st).1 hint' with
          ⟨b, hb, ⟨hle, hvisits, hreach, hend⟩, hdone⟩ | hall
        · left
          rw [hsum b hle] at hend hdone
          rw [hleft, toInt32_toInt32_sub, sub_sub, add_sub_cancel] at hend
          rw [clearBlock_visits_ne (by omega)] at hvisits
          refine ⟨b, by omega, ⟨by omega, hvisits, ?_, hend⟩, by omega⟩
          exact (reaches_visit hle hblock hheld hint).mpr ⟨by omega, hreach⟩
        · right
          intro ib hstart hend
          rcases Nat.eq_or_lt_of_le hstart with rfl | hlt
          · exact hfirst
          · exact (reaches_visit hlt hblock hheld hint).mpr
              ⟨by omega, hall ib hlt (by omega)⟩

/-- How a call ends: there was room, or the walk over the table ends. -/
theorem clearBufferFor_ends (st : MemStorage) (pos : Int) (len : Nat) :
    let st' := st.clearBufferFor w holdPos pos len
    (st.completedSize + toInt64 len ≤ holdSize holdPos.length ∧ st' = st) ∨
      holdSize holdPos.length < st.completedSize + toInt64 len ∧
        ((∃ b < st.blocks.length, st.StopsAt w holdPos 1 (toInt32 len) b ∧
            st'.completedSize = st.completedSize -
              ∑ b' ∈ Finset.Ico 1 (b + 1), st.blockReleased w holdPos b') ∨
          ∀ ib, 1 ≤ ib → ib < st.blocks.length → st.Reaches w holdPos 1 (toInt32 len) ib) := by
  intro st'
  by_cases hroom : st.completedSize + toInt64 len ≤ holdSize holdPos.length
  · exact Or.inl ⟨hroom, if_pos hroom⟩
  · right
    have hwalk : st' = clearBlocks w holdPos (blockNum st.estimateSize - 1) 1
        (toInt32 len) st := if_neg hroom
    have hsized := st.sized
    have hint : toInt32 (toInt32 len) = toInt32 len := by
      simpa using toInt32_toInt32_sub len 0
    refine ⟨by omega, ?_⟩
    rcases @clearBlocks_ends w holdPos (blockNum st.estimateSize - 1) 1 (toInt32 len) st hint with
      ⟨b, hb, hstop, hdone⟩ | hall
    · left
      have hstart := hstop.1
      exact ⟨b, by omega, hstop, by rw [hwalk]; exact hdone⟩
    · right
      intro ib hstart hend
      exact hall ib hstart (by omega)

/-- Eviction caches nothing new. -/
theorem clearBufferFor_subset {st : MemStorage} {pos : Int} {len i : Nat}
    (h : (st.clearBufferFor w holdPos pos len).cached i = true) : st.cached i = true := by
  have hcleared := @clearBufferFor_spec w holdPos st pos len
  by_cases hgone : st.Evicts w holdPos len i
  · rw [MemStorage.cached, hcleared.freed i hgone] at h
    cases h
  · rw [MemStorage.cached, hcleared.kept i hgone] at h
    exact h

end spec

end MemStorage

end Libms
