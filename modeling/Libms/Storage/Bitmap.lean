import Mathlib
import Libms.Storage.Calls

/-! # The progress bitmap

    `get_bitmap` writes a string of hex digits: one bit for each group of
    `merge_time` pieces, four groups to a digit. For a large file the number
    of digits is halved, up to twice, and with it the groups are doubled.

    * `bitNum`, `halvingLoop`: how many digits, and how large a group.
    * `digitLoop`: the digits that are stored, one after the other.
    * `getBitmap`: the whole function, with the buffer it stores to.
    * `digitLoop_full`, `digitLoop_past`: what is stored.
    * `bitmapWellFormed_iff`: the loop over a block ends with the last digit,
      and the loop over the blocks goes on and stores one digit for each. -/

namespace Libms

open Runs

/-- `bit_num`: the number of digits with a bit for each piece. -/
def bitNum (filesize : Int) : Nat :=
  (((filesize + (msPieceUnitSize - 1 : Nat)) / msPieceUnitSize + 3) / 4).toNat

/-- The last `n` rounds of the loop that halves the digits. -/
def halvingLoop : (n bitnum mergeTime : Nat) → Nat × Nat
  | 0, bitnum, mergeTime => (bitnum, mergeTime)
  | n + 1, bitnum, mergeTime =>
    if bitnum > 128 ∧ mergeTime < msPieceNumOfPerBlock / (4 * 4 * 2) then
      halvingLoop n (bitnum / 2) (mergeTime * 2)
    else (bitnum, mergeTime)

/-- The values of `bitnum` and `merge_time` that the loop leaves. It ends
    after two rounds at most, see `halvingLoop_done`. -/
def bitmapSize (filesize : Int) : Nat × Nat := halvingLoop 2 (bitNum filesize) 1

/-- `hex_map` -/
def hexMap (pieceBit : Nat) : Char := "0123456789ABCDEF".toList.getD pieceBit '\x00'

namespace Block

/-- The first inner loop, over the last `n` pieces of a group: it ends at a
    piece that has no buffer. -/
def mergeLoop (b : Block) : (n indexForPiece mergeIndex : Nat) → Nat × Nat
  | 0, indexForPiece, mergeIndex => (indexForPiece, mergeIndex)
  | n + 1, indexForPiece, mergeIndex =>
    match b.buf indexForPiece with
    | none => (indexForPiece, mergeIndex)
    | some _ => mergeLoop b n (indexForPiece + 1) (mergeIndex + 1)

/-- The last `n` rounds of the loop over the pieces of a block, behind the
    digits `out`. -/
def pieceLoop (b : Block) (mergeTime bitnum : Nat) :
    (n indexForPiece pieceBit indexForByte : Nat) → (out : List Char) → List Char
  | 0, _, _, _, out => out
  | n + 1, indexForPiece, pieceBit, indexForByte, out =>
    if indexForPiece < msPieceNumOfPerBlock then
      let (indexForPiece, mergeIndex) := b.mergeLoop mergeTime indexForPiece 0
      let pieceBit :=
        if mergeIndex = mergeTime then pieceBit ||| (1 <<< (4 - indexForByte - 1)) else pieceBit
      -- the second inner loop goes over the rest of the group
      let indexForPiece := indexForPiece + (mergeTime - mergeIndex)
      let indexForByte := (indexForByte + 1) % 4
      if indexForByte = 0 then
        let out := out ++ [hexMap pieceBit]
        if out.length ≥ bitnum then out else pieceLoop b mergeTime bitnum n indexForPiece 0 0 out
      else pieceLoop b mergeTime bitnum n indexForPiece pieceBit indexForByte out
    else out

end Block

/-- The last `n` rounds of the loop for a block that is null. -/
def nullLoop (bitnum : Nat) : (n : Nat) → (out : List Char) → List Char
  | 0, out => out
  | n + 1, out =>
    let out := out ++ ['0']
    if out.length ≥ bitnum then out else nullLoop bitnum n out

namespace MemStorage

/-- The loop over the last `n` blocks of the table. What ends the loop over
    one block does not end this one. -/
def digitLoop (st : MemStorage) (mergeTime bitnum : Nat) :
    (n ib : Nat) → (out : List Char) → List Char
  | 0, _, out => out
  | n + 1, ib, out =>
    match st.blocks[ib]? with
    | some (some block) =>
      digitLoop st mergeTime bitnum n (ib + 1)
        (block.pieceLoop mergeTime bitnum msPieceNumOfPerBlock 0 0 0 out)
    | _ =>
      digitLoop st mergeTime bitnum n (ib + 1)
        (nullLoop bitnum (msPieceNumOfPerBlock / (4 * mergeTime)) out)

/-- The characters that are stored, from index zero on. -/
def storedDigits (st : MemStorage) : List Char :=
  let (bitnum, mergeTime) := bitmapSize st.filesize
  st.digitLoop mergeTime bitnum (blockNum st.estimateSize) 0 []

/-- `get_bitmap`: the buffer that is returned, which is also what
    `mem_st->bitmap` points to from then on. `none` where `bit_num` is no
    `int`, or something is stored behind the buffer. -/
def getBitmap (st : MemStorage) (bitmap : Option (List Char)) : Option (Option (List Char)) :=
  if st.filesize = 0 then some bitmap
  else if bitNum st.filesize ≥ 2 ^ 31 then none
  else
    let (bitnum, _) := bitmapSize st.filesize
    -- a buffer is allocated once, for the size that the file has then
    let buffer := bitmap.getD (List.replicate (bitnum + 1) '\x00')
    let cleared := List.replicate (bitnum + 1) '\x00' ++ buffer.drop (bitnum + 1)
    if bitnum + 1 ≤ buffer.length ∧ st.storedDigits.length ≤ buffer.length then
      some (some (st.storedDigits ++ cleared.drop st.storedDigits.length))
    else none

/-- What `%s` prints of a buffer. -/
def cString (buffer : List Char) : List Char := buffer.takeWhile (· ≠ '\x00')

/-- All pieces of group `g` are cached. -/
def groupCached (st : MemStorage) (mergeTime g : Nat) : Bool :=
  (List.range mergeTime).all fun k => st.cached (g * mergeTime + k)

/-- The bitmap is well formed: all that is stored lies before index `bitnum`,
    the string has `bitnum` digits, and bit `i` of digit `j`, most
    significant first, is one iff all pieces of its group are cached. -/
def BitmapWellFormed (st : MemStorage) (bitmap : Option (List Char)) : Prop :=
  let (bitnum, mergeTime) := bitmapSize st.filesize
  st.storedDigits.length ≤ bitnum ∧
    ∃ buffer, st.getBitmap bitmap = some (some buffer) ∧ buffer[bitnum]? = some '\x00' ∧
      (cString buffer).length = bitnum ∧
      ∀ j < bitnum, ∃ digit < 16, (cString buffer)[j]? = some (hexMap digit) ∧
        ∀ i < 4, digit.testBit (3 - i) = true ↔
          ∀ k < mergeTime, st.cached ((4 * j + i) * mergeTime + k) = true

/-! ## Sizes -/

/-- The loop is over: another round would not be made. The digits are
    divided by the size of a group. -/
theorem halvingLoop_done (filesize : Int) :
    ((bitmapSize filesize).1 ≤ 128 ∨ (bitmapSize filesize).2 = 4) ∧
      (bitmapSize filesize).1 = bitNum filesize / (bitmapSize filesize).2 ∧
      ((bitmapSize filesize).2 = 1 ∨ (bitmapSize filesize).2 = 2 ∨
        (bitmapSize filesize).2 = 4) := by
  unfold bitmapSize
  generalize bitNum filesize = bits
  have hrounds : msPieceNumOfPerBlock / (4 * 4 * 2) = 4 := rfl
  simp only [halvingLoop, hrounds]
  by_cases hfirst : bits > 128
  · by_cases hsecond : bits / 2 > 128
    · rw [if_pos ⟨hfirst, by decide⟩, if_pos ⟨hsecond, by decide⟩]
      exact ⟨Or.inr rfl, Nat.div_div_eq_div_mul bits 2 2, Or.inr (Or.inr rfl)⟩
    · rw [if_pos ⟨hfirst, by decide⟩, if_neg fun h => hsecond h.1]
      exact ⟨Or.inl (Nat.not_lt.mp hsecond), rfl, Or.inr (Or.inl rfl)⟩
  · rw [if_neg fun h => hfirst h.1]
    exact ⟨Or.inl (Nat.not_lt.mp hfirst), (Nat.div_one bits).symm, Or.inl rfl⟩

/-! ## One digit -/

/-- The digit of four bits, most significant first. -/
def digitOf (bit : Nat → Bool) : Nat :=
  (bit 0).toNat * 8 + (bit 1).toNat * 4 + (bit 2).toNat * 2 + (bit 3).toNat

theorem digitOf_lt (bit : Nat → Bool) : digitOf bit < 16 := by
  unfold digitOf
  have := (bit 0).toNat_le
  have := (bit 1).toNat_le
  have := (bit 2).toNat_le
  have := (bit 3).toNat_le
  omega

theorem digitOf_congr {bit bit' : Nat → Bool} (h : ∀ i < 4, bit i = bit' i) :
    digitOf bit = digitOf bit' := by
  unfold digitOf
  rw [h 0 (by decide), h 1 (by decide), h 2 (by decide), h 3 (by decide)]

theorem digitOf_testBit (bit : Nat → Bool) {i : Nat} (hi : i < 4) :
    (digitOf bit).testBit (3 - i) = bit i := by
  have hcases : i = 0 ∨ i = 1 ∨ i = 2 ∨ i = 3 := by omega
  unfold digitOf
  rcases hcases with rfl | rfl | rfl | rfl <;>
    cases bit 0 <;> cases bit 1 <;> cases bit 2 <;> cases bit 3 <;> rfl

theorem hexMap_ne_nul {digit : Nat} (h : digit < 16) : hexMap digit ≠ '\x00' := by
  revert digit
  decide

end MemStorage

namespace Block

/-- All pieces of group `g` of the block have a buffer. -/
def group (b : Block) (mergeTime g : Nat) : Bool :=
  (List.range mergeTime).all fun k => (b.buf (g * mergeTime + k)).isSome

section piece

variable {b : Block} {mergeTime bitnum : Nat} {out : List Char}

/-- The first inner loop counts the pieces in front of the first one without
    a buffer. -/
theorem mergeLoop_spec (n p m : Nat) :
    ∃ k ≤ n, b.mergeLoop n p m = (p + k, m + k) ∧ (k = n ↔ ∀ j < n, (b.buf (p + j)).isSome) := by
  induction n generalizing p m with
  | zero => exact ⟨0, Nat.le_refl 0, rfl, by simp⟩
  | succ n ih =>
    rw [mergeLoop]
    cases hbuf : b.buf p with
    | none =>
      refine ⟨0, Nat.zero_le _, rfl, ?_⟩
      constructor
      · intro h
        cases h
      · intro h
        have hp := h 0 (Nat.succ_pos n)
        rw [Nat.add_zero, hbuf] at hp
        cases hp
    | some buf =>
      obtain ⟨k, hk, hloop, hiff⟩ := ih (p + 1) (m + 1)
      refine ⟨k + 1, Nat.succ_le_succ hk, ?_, ?_⟩
      · simp only [hloop, Nat.add_assoc, Nat.add_comm 1 k]
      · rw [Nat.succ_inj, hiff]
        constructor
        · intro h j hj
          cases j with
          | zero => rw [Nat.add_zero, hbuf]; rfl
          | succ j =>
            rw [show p + (j + 1) = p + 1 + j by omega]
            exact h j (by omega)
        · intro h j hj
          rw [show p + 1 + j = p + (j + 1) by omega]
          exact h (j + 1) (by omega)

/-- The bits of a digit after a group. -/
def setBit (pieceBit indexForByte : Nat) (bit : Bool) : Nat :=
  if bit then pieceBit ||| (1 <<< (4 - indexForByte - 1)) else pieceBit

theorem setBit_digit (bit : Nat → Bool) :
    setBit (setBit (setBit (setBit 0 0 (bit 0)) 1 (bit 1)) 2 (bit 2)) 3 (bit 3) =
      MemStorage.digitOf bit := by
  unfold MemStorage.digitOf
  cases bit 0 <;> cases bit 1 <;> cases bit 2 <;> cases bit 3 <;> rfl

/-- One round of the loop: a group is passed, and its bit is set. -/
theorem pieceLoop_round (n g pieceBit indexForByte : Nat) (hg : g * mergeTime < 128) :
    b.pieceLoop mergeTime bitnum (n + 1) (g * mergeTime) pieceBit indexForByte out =
      let pieceBit := setBit pieceBit indexForByte (b.group mergeTime g)
      if (indexForByte + 1) % 4 = 0 then
        if (out ++ [hexMap pieceBit]).length ≥ bitnum then out ++ [hexMap pieceBit]
        else b.pieceLoop mergeTime bitnum n ((g + 1) * mergeTime) 0 0 (out ++ [hexMap pieceBit])
      else
        b.pieceLoop mergeTime bitnum n ((g + 1) * mergeTime) pieceBit ((indexForByte + 1) % 4)
          out := by
  obtain ⟨k, hk, hloop, hiff⟩ := @mergeLoop_spec b mergeTime (g * mergeTime) 0
  have hgroup : 0 + k = mergeTime ↔ b.group mergeTime g = true := by
    rw [Nat.zero_add, hiff, group, List.all_eq_true]
    simp
  have hbit : (if 0 + k = mergeTime then pieceBit ||| (1 <<< (4 - indexForByte - 1))
      else pieceBit) = setBit pieceBit indexForByte (b.group mergeTime g) :=
    if_congr hgroup rfl rfl
  have hnext : g * mergeTime + k + (mergeTime - (0 + k)) = (g + 1) * mergeTime := by
    rw [Nat.succ_mul]
    omega
  rw [pieceLoop, if_pos hg]
  simp only [hloop, hbit, hnext]

/-- A round in front of the last bit of a digit. -/
theorem pieceLoop_inner (n g pieceBit indexForByte : Nat) (hg : g * mergeTime < 128)
    (hbit : indexForByte < 3) :
    b.pieceLoop mergeTime bitnum (n + 1) (g * mergeTime) pieceBit indexForByte out =
      b.pieceLoop mergeTime bitnum n ((g + 1) * mergeTime)
        (setBit pieceBit indexForByte (b.group mergeTime g)) (indexForByte + 1) out := by
  rw [pieceLoop_round n g pieceBit indexForByte hg]
  dsimp only
  rw [if_neg (by omega), show (indexForByte + 1) % 4 = indexForByte + 1 by omega]

/-- The digit of four groups. -/
def digitAt (b : Block) (mergeTime d : Nat) : Nat :=
  MemStorage.digitOf fun i => b.group mergeTime (4 * d + i)

/-- Four rounds make one digit. -/
theorem pieceLoop_digit (n d : Nat) (hd : (4 * d + 3) * mergeTime < 128) :
    b.pieceLoop mergeTime bitnum (n + 4) (4 * d * mergeTime) 0 0 out =
      if (out ++ [hexMap (b.digitAt mergeTime d)]).length ≥ bitnum then
        out ++ [hexMap (b.digitAt mergeTime d)]
      else
        b.pieceLoop mergeTime bitnum n (4 * (d + 1) * mergeTime) 0 0
          (out ++ [hexMap (b.digitAt mergeTime d)]) := by
  have hle : ∀ i ≤ 3, (4 * d + i) * mergeTime < 128 := by
    intro i hi
    exact Nat.lt_of_le_of_lt (Nat.mul_le_mul_right _ (by omega)) hd
  have hbits := setBit_digit fun i => b.group mergeTime (4 * d + i)
  rw [pieceLoop_inner (n + 3) (4 * d) 0 0 (hle 0 (by decide)) (by decide),
    pieceLoop_inner (n + 2) (4 * d + 1) _ 1 (hle 1 (by decide)) (by decide),
    pieceLoop_inner (n + 1) (4 * d + 2) _ 2 (hle 2 (by decide)) (by decide),
    pieceLoop_round n (4 * d + 3) _ 3 hd]
  dsimp only at hbits ⊢
  rw [Nat.add_zero] at hbits
  rw [hbits, if_pos (by decide), show 4 * d + 3 + 1 = 4 * (d + 1) by omega]
  rfl

end piece

end Block

/-! ## The digits of a block -/

/-- The characters `cs` stored behind `out`, up to and with the one that
    reaches `bitnum`. -/
def storeAll (bitnum : Nat) : List Char → List Char → List Char
  | [], out => out
  | c :: cs, out =>
    if (out ++ [c]).length ≥ bitnum then out ++ [c] else storeAll bitnum cs (out ++ [c])

/-- At least one character is stored, also when there is no room left. -/
theorem storeAll_eq (bitnum : Nat) (cs out : List Char) :
    storeAll bitnum cs out = out ++ cs.take (max 1 (bitnum - out.length)) := by
  induction cs generalizing out with
  | nil => simp [storeAll]
  | cons c cs ih =>
    rw [storeAll]
    by_cases hdone : (out ++ [c]).length ≥ bitnum
    · rw [List.length_append, List.length_singleton] at hdone
      rw [if_pos (by simpa using hdone), show max 1 (bitnum - out.length) = 1 by omega]
      rfl
    · rw [if_neg hdone, ih]
      rw [List.length_append, List.length_singleton] at hdone ⊢
      rw [show max 1 (bitnum - out.length) = max 1 (bitnum - (out.length + 1)) + 1 by omega,
        List.take_succ_cons, List.append_assoc]
      rfl

theorem nullLoop_eq (bitnum n : Nat) (out : List Char) :
    nullLoop bitnum n out = storeAll bitnum (List.replicate n '0') out := by
  induction n generalizing out with
  | zero => rfl
  | succ n ih =>
    rw [nullLoop, List.replicate_succ, storeAll]
    simp only [ih]

/-- The loop over a block stores the digits of its groups. -/
theorem Block.pieceLoop_eq {b : Block} {mergeTime bitnum : Nat} (n d r : Nat) (out : List Char)
    (hd : 4 * (d + n) * mergeTime = 128) :
    b.pieceLoop mergeTime bitnum (r + 4 * n) (4 * d * mergeTime) 0 0 out =
      storeAll bitnum ((List.range' d n).map fun d => hexMap (b.digitAt mergeTime d)) out := by
  induction n generalizing d out with
  | zero =>
    -- the block is at its end
    rw [Nat.add_zero] at hd
    rw [hd]
    cases r with
    | zero => rfl
    | succ r => rfl
  | succ n ih =>
    have hlast : (4 * d + 3) * mergeTime < 128 := by
      rw [← hd]
      apply Nat.mul_lt_mul_of_pos_right (by omega)
      apply Nat.pos_of_ne_zero
      rintro rfl
      rw [Nat.mul_zero] at hd
      cases hd
    rw [show r + 4 * (n + 1) = r + 4 * n + 4 by omega, Block.pieceLoop_digit _ _ hlast,
      List.range'_succ, List.map_cons, storeAll]
    rw [ih (d + 1) _ (by rwa [show d + 1 + n = d + (n + 1) by omega])]

namespace MemStorage

section digits

variable {st : MemStorage} {mergeTime bitnum perBlock : Nat}

/-- Digit `j` of the bitmap. -/
def digit (st : MemStorage) (mergeTime j : Nat) : Char :=
  hexMap (digitOf fun i => st.groupCached mergeTime (4 * j + i))

theorem merge_pos (hper : perBlock * (4 * mergeTime) = 128) : 0 < mergeTime := by
  apply Nat.pos_of_ne_zero
  intro hzero
  rw [hzero] at hper
  cases hper

/-- Piece `k` of group `i` of a digit of a block, counted over the file. -/
theorem place_of_group (hper : perBlock * (4 * mergeTime) = 128) (ib : Nat) {d i k : Nat}
    (hd : d < perBlock) (hi : i < 4) (hk : k < mergeTime) :
    (4 * (ib * perBlock + d) + i) * mergeTime + k = ib * 128 + ((4 * d + i) * mergeTime + k) ∧
      (4 * d + i) * mergeTime + k < 128 := by
  constructor
  · rw [← hper]
    ring
  · have hlast : (4 * d + i + 1) * mergeTime ≤ perBlock * (4 * mergeTime) := by
      rw [← Nat.mul_assoc]
      exact Nat.mul_le_mul_right _ (by omega)
    rw [Nat.succ_mul] at hlast
    omega

/-- The groups of a block that is allocated are those of its buffers. -/
theorem digit_of_block (hper : perBlock * (4 * mergeTime) = 128) {ib d : Nat} {block : Block}
    (hblock : st.blocks[ib]? = some (some block)) (hd : d < perBlock) :
    st.digit mergeTime (ib * perBlock + d) = hexMap (block.digitAt mergeTime d) := by
  rw [digit, Block.digitAt]
  congr 1
  apply digitOf_congr
  intro i hi
  unfold Block.group groupCached
  rw [Bool.eq_iff_iff, List.all_eq_true, List.all_eq_true]
  refine forall₂_congr fun k hk => ?_
  obtain ⟨hplace, hin⟩ := place_of_group hper ib hd hi (List.mem_range.mp hk)
  rw [hplace, cached, pieceAt_of_block hblock (by omega), show
    (ib * 128 + ((4 * d + i) * mergeTime + k)) % 128 = (4 * d + i) * mergeTime + k by omega]

/-- No piece of a null block is cached, so its digits are zero. -/
theorem digit_of_null (hper : perBlock * (4 * mergeTime) = 128) {ib d : Nat}
    (hnull : ∀ block, st.blocks[ib]? = some (some block) → False) (hd : d < perBlock) :
    st.digit mergeTime (ib * perBlock + d) = '0' := by
  have hmerge := merge_pos hper
  have hzero : digitOf (fun i => st.groupCached mergeTime (4 * (ib * perBlock + d) + i)) =
      digitOf fun _ => false := by
    apply digitOf_congr
    intro i hi
    -- the first piece of a group is missing already
    obtain ⟨hplace, hin⟩ := place_of_group hper ib hd hi hmerge
    rw [groupCached, List.all_eq_false]
    refine ⟨0, List.mem_range.mpr hmerge, ?_⟩
    rw [hplace, cached, pieceAt, msPieceNumOfPerBlock,
      show (ib * 128 + ((4 * d + i) * mergeTime + 0)) / 128 = ib by omega]
    split
    · rename_i block hblock
      exact absurd hblock (hnull block)
    · decide
  rw [digit, hzero]
  rfl

/-- One block stores its digits, whether it is allocated or not. -/
theorem digitLoop_block (n ib : Nat) (out : List Char)
    (hper : perBlock * (4 * mergeTime) = 128) :
    st.digitLoop mergeTime bitnum (n + 1) ib out =
      st.digitLoop mergeTime bitnum n (ib + 1) (storeAll bitnum
        ((List.range perBlock).map fun d => st.digit mergeTime (ib * perBlock + d)) out) := by
  have hmerge := merge_pos hper
  rw [digitLoop]
  split
  · rename_i block hblock
    have hpieces := @Block.pieceLoop_eq block mergeTime bitnum perBlock 0 (128 - 4 * perBlock) out
      (by rw [Nat.zero_add, ← hper]; ring)
    have hfuel : 128 - 4 * perBlock + 4 * perBlock = 128 := by
      have : 4 * perBlock ≤ perBlock * (4 * mergeTime) := by
        rw [Nat.mul_comm 4 perBlock]
        exact Nat.mul_le_mul_left _ (by omega)
      omega
    rw [hfuel, Nat.mul_zero, Nat.zero_mul, ← List.range_eq_range'] at hpieces
    rw [msPieceNumOfPerBlock, hpieces]
    congr 2
    apply List.map_congr_left
    intro d hd
    exact (digit_of_block hper hblock (List.mem_range.mp hd)).symm
  · rename_i hnull
    have hcount : 128 / (4 * mergeTime) = perBlock := by
      rw [← hper]
      exact Nat.mul_div_cancel _ (by omega)
    rw [msPieceNumOfPerBlock, hcount, nullLoop_eq]
    congr 2
    symm
    rw [List.eq_replicate_iff]
    constructor
    · rw [List.length_map, List.length_range]
    · intro c hc
      obtain ⟨d, hd, rfl⟩ := List.mem_map.mp hc
      exact digit_of_null hper hnull (List.mem_range.mp hd)

/-- The digits up to `j`. -/
def digits (st : MemStorage) (mergeTime j : Nat) : List Char :=
  (List.range j).map (st.digit mergeTime)

theorem length_digits (j : Nat) : (st.digits mergeTime j).length = j := by
  simp [digits]

/-- Behind the digits of the blocks before it, a block stores its own, as far
    as there is room. -/
theorem storeAll_digits (ib : Nat) (hroom : ib * perBlock < bitnum) :
    storeAll bitnum ((List.range perBlock).map fun d => st.digit mergeTime (ib * perBlock + d))
        (st.digits mergeTime (ib * perBlock)) =
      st.digits mergeTime (min ((ib + 1) * perBlock) bitnum) := by
  rw [storeAll_eq, length_digits, ← List.map_take, List.take_range,
    show max 1 (bitnum - ib * perBlock) = bitnum - ib * perBlock by omega]
  have hsum : min ((ib + 1) * perBlock) bitnum =
      ib * perBlock + min (bitnum - ib * perBlock) perBlock := by
    rw [Nat.succ_mul]
    omega
  rw [hsum, digits, digits, List.range_add, List.map_append, List.map_map]
  rfl

/-- **Enough room.** Where the last block has a digit to store, the loop
    stores all digits and no more. -/
theorem digitLoop_full (n ib : Nat) (hmerge : perBlock * (4 * mergeTime) = 128)
    (hroom : (ib + n) * perBlock < bitnum) (hall : bitnum ≤ (ib + n + 1) * perBlock) :
    st.digitLoop mergeTime bitnum (n + 1) ib (st.digits mergeTime (ib * perBlock)) =
      st.digits mergeTime bitnum := by
  induction n generalizing ib with
  | zero =>
    rw [digitLoop_block 0 ib _ hmerge, storeAll_digits ib hroom, digitLoop,
      min_eq_right hall]
  | succ n ih =>
    have hhere : (ib + 1) * perBlock < bitnum :=
      Nat.lt_of_le_of_lt (Nat.mul_le_mul_right _ (by omega)) hroom
    rw [digitLoop_block (n + 1) ib _ hmerge, storeAll_digits ib, min_eq_left hhere.le]
    · exact ih (ib + 1) (by rwa [show ib + 1 + n = ib + (n + 1) by omega])
        (by rwa [show ib + 1 + n = ib + (n + 1) by omega])
    · exact Nat.lt_of_le_of_lt (Nat.mul_le_mul_right _ (by omega)) hhere

/-- **No room.** Where all digits are stored before the last block, that
    block stores one more. -/
theorem digitLoop_past (n ib : Nat) (out : List Char) (hmerge : perBlock * (4 * mergeTime) = 128)
    (hper : 0 < perBlock) (hout : min (ib * perBlock) bitnum ≤ out.length)
    (hfull : bitnum ≤ (ib + n) * perBlock) :
    bitnum < (st.digitLoop mergeTime bitnum (n + 1) ib out).length := by
  induction n generalizing ib out with
  | zero =>
    rw [digitLoop_block 0 ib out hmerge, digitLoop, storeAll_eq, List.length_append,
      List.length_take, List.length_map, List.length_range]
    rw [Nat.add_zero] at hfull
    omega
  | succ n ih =>
    rw [digitLoop_block (n + 1) ib out hmerge]
    apply ih
    · rw [storeAll_eq, List.length_append, List.length_take, List.length_map, List.length_range,
        Nat.succ_mul]
      omega
    · rwa [show ib + 1 + n = ib + (n + 1) by omega]

end digits

/-! ## The whole function -/

section bitmap

variable {st : MemStorage} {bitmap : Option (List Char)}

/-- The digits per block, and the sizes of the file in blocks and digits. -/
theorem bitmap_sizes (hknown : 0 < st.filesize) :
    ∃ perBlock, perBlock * (4 * (bitmapSize st.filesize).2) = 128 ∧ 0 < perBlock ∧
      1 ≤ blockNum st.filesize ∧
      (bitmapSize st.filesize).1 ≤ blockNum st.filesize * perBlock ∧
      ((blockNum st.filesize - 1) * 32 + (bitmapSize st.filesize).2 ≤ bitNum st.filesize ↔
        (blockNum st.filesize - 1) * perBlock < (bitmapSize st.filesize).1) := by
  obtain ⟨-, hdigits, hmerge⟩ := halvingLoop_done st.filesize
  have hblocks := blockNum_eq st.filesize
  have hbits : bitNum st.filesize = (((st.filesize + 16383) / 16384 + 3) / 4).toNat := rfl
  have hcover : bitNum st.filesize ≤ blockNum st.filesize * 32 := by omega
  rw [hdigits]
  rcases hmerge with h | h | h
  · rw [h]
    exact ⟨32, rfl, by decide, by omega, by omega, by omega⟩
  · rw [h]
    exact ⟨16, rfl, by decide, by omega, by omega, by omega⟩
  · rw [h]
    exact ⟨8, rfl, by decide, by omega, by omega, by omega⟩

/-- The last block has as many digits as a group has pieces: then the digits
    that are stored are those of the bitmap. -/
theorem storedDigits_eq (hknown : 0 < st.filesize)
    (hlast : (blockNum st.filesize - 1) * 32 + (bitmapSize st.filesize).2 ≤
      bitNum st.filesize) :
    st.storedDigits = st.digits (bitmapSize st.filesize).2 (bitmapSize st.filesize).1 := by
  obtain ⟨perBlock, hmerge, -, hblocks, hcover, hiff⟩ := bitmap_sizes hknown
  have hfull := @digitLoop_full st _ (bitmapSize st.filesize).1 perBlock
    (blockNum st.filesize - 1) 0 hmerge (by rw [Nat.zero_add]; exact hiff.mp hlast)
    (by rwa [Nat.zero_add, Nat.sub_add_cancel hblocks])
  rw [Nat.sub_add_cancel hblocks, Nat.zero_mul] at hfull
  simp only [storedDigits, st.known hknown]
  exact hfull

/-- It has fewer: then a digit is stored behind the last one. -/
theorem storedDigits_past (hknown : 0 < st.filesize)
    (hlast : ¬ (blockNum st.filesize - 1) * 32 + (bitmapSize st.filesize).2 ≤
      bitNum st.filesize) :
    (bitmapSize st.filesize).1 < st.storedDigits.length := by
  obtain ⟨perBlock, hmerge, hper, hblocks, -, hiff⟩ := bitmap_sizes hknown
  have hpast := @digitLoop_past st _ (bitmapSize st.filesize).1 perBlock
    (blockNum st.filesize - 1) 0 [] hmerge hper (by simp)
    (by rw [Nat.zero_add]; exact Nat.not_lt.mp fun hlt => hlast (hiff.mpr hlt))
  rw [Nat.sub_add_cancel hblocks] at hpast
  simp only [storedDigits, st.known hknown]
  exact hpast

theorem mem_digits_ne_nul {mergeTime j : Nat} {c : Char} (h : c ∈ st.digits mergeTime j) :
    c ≠ '\x00' := by
  obtain ⟨d, -, rfl⟩ := List.mem_map.mp h
  exact hexMap_ne_nul (digitOf_lt _)

/-- A buffer that starts with the digits and a NUL prints the digits. -/
theorem cString_digits (mergeTime j : Nat) (rest : List Char) :
    cString (st.digits mergeTime j ++ '\x00' :: rest) = st.digits mergeTime j := by
  rw [cString, List.takeWhile_append_of_pos]
  · simp
  · intro c hc
    simpa using mem_digits_ne_nul hc

/-- Bit `i` of a digit of the bitmap is that of its group. -/
theorem digits_bits {mergeTime j n : Nat} (hj : j < n) :
    ∃ digit < 16, (st.digits mergeTime n)[j]? = some (hexMap digit) ∧
      ∀ i < 4, digit.testBit (3 - i) = true ↔
        ∀ k < mergeTime, st.cached ((4 * j + i) * mergeTime + k) = true := by
  refine ⟨digitOf fun i => st.groupCached mergeTime (4 * j + i), digitOf_lt _, ?_, ?_⟩
  · rw [digits, List.getElem?_map, List.getElem?_range hj]
    rfl
  · intro i hi
    rw [digitOf_testBit _ hi, groupCached, List.all_eq_true]
    simp

/-- **The bitmap.** `get_bitmap` leaves a well formed bitmap iff `bit_num` is
    an `int`, a buffer that was allocated before has room for the digits and
    the NUL, and the last block of the file has at least `merge_time` digits
    before the halving. -/
theorem bitmapWellFormed_iff (st : MemStorage) (bitmap : Option (List Char))
    (hknown : 0 < st.filesize) :
    st.BitmapWellFormed bitmap ↔
      bitNum st.filesize < 2 ^ 31 ∧
      (∀ buffer, bitmap = some buffer → (bitmapSize st.filesize).1 < buffer.length) ∧
      (blockNum st.filesize - 1) * 32 + (bitmapSize st.filesize).2 ≤ bitNum st.filesize := by
  simp only [BitmapWellFormed]
  constructor
  · rintro ⟨hstored, buffer, hbuffer, -⟩
    rw [getBitmap, if_neg (by omega)] at hbuffer
    split at hbuffer
    · cases hbuffer
    · rename_i hint
      simp only at hbuffer
      split at hbuffer
      · rename_i hfits
        refine ⟨by omega, ?_, ?_⟩
        · rintro old rfl
          exact hfits.1
        · by_contra hlast
          have := storedDigits_past hknown hlast
          omega
      · cases hbuffer
  · rintro ⟨hint, hroom, hlast⟩
    have hstored := storedDigits_eq hknown hlast
    have hlength : st.storedDigits.length = (bitmapSize st.filesize).1 := by
      rw [hstored, length_digits]
    have hfits : (bitmapSize st.filesize).1 + 1 ≤
        (bitmap.getD (List.replicate ((bitmapSize st.filesize).1 + 1) '\x00')).length := by
      cases bitmap with
      | none => simp
      | some buffer => exact hroom buffer rfl
    -- what the `memset` left behind the digits starts with a NUL
    have hbuffer : ∃ rest, st.getBitmap bitmap = some (some (st.digits
        (bitmapSize st.filesize).2 (bitmapSize st.filesize).1 ++ '\x00' :: rest)) := by
      rw [getBitmap, if_neg (by omega), if_neg (by omega)]
      simp only
      rw [if_pos ⟨hfits, by omega⟩, hlength, List.drop_append_of_le_length (by simp),
        List.drop_replicate, Nat.add_sub_cancel_left, hstored]
      exact ⟨_, rfl⟩
    obtain ⟨rest, hrest⟩ := hbuffer
    refine ⟨hlength.le, _, hrest, ?_, ?_, ?_⟩
    · rw [List.getElem?_append_right (by rw [length_digits]), length_digits, Nat.sub_self]
      rfl
    · rw [cString_digits, length_digits]
    · intro j hj
      rw [cString_digits]
      exact digits_bits hj

end bitmap

/-- The bitmap of a file of three bytes. -/
theorem bitmapWellFormed_iff_three : 0 < threeBytes.filesize ∧
    (threeBytes.BitmapWellFormed none ↔
      bitNum threeBytes.filesize < 2 ^ 31 ∧
      (∀ buffer : List Char, none = some buffer →
        (bitmapSize threeBytes.filesize).1 < buffer.length) ∧
      (blockNum threeBytes.filesize - 1) * 32 + (bitmapSize threeBytes.filesize).2 ≤
        bitNum threeBytes.filesize) :=
  ⟨by decide, bitmapWellFormed_iff threeBytes none (by decide)⟩

/-- A file of 8 MiB and one byte has 129 digits, halved to 64 of which each
    full block has 16. The fifth block stores one more. -/
theorem bitmap_one_more :
    ∃ st : MemStorage, st.Reachable ∧ st.filesize = 8388609 ∧
      (bitmapSize st.filesize).1 = 64 ∧ 64 < st.storedDigits.length ∧
      ¬ st.BitmapWellFormed none := by
  obtain ⟨st, hst⟩ := @setFilesize_open 8388609 (by decide)
  obtain ⟨hfile, -⟩ := setFilesize_spec hst
  have hsize : bitmapSize 8388609 = (64, 2) := by decide
  have hpast : (bitmapSize st.filesize).1 < st.storedDigits.length :=
    storedDigits_past (by rw [hfile]; decide) (by rw [hfile, hsize]; decide)
  have hdigits : (bitmapSize st.filesize).1 = 64 := by rw [hfile, hsize]
  refine ⟨st, reachable_open.call (c := .setFilesize 8388609) hst, hfile, hdigits,
    by omega, fun h => ?_⟩
  have hle : st.storedDigits.length ≤ (bitmapSize st.filesize).1 := h.1
  omega

end MemStorage

end Libms
