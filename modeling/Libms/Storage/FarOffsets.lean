import Mathlib
import Libms.Framework.CInt
import Libms.Storage.Scan

/-! # `cached_from` at every offset

    `block_index` returns an `int`. For an offset of 4 PiB and more it is not
    the index of the block: the scan then starts in another block of the
    table, or in front of it.

    * `cachedFromInt`: `cached_from` with this index. Below 4 PiB it is
      `cachedFrom` (`cachedFromInt_eq`).
    * `scanStart`: the offset at which the scan does start.
    * `Follows`: the scan from one offset goes along with the scan from
      another, and differs in the position it reports.
    * `cachedFromInt_isSome_iff`: when the asserts of the scan hold.
    * `cachedFromInt_past`: behind the end of the file no bytes are reported. -/

namespace Libms

open CInt

namespace MemStorage

/-- `block_index`, as the `int` it returns. -/
def blockIndexInt (pos : Nat) : Int := toInt32 (blockIndex pos)

/-- The loop of `cached_from` over the last `n` blocks of the table, for a
    scan that begins in block `first` at piece `ip`. -/
def scanTable (w : IntArith) (st : MemStorage) (start : Int) (first firstPiece : Nat) :
    (n ib : Nat) → ScanLoop → Option (Int × Int)
  | 0, _, l => clipScan st.estimateSize l
  | n + 1, ib, l =>
    match st.blocks[ib]? with
    | some (some block) =>
      let ip := if ib > first then 0 else firstPiece
      match scanPieces w start block ib (msPieceNumOfPerBlock - ip) ip l with
      | .inl l => scanTable w st start first firstPiece n (ib + 1) l
      | .inr l => clipScan st.estimateSize l
    | _ =>
      if l.findFirst then
        if l.pos + l.len ≤ st.estimateSize then some (l.pos, l.len) else none
      else scanTable w st start first firstPiece n (ib + 1) l

/-- `cached_from` for every `from` that is not negative. A negative index
    leaves the table, which is no better than a failed assert. -/
def cachedFromInt (w : IntArith) (st : MemStorage) (start : Int) : Option (Int × Int) :=
  if st.estimateSize = 0 then some (start, -1)
  else
    let ib := blockIndexInt start.toNat
    if ib < 0 then none
    else
      scanTable w st start ib.toNat (pieceIndex start.toNat)
        (blockNum st.estimateSize - ib.toNat) ib.toNat ⟨0, 0, false⟩

/-- Where the scan from `start` begins. -/
def scanStart (start : Nat) : Nat := (blockIndexInt start).toNat * 2097152 + start % 2097152

section near

variable {w : IntArith} {st : MemStorage} {start : Nat}

theorem blockIndexInt_eq (h : start < 2 ^ 52) : blockIndexInt start = blockIndex start := by
  rw [blockIndexInt, blockIndex_eq]
  exact toInt32_of_range (by omega) (by omega)

theorem blockIndex_scanStart : blockIndex (scanStart start) = (blockIndexInt start).toNat := by
  rw [scanStart, blockIndex_eq]
  omega

theorem pieceIndex_scanStart : pieceIndex (scanStart start) = pieceIndex start := by
  rw [scanStart, pieceIndex_eq, pieceIndex_eq]
  omega

theorem scanStart_le (h : 0 ≤ blockIndexInt start) : scanStart start ≤ start := by
  have hle : blockIndexInt start ≤ blockIndex start := by
    unfold blockIndexInt toInt32
    omega
  rw [blockIndex_eq] at hle
  rw [scanStart]
  omega

theorem scanTable_eq (n ib : Nat) (l : ScanLoop) :
    scanTable w st start (blockIndex start) (pieceIndex start) n ib l =
      scanBlocks w st start n ib l := by
  induction n generalizing ib l with
  | zero => rfl
  | succ n ih =>
    unfold scanTable scanBlocks
    cases st.blocks[ib]? with
    | none => simp only [ih]
    | some entry =>
      cases entry with
      | none => simp only [ih]
      | some block =>
        simp only [Int.toNat_natCast]
        cases scanPieces w start block ib
            (msPieceNumOfPerBlock - if ib > blockIndex start then 0 else pieceIndex start)
            (if ib > blockIndex start then 0 else pieceIndex start) l with
        | inl r => exact ih (ib + 1) r
        | inr r => rfl

/-- Below 4 PiB the index is right. -/
theorem cachedFromInt_eq (h : start < 2 ^ 52) :
    st.cachedFromInt w start = st.cachedFrom w start := by
  have hindex : blockIndexInt ((start : Int)).toNat = blockIndex start := by
    rw [Int.toNat_natCast]
    exact blockIndexInt_eq h
  unfold cachedFromInt cachedFrom
  split
  · rfl
  · dsimp only
    rw [hindex, if_neg (by omega), Int.toNat_natCast, Int.toNat_natCast, scanTable_eq]

end near

/-! ## Two scans -/

/-- The loop of the scan from `x` beside the loop of a scan that begins at
    the same piece: both have found the same run, and the first reports it
    from `x` on. -/
structure Follows (x : Int) (l l' : ScanLoop) : Prop where
  findFirst : l.findFirst = l'.findFirst
  searching : l'.findFirst = false → l = ⟨0, 0, false⟩ ∧ l' = ⟨0, 0, false⟩
  pos : l'.findFirst = true → l.pos = max x l'.pos
  stop : l.pos + l.len = l'.pos + l'.len

section follows

variable {w : IntArith} {st : MemStorage} {x : Int} {y k i : Nat} {l l' : ScanLoop}

theorem Follows.piece (h : Follows x l l') (hyx : (y : Int) ≤ x) (ib ip : Nat) :
    Follows x (scanPiece w x ib ip l) (scanPiece w y ib ip l') := by
  have hsame := h.findFirst
  have hpos := h.pos
  have hstop := h.stop
  unfold scanPiece
  cases hfound : l'.findFirst with
  | true =>
    rw [hfound] at hsame
    rw [if_pos hsame, if_pos rfl]
    exact ⟨hsame, fun hnot => (by cases hnot), fun _ => hpos hfound, by dsimp only; omega⟩
  | false =>
    rw [hfound] at hsame
    rw [if_neg (by rw [hsame]; exact Bool.false_ne_true), if_neg Bool.false_ne_true]
    dsimp only
    -- the piece is the first one, and each scan cuts it where it starts
    split <;> split
    · exact ⟨rfl, fun hnot => (by cases hnot), fun _ => by dsimp only; omega,
        by dsimp only; omega⟩
    · exact ⟨rfl, fun hnot => (by cases hnot), fun _ => by dsimp only; omega,
        by dsimp only; omega⟩
    · omega
    · exact ⟨rfl, fun hnot => (by cases hnot), fun _ => by dsimp only; omega, rfl⟩

/-- The loop over the pieces of a block ends in the same way. -/
theorem Follows.pieces (h : Follows x l l') (hyx : (y : Int) ≤ x) (block : Block) (ib n ip : Nat) :
    (∃ r r', scanPieces w x block ib n ip l = .inl r ∧ scanPieces w y block ib n ip l' = .inl r' ∧
        Follows x r r') ∨
      ∃ r r', scanPieces w x block ib n ip l = .inr r ∧ scanPieces w y block ib n ip l' = .inr r' ∧
        Follows x r r' := by
  induction n generalizing ip l l' with
  | zero => exact Or.inl ⟨l, l', rfl, rfl, h⟩
  | succ n ih =>
    rw [scanPieces, scanPieces]
    cases block.buf ip with
    | some buf => exact ih (h.piece hyx ib ip) (ip + 1)
    | none =>
      dsimp only
      rw [h.findFirst]
      split
      · exact Or.inr ⟨l, l', rfl, rfl, h⟩
      · exact ih h (ip + 1)

/-- The run is the same, from `x` on. -/
theorem Follows.run (h : Follows x l (runLoop w y k i)) (hyx : (y : Int) ≤ x) :
    l = runLoop w x k i := by
  have hpos := h.pos rfl
  have hstop := h.stop
  have hfound := h.findFirst
  have hmax : max x (max (y : Int) (pieceFrom w k)) = max x (pieceFrom w k) := by
    rw [← max_assoc, max_eq_left hyx]
  simp only [runLoop] at hpos hstop hfound ⊢
  rw [hmax] at hpos
  obtain ⟨pos, len, findFirst⟩ := l
  simp only at hpos hstop hfound
  rw [ScanLoop.mk.injEq]
  exact ⟨hpos, by omega, hfound⟩

/-! ## The result -/

/-- The block of piece `i` is missing, inside the table. -/
def MissingAt (st : MemStorage) (i : Nat) : Prop := st.blocks[i / 128]? = some none

/-- What the scan from `x` returns that begins at `y`: zeros, or the first
    run of cached pieces. At a missing block nothing is cut. -/
def FoundFrom (w : IntArith) (st : MemStorage) (x : Int) (y : Nat) (r : Option (Int × Int)) :
    Prop :=
  ((∀ j, y / 16384 ≤ j → st.cached j = false) ∧ r = clipScan st.estimateSize ⟨0, 0, false⟩) ∨
    ∃ k i, st.FirstPieces y k i ∧
      (st.MissingAt i ∧ r = some ((runLoop w x k i).pos, (runLoop w x k i).len) ∨
        ¬ st.MissingAt i ∧ r = clipScan st.estimateSize (runLoop w x k i))

theorem Scanned.stops (h : Scanned w st y i l') (hs : Follows x l l') (hyx : (y : Int) ≤ x)
    (hfound : l'.findFirst = true) (hstop : st.cached i = false) :
    ∃ k, st.FirstPieces y k i ∧ l = runLoop w x k i := by
  cases h with
  | searching _ => cases hfound
  | running k hk hki hbefore hall => exact ⟨k, ⟨hk, hki, hbefore, hall, hstop⟩, hs.run hyx⟩

/-- Behind the table nothing is cached. -/
theorem Scanned.endsFrom (h : Scanned w st y i l') (hs : Follows x l l') (hyx : (y : Int) ≤ x)
    (hi : st.blocks.length * 128 ≤ i) : FoundFrom w st x y (clipScan st.estimateSize l) := by
  have hnone : ∀ j, i ≤ j → st.cached j = false := by
    intro j hj
    by_contra hcached
    have := cached_lt_blocks (Bool.eq_true_of_not_eq_false hcached)
    omega
  cases hfound : l'.findFirst with
  | true =>
    obtain ⟨k, hrun, rfl⟩ := h.stops hs hyx hfound (hnone i (Nat.le_refl _))
    refine Or.inr ⟨k, i, hrun, Or.inr ⟨?_, rfl⟩⟩
    intro hmissing
    have hlt := (List.getElem?_eq_some_iff.mp hmissing).1
    omega
  | false =>
    rw [(hs.searching hfound).1]
    cases h with
    | running _ _ _ _ _ => cases hfound
    | searching hbefore =>
      refine Or.inl ⟨fun j hj => ?_, rfl⟩
      rcases Nat.lt_or_ge j i with hlt | hge
      · exact hbefore j hj hlt
      · exact hnone j hge

/-- The scan over the rest of the table. -/
theorem scanTable_spec (hle : ∀ i, pieceFrom w i ≤ i * 16384) (hyx : (y : Int) ≤ x) (n ib : Nat)
    {l l' : ScanLoop} (htable : ib + n = st.blocks.length) (hib : y / 2097152 ≤ ib)
    (h : Scanned w st y (max (ib * 128) (y / 16384)) l') (hs : Follows x l l') :
    FoundFrom w st x y (st.scanTable w x (blockIndex y) (pieceIndex y) n ib l) := by
  induction n generalizing ib l l' with
  | zero => exact h.endsFrom hs hyx (by omega)
  | succ n ih =>
    have hget : st.blocks[ib]? = some st.blocks[ib] := List.getElem?_eq_getElem (by omega)
    have hnext : max ((ib + 1) * 128) (y / 16384) = (ib + 1) * 128 := by omega
    cases hb : st.blocks[ib] with
    | some block =>
      rw [hb] at hget
      simp only [scanTable, hget, msPieceNumOfPerBlock]
      have hip : ib * 128 + (if ib > blockIndex y then 0 else pieceIndex y) =
          max (ib * 128) (y / 16384) := by
        rw [blockIndex_eq, pieceIndex_eq]
        split <;> omega
      generalize (if ib > blockIndex y then 0 else pieceIndex y) = ip at hip ⊢
      rw [← hip] at h
      rcases scanPieces_spec (128 - ip) ip hget (by omega) (by omega) h with
        ⟨r', hr', hscan⟩ | ⟨r', i, hr', hscan, hfound, hstop, hin⟩
      · rcases hs.pieces hyx block ib (128 - ip) ip with ⟨r, r'', hr, hr'', hfollow⟩ |
          ⟨r, r'', hr, hr'', -⟩
        · rw [hr', Sum.inl.injEq] at hr''
          rw [hr]
          apply ih (ib + 1) (by omega) (by omega) _ (hr'' ▸ hfollow)
          rwa [hnext]
        · rw [hr'] at hr''
          cases hr''
      · rcases hs.pieces hyx block ib (128 - ip) ip with ⟨r, r'', hr, hr'', -⟩ |
          ⟨r, r'', hr, hr'', hfollow⟩
        · rw [hr'] at hr''
          cases hr''
        · rw [hr', Sum.inr.injEq] at hr''
          rw [hr]
          obtain ⟨k, hrun, rfl⟩ := hscan.stops (hr'' ▸ hfollow) hyx hfound hstop
          refine Or.inr ⟨k, i, hrun, Or.inr ⟨?_, rfl⟩⟩
          intro hmissing
          rw [MissingAt, hin, hget] at hmissing
          cases hmissing
    | none =>
      rw [hb] at hget
      have hnull : ∀ j, j / 128 = ib → st.cached j = false := by
        intro j hj
        rw [not_cached_iff]
        exact pieceAt_of_null hget hj
      simp only [scanTable, hget]
      rw [hs.findFirst]
      cases hfound : l'.findFirst with
      | false =>
        rw [if_neg Bool.false_ne_true]
        apply ih (ib + 1) (by omega) (by omega) _ hs
        rw [hnext]
        exact h.skip hfound fun j _ hge hlt => hnull j (by omega)
      | true =>
        -- the run came here from the block before
        have hbegun : max (ib * 128) (y / 16384) = ib * 128 := by
          cases h with
          | searching _ => cases hfound
          | running k hk hki _ _ => omega
        rw [hbegun] at h
        obtain ⟨k, hrun, rfl⟩ := h.stops hs hyx hfound (hnull _ (by omega))
        have hfrom := hle k
        have hsum : (runLoop w x k (ib * 128)).pos + (runLoop w x k (ib * 128)).len ≤
            st.estimateSize := by
          have hsized := st.sized
          rw [blockNum_eq] at hsized
          simp only [runLoop]
          push_cast
          omega
        rw [if_pos rfl, if_pos hsum]
        refine Or.inr ⟨k, ib * 128, hrun, Or.inl ⟨?_, rfl⟩⟩
        rw [MissingAt, show ib * 128 / 128 = ib by omega]
        exact hget

end follows

section result

variable {w : IntArith} {st : MemStorage} {start : Nat}

/-- **The scan from any offset.** A negative index leaves the table. Else
    nothing is found, or the first run from where the scan begins. -/
theorem cachedFromInt_cases (hle : ∀ i, pieceFrom w i ≤ i * 16384) (hest : 0 < st.estimateSize) :
    (blockIndexInt start < 0 ∧ st.cachedFromInt w start = none) ∨
      (0 ≤ blockIndexInt start ∧
        FoundFrom w st start (scanStart start) (st.cachedFromInt w start)) := by
  unfold cachedFromInt
  rw [if_neg hest.ne', Int.toNat_natCast]
  dsimp only
  by_cases hneg : blockIndexInt start < 0
  · exact Or.inl ⟨hneg, if_pos hneg⟩
  · rw [if_neg hneg, ← blockIndex_scanStart, ← pieceIndex_scanStart]
    refine Or.inr ⟨by omega, ?_⟩
    have hsized := st.sized
    have hyx : scanStart start ≤ start := scanStart_le (by omega)
    have hindex := blockIndex_eq (scanStart start)
    have hbegin : Follows (start : Int) ⟨0, 0, false⟩ ⟨0, 0, false⟩ :=
      ⟨rfl, fun _ => ⟨rfl, rfl⟩, fun hfound => (by cases hfound), rfl⟩
    have hsearch : ∀ i, i ≤ scanStart start / 16384 →
        Scanned w st (scanStart start) i ⟨0, 0, false⟩ :=
      fun i hi => .searching fun j hj hlt => by omega
    by_cases hin : blockIndex (scanStart start) ≤ st.blocks.length
    · apply scanTable_spec hle (by omega) _ _ (by omega) (by omega) (hsearch _ (by omega)) hbegin
    · -- the scan begins behind the table
      rw [show blockNum st.estimateSize - blockIndex (scanStart start) = 0 by omega]
      exact (hsearch _ (Nat.le_refl _)).endsFrom hbegin (by omega) (by omega)

theorem clipScan_zero (hest : 0 < st.estimateSize) :
    clipScan st.estimateSize ⟨0, 0, false⟩ = some (0, 0) := by
  rw [clipScan, if_pos (by dsimp only; omega), if_neg (by dsimp only; omega)]

/-- **When the asserts hold.** The scan begins in the table, and the first
    run it finds ends at a missing block, or neither it nor the offset lies
    behind the end of the file. -/
theorem cachedFromInt_isSome_iff (hle : ∀ i, pieceFrom w i ≤ i * 16384)
    (hest : 0 < st.estimateSize) :
    (st.cachedFromInt w start).isSome ↔ 0 ≤ blockIndexInt start ∧
      ∀ k i, st.FirstPieces (scanStart start) k i →
        st.MissingAt i ∨ max (start : Int) (pieceFrom w k) ≤ st.estimateSize := by
  rcases @cachedFromInt_cases w st start hle hest with ⟨hneg, hnone⟩ | ⟨hnonneg, hfound⟩
  · rw [hnone]
    constructor
    · intro hsome
      cases hsome
    · intro ⟨hnonneg, _⟩
      omega
  · rcases hfound with ⟨hnothing, hscan⟩ | ⟨k, i, hrun, hend⟩
    · rw [hscan, clipScan_zero hest]
      refine iff_of_true rfl ⟨hnonneg, fun k i hrun => ?_⟩
      have hcached := hrun.all k (Nat.le_refl _) hrun.more
      rw [hnothing k hrun.first] at hcached
      cases hcached
    · have honly : ∀ k' i', st.FirstPieces (scanStart start) k' i' → k' = k ∧ i' = i :=
        fun k' i' hrun' => hrun'.unique hrun
      rcases hend with ⟨hmissing, hscan⟩ | ⟨hpresent, hscan⟩
      · rw [hscan]
        refine iff_of_true rfl ⟨hnonneg, fun k' i' hrun' => ?_⟩
        rw [(honly k' i' hrun').2]
        exact Or.inl hmissing
      · rw [hscan, clipScan]
        constructor
        · intro hsome
          refine ⟨hnonneg, fun k' i' hrun' => Or.inr ?_⟩
          rw [(honly k' i' hrun').1]
          by_contra hpast
          rw [if_neg (by simpa only [runLoop] using hpast)] at hsome
          cases hsome
        · intro ⟨_, hall⟩
          have hin := (hall k i hrun).resolve_left hpresent
          rw [if_pos (by simpa only [runLoop] using hin)]
          rfl

/-- A run that ends at a missing block ends inside the file. -/
theorem FirstPieces.missing_le {y k i : Nat} (h : st.FirstPieces y k i)
    (hmissing : st.MissingAt i) : (i * 16384 : Int) ≤ st.estimateSize := by
  have hmore := h.more
  have hlast := h.all (i - 1) (by omega) (by omega)
  -- the last piece of the run is in a block of its own
  have hborder : i % 128 = 0 := by
    by_contra hinside
    have hempty : st.cached (i - 1) = false := by
      rw [not_cached_iff]
      exact pieceAt_of_null hmissing (by omega)
    rw [hempty] at hlast
    cases hlast
  have hlt := (List.getElem?_eq_some_iff.mp hmissing).1
  have hsized := st.sized
  rw [blockNum_eq] at hsized
  omega

/-- **Behind the end of the file** no bytes are reported at the offset. -/
theorem cachedFromInt_past (hle : ∀ i, pieceFrom w i ≤ i * 16384) (hest : 0 < st.estimateSize)
    (hpast : st.estimateSize ≤ start) {pos len : Int}
    (h : st.cachedFromInt w start = some (pos, len)) : ¬ (pos = start ∧ 0 < len) := by
  intro ⟨hat, hsome⟩
  rcases @cachedFromInt_cases w st start hle hest with ⟨-, hnone⟩ | ⟨-, hfound⟩
  · rw [hnone] at h
    cases h
  · rcases hfound with ⟨-, hscan⟩ | ⟨k, i, hrun, ⟨hmissing, hscan⟩ | ⟨-, hscan⟩⟩
    · rw [h, clipScan_zero hest] at hscan
      cases hscan
      omega
    · rw [h] at hscan
      obtain ⟨hpos, hlen⟩ := Prod.mk.inj (Option.some.inj hscan)
      have hend := hrun.missing_le hmissing
      have hfrom := hle k
      simp only [runLoop] at hpos hlen
      omega
    · rw [h, clipScan] at hscan
      split at hscan
      · obtain ⟨hpos, hlen⟩ := Prod.mk.inj (Option.some.inj hscan)
        split at hlen <;> omega
      · cases hscan

end result

end MemStorage

end Libms
