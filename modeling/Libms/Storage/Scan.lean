import Mathlib
import Libms.Framework.PartialMap
import Libms.Storage.CountedBytes

/-! # What `cached_from` finds

    The scan goes over the pieces of the file from the one its start lies
    in. This module says what it has found when it comes to a piece, and
    compares what it returns with the cached bytes of the file and with
    `storage_read`.

    * `Scanned`: the loop invariant, with pieces counted over the whole file.
    * `cachedFrom_cases`: nothing found, or the first run of cached pieces.
    * `ScanAgrees`: the scan finds the first run of cached bytes of the file,
      and a read at its start gets this run.
    * `scanAgrees_iff`: when it does. A storage that was shrunk may have
      pieces behind the end of the file, and the scan finds these too. -/

namespace Libms

open PartialMap Runs

namespace MemStorage

/-- The offset that the scan forms for piece `i` of the file. -/
def pieceFrom (w : IntArith) (i : Nat) : Int := pieceStart w (i / 128) (i % 128)

theorem pieceFrom_exact (i : Nat) : pieceFrom exactInt i = i * 16384 := by
  simp only [pieceFrom, pieceStart, blockStart, exactInt, msBlockUnitSize, msPieceUnitSize]
  omega

/-- The scan from `start` has found the pieces from `k` up to `i`. -/
def runLoop (w : IntArith) (start : Int) (k i : Nat) : ScanLoop where
  pos := max start (pieceFrom w k)
  len := pieceFrom w k + ((i : Int) - k) * 16384 - max start (pieceFrom w k)
  findFirst := true

/-- **Loop invariant.** The scan that comes to piece `i` has found no piece
    yet, or all pieces from the first one it found on. -/
inductive Scanned (w : IntArith) (st : MemStorage) (start i : Nat) : ScanLoop → Prop
  | searching : (∀ j, start / 16384 ≤ j → j < i → st.cached j = false) →
      Scanned w st start i ⟨0, 0, false⟩
  | running (k : Nat) : start / 16384 ≤ k → k < i →
      (∀ j, start / 16384 ≤ j → j < k → st.cached j = false) →
      (∀ j, k ≤ j → j < i → st.cached j = true) → Scanned w st start i (runLoop w start k i)

/-- The pieces from `k` up to `i` are the first run of cached pieces that
    the scan from `start` comes to. -/
structure FirstPieces (st : MemStorage) (start k i : Nat) : Prop where
  first : start / 16384 ≤ k
  more : k < i
  before : ∀ j, start / 16384 ≤ j → j < k → st.cached j = false
  all : ∀ j, k ≤ j → j < i → st.cached j = true
  stop : st.cached i = false

section scan

variable {w : IntArith} {st : MemStorage} {start i : Nat} {l : ScanLoop}

/-- Nothing is cached behind the table. -/
theorem cached_lt_blocks (h : st.cached i = true) : i / 128 < st.blocks.length := by
  simp only [cached, pieceAt, msPieceNumOfPerBlock] at h
  split at h
  · rename_i block hblock
    exact (List.getElem?_eq_some_iff.mp hblock).1
  · cases h

/-! ## One piece -/

/-- A cached piece starts the run, or makes it longer. -/
theorem Scanned.piece (h : Scanned w st start i l) (hfirst : start / 16384 ≤ i)
    (hcached : st.cached i = true) :
    Scanned w st start (i + 1) (scanPiece w start (i / 128) (i % 128) l) := by
  cases h with
  | searching hnone =>
    have hloop : scanPiece w start (i / 128) (i % 128) ⟨0, 0, false⟩ =
        runLoop w start i (i + 1) := by
      have hfrom : pieceStart w (i / 128) (i % 128) = pieceFrom w i := rfl
      simp only [scanPiece, hfrom, Bool.false_eq_true, if_false, msPieceUnitSize, runLoop]
      push_cast
      -- the scan may start inside the piece
      split
      · rename_i hinside
        rw [max_eq_left hinside.le]
        congr 1
        omega
      · rename_i hbehind
        rw [max_eq_right (Int.not_lt.mp hbehind)]
        congr 1
        omega
    rw [hloop]
    refine .running i hfirst (Nat.lt_succ_self i) hnone fun j hj hlt => ?_
    rwa [show j = i by omega]
  | running k hk hki hbefore hall =>
    have hloop : scanPiece w start (i / 128) (i % 128) (runLoop w start k i) =
        runLoop w start k (i + 1) := by
      simp only [scanPiece, runLoop, if_true, msPieceUnitSize]
      push_cast
      congr 1
      ring
    rw [hloop]
    refine .running k hk (by omega) hbefore fun j hj hlt => ?_
    rcases Nat.lt_succ_iff_lt_or_eq.mp hlt with hlt | rfl
    · exact hall j hj hlt
    · exact hcached

/-- Empty pieces are passed over while nothing is found. -/
theorem Scanned.skip {i' : Nat} (h : Scanned w st start i l) (hsearch : l.findFirst = false)
    (hempty : ∀ j, start / 16384 ≤ j → i ≤ j → j < i' → st.cached j = false) :
    Scanned w st start i' l := by
  cases h with
  | searching hnone =>
    refine .searching fun j hj hlt => ?_
    rcases Nat.lt_or_ge j i with hlt' | hge
    · exact hnone j hj hlt'
    · exact hempty j hj hge hlt
  | running k _ _ _ _ => cases hsearch

/-! ## The loops -/

/-- The loop over the pieces of a block goes on to the next block, or
    returns at the piece that ends the run. -/
theorem scanPieces_spec {block : Block} {ib : Nat} (n ip : Nat)
    (hblock : st.blocks[ib]? = some (some block)) (hip : ip + n = 128)
    (hfirst : start / 16384 ≤ ib * 128 + ip) (h : Scanned w st start (ib * 128 + ip) l) :
    (∃ l', scanPieces w start block ib n ip l = .inl l' ∧
        Scanned w st start ((ib + 1) * 128) l') ∨
      ∃ l' i, scanPieces w start block ib n ip l = .inr l' ∧ Scanned w st start i l' ∧
        l'.findFirst = true ∧ st.cached i = false ∧ i / 128 = ib := by
  induction n generalizing ip l with
  | zero =>
    refine Or.inl ⟨l, rfl, ?_⟩
    rwa [show (ib + 1) * 128 = ib * 128 + ip by omega]
  | succ n ih =>
    have hpiece : st.pieceAt (ib * 128 + ip) = block.buf ip := by
      rw [pieceAt_of_block hblock (by omega), show (ib * 128 + ip) % 128 = ip by omega]
    rw [scanPieces]
    cases hbuf : block.buf ip with
    | none =>
      have hempty : st.cached (ib * 128 + ip) = false := by
        rw [not_cached_iff, hpiece, hbuf]
      cases hfound : l.findFirst with
      | true => exact Or.inr ⟨l, _, rfl, h, hfound, hempty, by omega⟩
      | false =>
        refine ih (ip + 1) (by omega) (by omega) (h.skip hfound fun j _ hge hlt => ?_)
        rwa [show j = ib * 128 + ip by omega]
    | some buf =>
      have hcached : st.cached (ib * 128 + ip) = true := by
        rw [cached, hpiece, hbuf]
        rfl
      have hnext := h.piece hfirst hcached
      rw [show (ib * 128 + ip) / 128 = ib by omega, show (ib * 128 + ip) % 128 = ip by omega]
        at hnext
      exact ih (ip + 1) (by omega) (by omega) hnext

/-- What the scan returns: zeros, or the run it found cut at the estimated
    size. -/
def Found (w : IntArith) (st : MemStorage) (start : Nat) (r : Option (Int × Int)) : Prop :=
  ((∀ j, start / 16384 ≤ j → st.cached j = false) ∧ r = clipScan st.estimateSize ⟨0, 0, false⟩) ∨
    ∃ k i, st.FirstPieces start k i ∧ r = clipScan st.estimateSize (runLoop w start k i)

/-- A run that ends at an empty piece is what is found. -/
theorem Scanned.found (h : Scanned w st start i l) (hfound : l.findFirst = true)
    (hstop : st.cached i = false) : Found w st start (clipScan st.estimateSize l) := by
  cases h with
  | searching _ => cases hfound
  | running k hk hki hbefore hall => exact Or.inr ⟨k, i, ⟨hk, hki, hbefore, hall, hstop⟩, rfl⟩

/-- The scan comes to the end of what is cached. -/
theorem Scanned.ends (h : Scanned w st start i l) (hnone : ∀ j, i ≤ j → st.cached j = false) :
    Found w st start (clipScan st.estimateSize l) := by
  cases hfound : l.findFirst with
  | true => exact h.found hfound (hnone i (Nat.le_refl _))
  | false =>
    left
    cases h with
    | running _ _ _ _ _ => cases hfound
    | searching hbefore =>
      refine ⟨fun j hj => ?_, rfl⟩
      rcases Nat.lt_or_ge j i with hlt | hge
      · exact hbefore j hj hlt
      · exact hnone j hge

/-- A run that has begun ends at a missing block of the table, where it is not
    longer than the file. -/
theorem Scanned.found_null (hle : ∀ i, pieceFrom w i ≤ i * 16384) (h : Scanned w st start i l)
    (hfound : l.findFirst = true) (hstop : st.cached i = false)
    (hin : (i * 16384 : Int) ≤ st.estimateSize) :
    Found w st start
      (if l.pos + l.len ≤ st.estimateSize then some (l.pos, l.len) else none) := by
  have hcut : (if l.pos + l.len ≤ st.estimateSize then some (l.pos, l.len) else none) =
      clipScan st.estimateSize l := by
    cases h with
    | searching _ => cases hfound
    | running k hk hki _ _ =>
      have hend := hle k
      have hsum : (runLoop w start k i).pos + (runLoop w start k i).len ≤ st.estimateSize := by
        simp only [runLoop]
        omega
      have hpos : (runLoop w start k i).pos ≤ st.estimateSize := by
        simp only [runLoop]
        omega
      rw [clipScan, if_pos hsum, if_pos hpos, if_neg (Int.not_lt.mpr hsum)]
  rw [hcut]
  exact h.found hfound hstop

/-- The scan over the rest of the table. -/
theorem scanBlocks_spec (hle : ∀ i, pieceFrom w i ≤ i * 16384) (n ib : Nat) {l : ScanLoop}
    (htable : ib + n = st.blocks.length) (hib : start / 2097152 ≤ ib)
    (h : Scanned w st start (max (ib * 128) (start / 16384)) l) :
    Found w st start (st.scanBlocks w start n ib l) := by
  induction n generalizing ib l with
  | zero =>
    -- behind the table nothing is cached
    apply h.ends
    intro j hj
    by_contra hcached
    have := cached_lt_blocks (Bool.eq_true_of_not_eq_false hcached)
    omega
  | succ n ih =>
    have hget : st.blocks[ib]? = some st.blocks[ib] := List.getElem?_eq_getElem (by omega)
    have hnext : max ((ib + 1) * 128) (start / 16384) = (ib + 1) * 128 := by omega
    cases hb : st.blocks[ib] with
    | some block =>
      rw [hb] at hget
      simp only [scanBlocks, hget, Int.toNat_natCast, msPieceNumOfPerBlock]
      -- only the block of the start is not scanned from its first piece on
      have hip : ib * 128 + (if ib > blockIndex start then 0 else pieceIndex start) =
          max (ib * 128) (start / 16384) := by
        rw [blockIndex_eq, pieceIndex_eq]
        split <;> omega
      generalize (if ib > blockIndex start then 0 else pieceIndex start) = ip at hip ⊢
      rw [← hip] at h
      rcases scanPieces_spec (128 - ip) ip hget (by omega) (by omega) h with
        ⟨l', hl', hscan⟩ | ⟨l', i, hl', hscan, hfound, hstop, -⟩
      · rw [hl']
        apply ih (ib + 1) (by omega) (by omega)
        rwa [hnext]
      · rw [hl']
        exact hscan.found hfound hstop
    | none =>
      rw [hb] at hget
      have hnull : ∀ j, j / 128 = ib → st.cached j = false := by
        intro j hj
        rw [not_cached_iff]
        exact pieceAt_of_null hget hj
      simp only [scanBlocks, hget]
      cases hfound : l.findFirst with
      | false =>
        simp only [Bool.false_eq_true, if_false]
        apply ih (ib + 1) (by omega) (by omega)
        rw [hnext]
        exact h.skip hfound fun j _ hge hlt => hnull j (by omega)
      | true =>
        -- the run came here from the block before, and this one is in the table
        have hbegun : max (ib * 128) (start / 16384) = ib * 128 := by
          cases h with
          | searching _ => cases hfound
          | running k hk hki _ _ => omega
        rw [hbegun] at h
        rw [if_pos rfl]
        apply h.found_null hle hfound (hnull _ (by omega))
        have hsized := st.sized
        rw [blockNum_eq] at hsized
        push_cast
        omega

/-- **`cached_from`.** The scan finds nothing, or the first run of cached
    pieces from its start on. -/
theorem cachedFrom_cases (hle : ∀ i, pieceFrom w i ≤ i * 16384) (hest : 0 < st.estimateSize)
    (hstart : (start : Int) ≤ st.estimateSize) : Found w st start (st.cachedFrom w start) := by
  have hsized := st.sized
  have hcover := st.estimateSize_le_blocks
  have hindex := blockIndex_eq start
  simp only [cachedFrom, if_neg hest.ne', Int.toNat_natCast]
  apply scanBlocks_spec hle
  · omega
  · omega
  · exact .searching fun j hj hlt => by omega

/-- There is one first run. -/
theorem FirstPieces.unique {k k' i i' : Nat} (h : st.FirstPieces start k i)
    (h' : st.FirstPieces start k' i') : k = k' ∧ i = i' := by
  -- no piece is both cached and not
  have hexcl : ∀ {j}, st.cached j = true → st.cached j = false → False := by
    intro j hyes hno
    rw [hyes] at hno
    cases hno
  have hk : k = k' := by
    rcases Nat.lt_trichotomy k k' with hlt | heq | hgt
    · exact (hexcl (h.all k (Nat.le_refl _) h.more) (h'.before k h.first hlt)).elim
    · exact heq
    · exact (hexcl (h'.all k' (Nat.le_refl _) h'.more) (h.before k' h'.first hgt)).elim
  subst hk
  refine ⟨rfl, ?_⟩
  have hmore := h.more
  have hmore' := h'.more
  rcases Nat.lt_trichotomy i i' with hlt | heq | hgt
  · exact (hexcl (h'.all i (by omega) hlt) h.stop).elim
  · exact heq
  · exact (hexcl (h.all i' (by omega) hgt) h'.stop).elim

/-- The scan of a storage with a first run. -/
theorem FirstPieces.cachedFrom {k : Nat} (h : st.FirstPieces start k i)
    (hle : ∀ i, pieceFrom w i ≤ i * 16384) (hest : 0 < st.estimateSize)
    (hstart : (start : Int) ≤ st.estimateSize) :
    st.cachedFrom w start = clipScan st.estimateSize (runLoop w start k i) := by
  rcases cachedFrom_cases hle hest hstart with ⟨hnone, -⟩ | ⟨k', i', hrun, hscan⟩
  · have hcached := h.all k (Nat.le_refl _) h.more
    rw [hnone k h.first] at hcached
    cases hcached
  · obtain ⟨rfl, rfl⟩ := h.unique hrun
    exact hscan

end scan

/-! ## Bytes -/

/-- An offset in a cached piece. -/
def cachedByte (st : MemStorage) (off : Nat) : Bool := st.cached (off / 16384)

/-- `(pos, len)` is the first run of cached bytes of the file from `start`
    on, or zero if there is none. -/
def FirstRun (st : MemStorage) (start : Nat) (r : Int × Int) : Prop :=
  (∃ pos : Nat, start ≤ pos ∧ (pos : Int) < st.filesize ∧ st.cachedByte pos = true ∧
      (∀ off, start ≤ off → off < pos → st.cachedByte off = false) ∧
      r = ((pos : Int), (leading st.cachedByte pos (st.filesize - pos).toNat : Int))) ∨
    (∀ off : Nat, start ≤ off → (off : Int) < st.filesize → st.cachedByte off = false) ∧ r = (0, 0)

/-- `cached_from` fails no assert and returns the first run, and a read from
    `start` on gets as much of it as it asks for. -/
def ScanAgrees (st : MemStorage) (start : Nat) : Prop :=
  ∃ pos len, st.cachedFrom exactInt start = some (pos, len) ∧ st.FirstRun start (pos, len) ∧
    ∀ n : Nat, (start : Int) + n ≤ st.filesize → ∃ bytes, st.storageRead start n = some bytes ∧
      (bytes.length : Int) = if pos = start ∧ 0 < len then min (n : Int) len else 0

section bytes

variable {st : MemStorage} {start : Nat}

/-- The bytes of a run of pieces, from an offset in its first piece on. -/
theorem FirstPieces.leading_eq {k i pos : Nat} (h : st.FirstPieces start k i)
    (hpos : k * 16384 ≤ pos) (hin : pos ≤ i * 16384) (n : Nat) :
    leading st.cachedByte pos n = min n (i * 16384 - pos) := by
  apply leading_eq_min
  · intro off hge hlt
    exact h.all (off / 16384) (by omega) (by omega)
  · have hstop := h.stop
    rwa [cachedByte, show (pos + (i * 16384 - pos)) / 16384 = i by omega]

/-- The first byte of a run of pieces is cached, and none before it is. -/
theorem FirstPieces.first_byte {k i : Nat} (h : st.FirstPieces start k i) :
    st.cachedByte (max start (k * 16384)) = true ∧
      ∀ off, start ≤ off → off < max start (k * 16384) → st.cachedByte off = false := by
  have hfirst := h.first
  have hmore := h.more
  constructor
  · exact h.all _ (by omega) (by omega)
  · intro off hge hlt
    exact h.before _ (by omega) (by omega)

/-- What the scan returns for a run of pieces: it fails its assert where the
    run starts behind the end of the file. -/
theorem FirstPieces.clip {k i : Nat} (h : st.FirstPieces start k i) (hknown : 0 < st.filesize) :
    clipScan st.estimateSize (runLoop exactInt start k i) =
      if ((max start (k * 16384) : Nat) : Int) ≤ st.filesize then
        some (((max start (k * 16384) : Nat) : Int),
          (leading st.cachedByte (max start (k * 16384))
            (st.filesize - (max start (k * 16384) : Nat)).toNat : Int))
      else none := by
  have hest := st.known hknown
  have hfirst := h.first
  have hmore := h.more
  have hat : (runLoop exactInt start k i).pos = ((max start (k * 16384) : Nat) : Int) := by
    simp only [runLoop, pieceFrom_exact]
    push_cast
    rfl
  have hend : (runLoop exactInt start k i).pos + (runLoop exactInt start k i).len =
      i * 16384 := by
    simp only [runLoop, pieceFrom_exact]
    ring
  rw [h.leading_eq (by omega) (by omega), clipScan, hest]
  generalize hpos : max start (k * 16384) = pos at hat ⊢
  rw [hat] at hend ⊢
  split
  · -- the run is cut where the file ends
    congr 2
    split <;> omega
  · rfl

/-- The scan finds no run, unless one starts behind the end of the file. -/
theorem ScanAgrees.found (h : st.ScanAgrees start) (hstart : (start : Int) < st.filesize) :
    (∃ off : Nat, start ≤ off ∧ (off : Int) < st.filesize ∧ st.cachedByte off = true) ∨
      ∀ i, st.cached i = true → (i * 16384 : Int) < st.filesize := by
  have hest := st.known (by omega)
  obtain ⟨p, len, hp, hbytes, -⟩ := h
  rcases hbytes with ⟨off, h₁, h₂, h₃, -⟩ | ⟨hnone, hzero⟩
  · exact Or.inl ⟨off, h₁, h₂, h₃⟩
  · right
    intro i hi
    by_contra hbehind
    rcases @cachedFrom_cases exactInt st start (fun i => (pieceFrom_exact i).le) (by omega)
      (by omega) with ⟨hall, -⟩ | ⟨k, j, hrun, hr⟩
    · rw [hall i (by omega)] at hi
      cases hi
    · -- the zeros that are returned would be the position of a cached byte
      obtain ⟨hcached, -⟩ := hrun.first_byte
      rw [hrun.clip (by omega), hp, hzero] at hr
      split at hr
      · have hpos := (Prod.mk.inj (Option.some.inj hr)).1
        rw [hnone _ (by omega) (by omega)] at hcached
        cases hcached
      · cases hr

theorem scanAgrees_of_found (hstart : (start : Int) < st.filesize)
    (hwhen : (∃ off : Nat, start ≤ off ∧ (off : Int) < st.filesize ∧ st.cachedByte off = true) ∨
      ∀ i, st.cached i = true → (i * 16384 : Int) < st.filesize) : st.ScanAgrees start := by
  have hest := st.known (by omega)
  have hread : ∀ n : Nat, (start : Int) + n ≤ st.filesize → ∃ bytes,
      st.storageRead start n = some bytes ∧ bytes.length = leading st.cachedByte start n := by
    intro n hn
    exact storageRead_length (by omega) (by omega)
  rcases @cachedFrom_cases exactInt st start (fun i => (pieceFrom_exact i).le) (by omega)
    (by omega) with ⟨hnone, hr⟩ | ⟨k, i, hrun, hr⟩
  · -- nothing is cached from the start on
    have hempty : ∀ off, start ≤ off → st.cachedByte off = false :=
      fun off hoff => hnone (off / 16384) (by omega)
    have hzero : clipScan st.estimateSize ⟨0, 0, false⟩ = some (0, 0) := by
      rw [clipScan, if_pos (by dsimp only; omega), if_neg (by dsimp only; omega)]
    refine ⟨0, 0, by rw [hr, hzero], Or.inr ⟨fun off hoff _ => hempty off hoff, rfl⟩, ?_⟩
    intro n hn
    obtain ⟨bytes, hbytes, hlength⟩ := hread n hn
    refine ⟨bytes, hbytes, ?_⟩
    rw [hlength, leading_eq_zero (hempty start (Nat.le_refl _)), if_neg (by omega)]
    rfl
  · have hmore := hrun.more
    have hfirst := hrun.first
    obtain ⟨hcached, hbefore⟩ := hrun.first_byte
    have hleading := fun pos hpos hin n => @FirstPieces.leading_eq st start k i pos hrun hpos hin n
    rw [hrun.clip (by omega)] at hr
    have hplace : k * 16384 ≤ max start (k * 16384) ∧ start ≤ max start (k * 16384) ∧
        max start (k * 16384) < i * 16384 ∧
          (max start (k * 16384) = start ∨ max start (k * 16384) = k * 16384) := by omega
    generalize max start (k * 16384) = pos at hcached hbefore hr hplace
    obtain ⟨hkpos, hspos, hposi, hor⟩ := hplace
    have hin : (pos : Int) < st.filesize := by
      rcases hwhen with ⟨off, h₁, h₂, h₃⟩ | hall
      · -- the first cached byte is not behind any other
        by_contra hbehind
        rw [hbefore off h₁ (by omega)] at h₃
        cases h₃
      · have := hall k (hrun.all k (Nat.le_refl _) hmore)
        omega
    rw [if_pos hin.le] at hr
    refine ⟨_, _, hr, Or.inl ⟨pos, hspos, hin, hcached, hbefore, rfl⟩, ?_⟩
    intro n hn
    obtain ⟨bytes, hbytes, hlength⟩ := hread n hn
    refine ⟨bytes, hbytes, ?_⟩
    rw [hlength, hleading pos hkpos hposi.le]
    -- the run starts at `start`, or a read there gets nothing
    by_cases hhere : pos = start
    · rw [← hhere, hleading pos hkpos hposi.le, if_pos ⟨rfl, by omega⟩]
      omega
    · rw [leading_eq_zero (hbefore start (Nat.le_refl _) (by omega)), if_neg (by omega)]
      rfl

/-- On a storage whose size was set once, written inside the file and put
    through evictions, the scan always agrees. -/
theorem scanAgrees_inFile {F : Int} (hF : 0 < F) {st : MemStorage} {calls : List StorageCall}
    (hst : msMemStorageOpen.setFilesize F = some st) (hcalls : Along step (InFile F) st calls)
    {start : Nat} (hstart : (start : Int) < F) : (run step st calls).ScanAgrees start := by
  have h := countsCached_run hF hst hcalls
  exact scanAgrees_of_found (by rw [h.filesize]; exact hstart) (Or.inr h.inside)

/-- **The scan.** On a storage of known size `cached_from` finds the first
    run of cached bytes of the file, and agrees with `storage_read`, iff
    there is such a run or no cached piece starts at or behind the end of
    the file. -/
theorem scanAgrees_iff (st : MemStorage) (start : Nat) (hstart : (start : Int) < st.filesize) :
    st.ScanAgrees start ↔
      (∃ off : Nat, start ≤ off ∧ (off : Int) < st.filesize ∧ st.cachedByte off = true) ∨
        ∀ i, st.cached i = true → (i * 16384 : Int) < st.filesize :=
  ⟨fun h => h.found hstart, scanAgrees_of_found hstart⟩

end bytes

/-- A file of 20000 bytes. Its second piece is cached. -/
def secondPiece : MemStorage where
  filesize := 20000
  estimateSize := 20000
  completedSize := 3616
  blocks := [some ⟨fun ip => if ip = 1 then some msMallocPieceBuf else none⟩]
  sized := by decide
  known := fun _ => rfl

/-- A scan of it from the middle of the first piece. -/
theorem scanAgrees_iff_second : secondPiece.cached 1 = true ∧
    ((5 : Nat) : Int) < secondPiece.filesize ∧
    (secondPiece.ScanAgrees 5 ↔
      (∃ off : Nat, 5 ≤ off ∧ (off : Int) < secondPiece.filesize ∧
        secondPiece.cachedByte off = true) ∨
        ∀ i, secondPiece.cached i = true → (i * 16384 : Int) < secondPiece.filesize) :=
  ⟨by decide, by decide, scanAgrees_iff secondPiece 5 (by decide)⟩

/-- Two pieces were announced and the second one written, and then the file
    turned out to have ten bytes. The scan finds a piece behind its end. -/
theorem scanAgrees_shrunk :
    ∃ st : MemStorage, st.Reachable ∧ st.filesize = 10 ∧ st.cachedFrom exactInt 0 = none ∧
      ¬ st.ScanAgrees 0 := by
  obtain ⟨st₁, h₁⟩ := msMemStorageOpen.setContentSize_isSome 0 32768
  obtain ⟨hfile₁, hest₁, -, -⟩ := setContentSize_spec h₁
  have hest₁ : st₁.estimateSize = 32768 := hest₁
  obtain ⟨st₂, h₂, hwritten⟩ := @call_write st₁ (List.replicate 16384 0) 16384
    (by rw [writeAligned_iff, List.length_replicate]; exact ⟨by decide, Or.inr (by decide)⟩)
    (by rw [hest₁, List.length_replicate]; decide)
  have hfile₂ : st₂.filesize = 0 := hwritten.filesize.trans hfile₁
  obtain ⟨st₃, h₃⟩ := (@setFilesize_isSome_iff st₂ 10).mpr
    ⟨⟨by decide, by rw [hfile₂]; decide⟩, by rw [hwritten.estimateSize, hest₁]; decide⟩
  obtain ⟨hfile₃, hest₃, -, hpiece₃⟩ := setFilesize_spec h₃
  have hreach : st₃.Reachable :=
    ((reachable_open.call (c := .setContentSize 0 32768) h₁).call h₂).call
      (c := .setFilesize 10) h₃
  -- only the second piece is cached
  have hcached : ∀ i, st₃.cached i = decide (i = 1) := by
    intro i
    have hi : st₃.cached i = st₂.cached i := by rw [cached, hpiece₃, cached]
    rw [hi, hwritten.cached, List.length_replicate, cached, (setContentSize_spec h₁).2.2.2]
    have hempty : (msMemStorageOpen.pieceAt i).isSome = false := rfl
    rw [hempty, Bool.false_or, decide_eq_decide]
    omega
  have hnone : st₃.cachedFrom exactInt 0 = none := by
    have hscan := @cachedFrom_cases exactInt st₃ 0 (fun i => (pieceFrom_exact i).le)
      (by rw [hest₃]; decide) (by rw [hest₃]; decide)
    rcases hscan with ⟨hall, -⟩ | ⟨k, i, hrun, hr⟩
    · have hone := hall 1 (by decide)
      rw [hcached] at hone
      cases hone
    · have hk := hrun.all k (Nat.le_refl _) hrun.more
      rw [hcached, decide_eq_true_eq] at hk
      subst hk
      rw [hrun.clip (by rw [hfile₃]; decide), hfile₃] at hr
      exact hr
  refine ⟨st₃, hreach, hfile₃, hnone, ?_⟩
  rintro ⟨pos, len, hp, -⟩
  cases hnone.symm.trans hp

end MemStorage

end Libms
