import Mathlib
import Libms.Framework.Runs
import Libms.Framework.PartialMap
import Libms.Storage.ReadWrite
import Libms.Storage.Eviction

/-! # The storage refines a partial byte map

    What the memory storage is for: a map from offsets to bytes of which
    whole pieces are present or not.

    * `ByteCache`: the abstract cache. It remembers which pieces were
      written and not evicted since, and the last byte written at every
      offset, and has no blocks, buffers or sizes.
    * `Joint.step`: the storage and the abstract cache under the same
      operation. An eviction takes from the abstract cache the pieces whose
      buffer the call freed.
    * `Refines`: the simulation relation, kept by every admissible
      operation (`step_refines`).
    * `storage_refines_byte_cache`: the refinement over whole runs. -/

namespace Libms

open PartialMap

/-! ## The abstract cache -/

/-- A file of which some pieces are cached. -/
structure ByteCache where
  cached : Nat → Bool
  last : Nat → Option UInt8

namespace ByteCache

/-- Nothing written yet. -/
def empty : ByteCache := ⟨fun _ => false, fun _ => none⟩

/-- `bytes` written at `pos`: the pieces they touch are cached. -/
def write (c : ByteCache) (pos : Nat) (bytes : List UInt8) : ByteCache where
  cached i := c.cached i ||
    decide (pos < (i + 1) * msPieceUnitSize ∧ i * msPieceUnitSize < pos + bytes.length)
  last := overlay c.last pos bytes

/-- The pieces in `gone` evicted. -/
def evict (c : ByteCache) (gone : Nat → Bool) : ByteCache where
  cached i := c.cached i && !gone i
  last := c.last

/-- The number of leading offsets of `[pos, pos + len)` in a cached piece. -/
def readable (c : ByteCache) (pos len : Nat) : Nat :=
  leading (fun off => c.cached (off / msPieceUnitSize)) pos len

end ByteCache

/-! ## Operations on both -/

/-- The operations of the interface that change what is cached. -/
inductive StorageOp where
  | write (buf : List UInt8) (pos : Int)
  | clearBufferFor (pos : Int) (len : Nat) (holdPos : List Int)

/-- The storage beside its abstract cache, and for each write so far the
    length given and the count returned, `none` for a failed assert. -/
structure Joint where
  storage : MemStorage
  cache : ByteCache
  returned : List (Nat × Option Nat)

namespace Joint

/-- A storage nothing was written to. -/
def start (st : MemStorage) : Joint := ⟨st, ByteCache.empty, []⟩

/-- One operation on both sides. Offsets are exact integers. -/
def step (s : Joint) : StorageOp → Joint
  | .write buf pos =>
    match s.storage.storageWrite buf pos with
    | some (st, count) =>
      { storage := st
        cache := s.cache.write pos.toNat buf
        returned := s.returned ++ [(buf.length, some count)] }
    | none => { s with returned := s.returned ++ [(buf.length, none)] }
  | .clearBufferFor pos len holdPos =>
    let st := s.storage.clearBufferFor exactInt holdPos pos len
    { s with
      storage := st
      cache := s.cache.evict fun i => s.storage.cached i && !st.cached i }

/-- A write lies inside the file and meets the alignment asserts of
    `storage_write`; the arguments of `clear_buffer_for` are arbitrary. -/
def Admissible (F : Int) (s : Joint) : StorageOp → Prop
  | .write buf pos =>
    0 ≤ pos ∧ pos + buf.length ≤ F ∧ s.storage.WriteAligned pos buf.length
  | .clearBufferFor _ _ _ => True

end Joint

/-! ## The simulation relation -/

/-- The storage of a file of size `F` holds what the abstract cache says. -/
structure Refines (F : Int) (s : Joint) : Prop where
  filesize : s.storage.filesize = F
  estimateSize : s.storage.estimateSize = F
  filled : s.storage.Filled F
  cached : ∀ i, s.storage.cached i = s.cache.cached i
  last : ∀ off : Nat, (off : Int) < F → s.storage.cached (off / 16384) →
    s.storage.byteAt off = s.cache.last off
  returned : ∀ e ∈ s.returned, e.2 = some e.1

section refinement

variable {F : Int}

theorem start_refines {st : MemStorage} (hst : msMemStorageOpen.setFilesize F = some st) :
    Refines F (Joint.start st) := by
  obtain ⟨hfile, hest, _, hpiece⟩ := MemStorage.setFilesize_spec hst
  have hempty : ∀ i, (Joint.start st).storage.cached i = false := by
    intro i
    rw [MemStorage.not_cached_iff]
    exact hpiece i
  refine ⟨hfile, hest, ?_, hempty, ?_, ?_⟩
  · intro off _ hc
    rw [hempty] at hc
    cases hc
  · intro off _ hc
    rw [hempty] at hc
    cases hc
  · intro e he
    cases he

/-- **Step lemma, writes.** The write returns its length, and both sides
    change alike. -/
theorem write_refines {s : Joint} {buf : List UInt8} {pos : Int} (h : Refines F s)
    (hop : s.Admissible F (.write buf pos)) : Refines F (s.step (.write buf pos)) := by
  obtain ⟨hpos, hfits, haligned⟩ := hop
  obtain ⟨p, rfl⟩ := Int.eq_ofNat_of_zero_le hpos
  obtain ⟨st, hwrite, hwritten⟩ :=
    MemStorage.storageWrite_spec haligned (by rw [h.estimateSize]; exact hfits)
  obtain ⟨hstart, hend⟩ := MemStorage.writeAligned_iff.mp haligned
  rw [h.estimateSize] at hend
  have hborder : p % 16384 = 0 := by omega
  simp only [Joint.step, hwrite, Int.toNat_natCast]
  refine ⟨hwritten.filesize.trans h.filesize, hwritten.estimateSize.trans h.estimateSize,
    hwritten.filled hborder hend h.filled, ?_, ?_, ?_⟩
  · intro i
    rw [hwritten.cached, h.cached]
    simp only [ByteCache.write, msPieceUnitSize]
    congr 1
    -- a write starts at a border, so it touches a piece iff it covers its start
    have htouch : (p ≤ i * 16384 ∧ i * 16384 < p + buf.length) ↔
        (p < (i + 1) * 16384 ∧ i * 16384 < p + buf.length) := by omega
    simp only [htouch]
  · intro off hoff hc
    by_cases hin : p ≤ off ∧ off < p + buf.length
    · rw [hwritten.byteAt_inside hborder hin.1 hin.2]
      exact (overlay_inside hin.1 hin.2).symm
    · -- a piece that the write does not touch
      have hold : s.storage.cached (off / 16384) := by
        rw [hwritten.cached, Bool.or_eq_true, decide_eq_true_eq] at hc
        rcases hc with hold | hnew
        · exact hold
        · exfalso; omega
      rw [hwritten.byteAt_outside hborder (by omega) hold, h.last off hoff hold]
      exact (overlay_outside (by omega)).symm
  · intro e he
    rcases List.mem_append.mp he with hold | hnew
    · exact h.returned e hold
    · rw [List.mem_singleton.mp hnew]

/-- **Step lemma, eviction.** Only whole pieces go, and both sides lose the
    same ones. -/
theorem clear_refines {s : Joint} {pos : Int} {len : Nat} {holdPos : List Int}
    (h : Refines F s) : Refines F (s.step (.clearBufferFor pos len holdPos)) := by
  have hcleared := @MemStorage.clearBufferFor_spec exactInt holdPos s.storage pos len
  simp only [Joint.step]
  revert hcleared
  generalize s.storage.clearBufferFor exactInt holdPos pos len = st
  intro hcleared
  -- a piece cached after the call is the piece cached before it
  have hkept : ∀ i, st.cached i → st.pieceAt i = s.storage.pieceAt i := by
    intro i hc
    by_cases hgone : s.storage.Evicts exactInt holdPos len i
    · rw [MemStorage.cached, hcleared.freed i hgone] at hc
      cases hc
    · exact hcleared.kept i hgone
  have hbefore : ∀ i, st.cached i → s.storage.cached i := by
    intro i hc
    rw [MemStorage.cached, hkept i hc] at hc
    exact hc
  have hbyte : ∀ off, st.cached (off / 16384) → st.byteAt off = s.storage.byteAt off := by
    intro off hc
    simp only [MemStorage.byteAt, paged, hkept _ hc]
  refine ⟨hcleared.filesize.trans h.filesize, hcleared.estimateSize.trans h.estimateSize,
    ?_, ?_, ?_, h.returned⟩
  · intro off hoff hc
    rw [hbyte off hc]
    exact h.filled off hoff (hbefore _ hc)
  · intro i
    simp only [ByteCache.evict, ← h.cached]
    cases hc : st.cached i with
    | true => simp [hbefore i hc]
    | false => simp
  · intro off hoff hc
    rw [hbyte off hc]
    exact h.last off hoff (hbefore _ hc)

theorem step_refines (s : Joint) (op : StorageOp) (h : Refines F s) (hop : s.Admissible F op) :
    Refines F (s.step op) := by
  cases op with
  | write buf pos => exact write_refines h hop
  | clearBufferFor pos len holdPos => exact clear_refines h

/-- A read returns the cached prefix, each byte the last one written. -/
theorem read_refines {s : Joint} (h : Refines F s) (hF : 0 < F) {pos : Int} {len : Nat}
    (hpos : 0 ≤ pos) (hfits : pos + len ≤ F) :
    ∃ bytes, s.storage.storageRead pos len = some bytes ∧
      bytes.length = s.cache.readable pos.toNat len ∧
      ∀ i < bytes.length, (s.cache.last (pos.toNat + i)).isSome ∧
        bytes[i]? = some (s.cache.last (pos.toNat + i)) := by
  obtain ⟨p, rfl⟩ := Int.eq_ofNat_of_zero_le hpos
  simp only [Int.toNat_natCast]
  have hread := @MemStorage.storageRead_spec s.storage p len
    (by rw [h.estimateSize]; exact h.filled) (by rw [h.estimateSize]; exact hF)
    (by rw [h.estimateSize]; exact hfits)
  -- inside the file a byte is there iff its piece is cached
  have hcached : ∀ i, p ≤ i → i < p + len →
      (s.storage.byteAt i).isSome = s.cache.cached (i / 16384) := by
    intro i _ hi
    rw [h.filled.byteAt_isSome (by omega), h.cached]
  have hlen : (readRun s.storage.byteAt p len).length = s.cache.readable p len := by
    rw [readRun_length]
    exact leading_congr hcached
  refine ⟨_, hread, by rw [List.length_map, hlen], fun i hi => ?_⟩
  rw [List.length_map] at hi
  have hile : i < len := Nat.lt_of_lt_of_le hi readRun_length_le
  have hbyte := readRun_getElem? hi
  have hsome : (s.storage.byteAt (p + i)).isSome := by
    rw [← hbyte, List.getElem?_eq_getElem hi]
    rfl
  -- and the byte that is there is the last one written
  have hlast : s.storage.byteAt (p + i) = s.cache.last (p + i) :=
    h.last (p + i) (by omega) (MemStorage.cached_of_byteAt hsome)
  rw [← hlast]
  refine ⟨hsome, ?_⟩
  rw [List.getElem?_map, hbyte]
  obtain ⟨b, hb⟩ := Option.isSome_iff_exists.mp hsome
  rw [hb]
  rfl

end refinement

/-- **Refinement.** On a storage whose size was set to `F`, after any run of
    in-file aligned writes and of evictions with any arguments: every write
    returned its length, and a read inside the file returns the leading
    cached bytes of its range, each the last byte written there. -/
theorem storage_refines_byte_cache (F : Int) (hF : 0 < F) :
    ∃ st, msMemStorageOpen.setFilesize F = some st ∧
      ∀ ops, Runs.Along Joint.step (Joint.Admissible F) (Joint.start st) ops →
        let s := Runs.run Joint.step (Joint.start st) ops
        (∀ e ∈ s.returned, e.2 = some e.1) ∧
        ∀ (pos : Int) (len : Nat), 0 ≤ pos → pos + len ≤ F →
          ∃ bytes, s.storage.storageRead pos len = some bytes ∧
            bytes.length = s.cache.readable pos.toNat len ∧
            ∀ i < bytes.length, (s.cache.last (pos.toNat + i)).isSome ∧
              bytes[i]? = some (s.cache.last (pos.toNat + i)) := by
  obtain ⟨st, hst⟩ := MemStorage.setFilesize_open hF
  refine ⟨st, hst, fun ops hops => ?_⟩
  intro s
  have h : Refines F s :=
    Runs.run_invariant step_refines (start_refines hst) hops
  exact ⟨h.returned, fun pos len hpos hfits => read_refines h hF hpos hfits⟩

/-- A file of three bytes, written once and then put through an eviction. -/
theorem storage_refines_byte_cache_three :
    ∃ st, msMemStorageOpen.setFilesize 3 = some st ∧
      let s := Runs.run Joint.step (Joint.start st)
        [.write [7, 8, 9] 0, .clearBufferFor 0 16384 [0]]
      (∀ e ∈ s.returned, e.2 = some e.1) ∧
        ∀ (pos : Int) (len : Nat), 0 ≤ pos → pos + len ≤ 3 →
          ∃ bytes, s.storage.storageRead pos len = some bytes ∧
            bytes.length = s.cache.readable pos.toNat len ∧
            ∀ i < bytes.length, (s.cache.last (pos.toNat + i)).isSome ∧
              bytes[i]? = some (s.cache.last (pos.toNat + i)) := by
  obtain ⟨st, hst, hrun⟩ := storage_refines_byte_cache 3 (by decide)
  have hest : st.estimateSize = 3 := (MemStorage.setFilesize_spec hst).2.1
  refine ⟨st, hst, hrun _ ⟨⟨by decide, by decide, ?_⟩, trivial, trivial⟩⟩
  rw [MemStorage.writeAligned_iff]
  exact ⟨by decide, Or.inl hest.symm⟩

end Libms
