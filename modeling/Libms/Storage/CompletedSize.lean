import Mathlib
import Libms.Storage.Eviction
import Libms.Storage.ReadWrite
import Libms.Storage.Windows

/-! # What `completed_size` counts

    `storage_write` adds to `completed_size` what it copies to a fresh piece
    buffer, and `clear_buffer_for` takes the length of a piece off when it
    frees one. This module compares the counter with the pieces in the
    table. Offsets are exact integers.

    * `cachedBytes`: the lengths of the cached pieces, block by block;
      `cachedBytes_eq_sum`: counted over the whole file.
    * `clearBufferFor_bytes`, `storageWrite_bytes`: the counter follows.
    * `Tallied`: the counter is at most that, and cached pieces start inside
      the file.
    * `clearBufferFor_tallied`, `storageWrite_tallied`: kept by both.
    * `clearBufferFor_outcome`: the three ways in which `clear_buffer_for`
      ends. -/

namespace Libms

open CInt

/-- A sum of which one term changes. -/
theorem sum_range_change {n i : Nat} (hi : i < n) {f g : Nat → Int} (h : ∀ j, j ≠ i → f j = g j) :
    ∑ j ∈ Finset.range n, f j = ∑ j ∈ Finset.range n, g j - g i + f i := by
  have hmem : i ∈ Finset.range n := Finset.mem_range.mpr hi
  have hrest : ∑ j ∈ (Finset.range n).erase i, f j = ∑ j ∈ (Finset.range n).erase i, g j :=
    Finset.sum_congr rfl fun j hj => h j (Finset.ne_of_mem_erase hj)
  have hf := Finset.add_sum_erase (Finset.range n) f hmem
  have hg := Finset.add_sum_erase (Finset.range n) g hmem
  omega

/-! ## Bytes of a block -/

namespace Block

variable (filesize : Int) (ib : Nat)

/-- The length of piece `ip` of block `ib`, zero if it is not cached. -/
def pieceBytes (b : Block) (ip : Nat) : Int :=
  if (b.buf ip).isSome then pieceLen exactInt filesize ib ip else 0

/-- The lengths of the cached pieces of block `ib`. -/
def bytes (b : Block) : Int := ∑ ip ∈ Finset.range 128, b.pieceBytes filesize ib ip

theorem bytes_of_empty {b : Block} (h : ∀ ip < 128, b.buf ip = none) : b.bytes filesize ib = 0 := by
  apply Finset.sum_eq_zero
  intro ip hip
  rw [pieceBytes, h ip (Finset.mem_range.mp hip)]
  rfl

/-- One buffer changes. -/
theorem bytes_setBuf (b : Block) {ip : Nat} (hip : ip < 128) (v : Option PieceBuf) :
    (b.setBuf ip v).bytes filesize ib = b.bytes filesize ib - b.pieceBytes filesize ib ip +
      if v.isSome then pieceLen exactInt filesize ib ip else 0 := by
  have hself : (b.setBuf ip v).pieceBytes filesize ib ip =
      if v.isSome then pieceLen exactInt filesize ib ip else 0 := by
    rw [pieceBytes, buf_setBuf_self b v hip]
  rw [bytes, bytes, ← hself]
  apply sum_range_change hip
  intro j hj
  rw [pieceBytes, pieceBytes, buf_setBuf_ne b v hj]

end Block

namespace MemStorage

/-- The bytes of a table entry. -/
def entryBytes (filesize : Int) (ib : Nat) : Option Block → Int
  | none => 0
  | some b => b.bytes filesize ib

/-- The lengths of the cached pieces. -/
def cachedBytes (st : MemStorage) : Int :=
  ∑ ib ∈ Finset.range st.blocks.length, entryBytes st.filesize ib st.blocks[ib]?.join

/-- The counter is at most what is cached, and no cached piece starts behind
    the end of the file. -/
structure Tallied (st : MemStorage) : Prop where
  counted : st.completedSize ≤ st.cachedBytes
  inFile : ∀ i, st.cached i → (i * 16384 : Int) ≤ st.filesize

section bytes

variable {st : MemStorage} {filesize : Int} {ib ip : Nat}

theorem entryBytes_getD (x : Option Block) :
    (x.getD mallocBlock).bytes filesize ib = entryBytes filesize ib x := by
  cases x with
  | none => exact Block.bytes_of_empty filesize ib fun ip _ => Block.buf_mallocBlock ip
  | some b => rfl

/-- One entry changes. -/
theorem cachedBytes_setBlock (hib : ib < st.blocks.length) (x : Option Block) :
    (st.setBlock ib x).cachedBytes =
      st.cachedBytes - entryBytes st.filesize ib st.blocks[ib]?.join +
        entryBytes st.filesize ib x := by
  have hself : (st.blocks.set ib x)[ib]?.join = x := by
    rw [List.getElem?_set_self hib]
    rfl
  have hchange := @sum_range_change st.blocks.length ib hib
    (fun j => entryBytes st.filesize j (st.blocks.set ib x)[j]?.join)
    (fun j => entryBytes st.filesize j st.blocks[j]?.join)
    (fun j hj => by rw [List.getElem?_set_ne (Ne.symm hj)])
  rw [hself] at hchange
  simp only [cachedBytes, setBlock_blocks, setBlock_filesize, List.length_set]
  exact hchange

theorem pieceLen_exact_eq : pieceLen exactInt filesize ib ip =
    min 16384 (filesize - (ib * 2097152 + ip * 16384)) := by
  have hstart : pieceStart exactInt ib ip = ib * 2097152 + ip * 16384 := rfl
  simp only [pieceLen, hstart, msPieceUnitSize]
  split
  · rename_i hcut
    rw [min_eq_right (by omega)]
  · rename_i hwhole
    rw [min_eq_left (by omega)]
    rfl

/-- The cached pieces of the table. -/
def cachedPieces (st : MemStorage) : Finset Nat :=
  {i ∈ Finset.range (st.blocks.length * 128) | st.cached i = true}

theorem mem_cachedPieces {i : Nat} : i ∈ st.cachedPieces ↔ st.cached i = true := by
  rw [cachedPieces, Finset.mem_filter, Finset.mem_range]
  refine ⟨fun h => h.2, fun h => ⟨?_, h⟩⟩
  -- a cached piece is in a block of the table
  simp only [cached, pieceAt, msPieceNumOfPerBlock] at h
  split at h
  · rename_i block hblock
    have hlen := (List.getElem?_eq_some_iff.mp hblock).1
    omega
  · cases h

/-- The lengths of the cached pieces, counted over the whole file. -/
theorem cachedBytes_eq_sum (st : MemStorage) :
    st.cachedBytes = ∑ i ∈ st.cachedPieces, min 16384 (st.filesize - i * 16384) := by
  have hentry : ∀ ib, entryBytes st.filesize ib st.blocks[ib]?.join =
      ∑ ip ∈ Finset.range 128, if st.cached (ib * 128 + ip) then
        min 16384 (st.filesize - (ib * 128 + ip : Nat) * 16384) else 0 := by
    intro ib
    cases hblock : st.blocks[ib]?.join with
    | none =>
      refine (Finset.sum_eq_zero fun ip hip => ?_).symm
      have hip := Finset.mem_range.mp hip
      have hcached : st.cached (ib * 128 + ip) = false := by
        simp only [cached, pieceAt, msPieceNumOfPerBlock, show (ib * 128 + ip) / 128 = ib by omega]
        rcases hget : st.blocks[ib]? with - | - | b
        · rfl
        · rfl
        · rw [hget] at hblock
          cases hblock
      rw [hcached]
      rfl
    | some b =>
      unfold entryBytes Block.bytes
      apply Finset.sum_congr rfl
      intro ip hip
      have hip := Finset.mem_range.mp hip
      have hpiece : st.pieceAt (ib * 128 + ip) = b.buf ip := by
        -- slot `ib * 128 + ip` of the file is entry `ip` of block `ib`
        have hget := Option.join_eq_some_iff.mp hblock
        rw [pieceAt_of_block hget (by omega), show (ib * 128 + ip) % 128 = ip by omega]
      have hstart : ((ib * 128 + ip : Nat) : Int) * 16384 = ib * 2097152 + ip * 16384 := by
        push_cast
        omega
      rw [Block.pieceBytes, cached, hpiece, pieceLen_exact_eq, hstart]
  have hrows : ∀ (f : Nat → Int) (m : Nat), ∑ i ∈ Finset.range (m * 128), f i =
      ∑ ib ∈ Finset.range m, ∑ ip ∈ Finset.range 128, f (ib * 128 + ip) := by
    intro f m
    induction m with
    | zero => simp
    | succ m ih => rw [Nat.succ_mul, Finset.sum_range_add, ih, Finset.sum_range_succ _ m]
  calc st.cachedBytes
      = ∑ ib ∈ Finset.range st.blocks.length, ∑ ip ∈ Finset.range 128,
          if st.cached (ib * 128 + ip) then
            min 16384 (st.filesize - (ib * 128 + ip : Nat) * 16384) else 0 :=
        Finset.sum_congr rfl fun ib _ => hentry ib
    _ = ∑ i ∈ Finset.range (st.blocks.length * 128),
          if st.cached i then min 16384 (st.filesize - i * 16384) else 0 :=
        (hrows (fun i => if st.cached i then min 16384 (st.filesize - i * 16384) else 0) _).symm
    _ = ∑ i ∈ st.cachedPieces, min 16384 (st.filesize - i * 16384) :=
        (Finset.sum_filter (fun i => st.cached i = true) _).symm

/-- A longer file makes no piece shorter. -/
theorem entryBytes_mono {filesize' : Int} (hle : filesize ≤ filesize') (x : Option Block) :
    entryBytes filesize ib x ≤ entryBytes filesize' ib x := by
  cases x with
  | none => exact Int.le_refl 0
  | some b =>
    unfold entryBytes Block.bytes
    apply Finset.sum_le_sum
    intro ip _
    unfold Block.pieceBytes
    split
    · rw [pieceLen_exact_eq, pieceLen_exact_eq]
      exact min_le_min_left _ (by omega)
    · exact Int.le_refl 0

/-- The table grows with the file, and the counter stays. -/
theorem Tallied.grow {st' : MemStorage} {n : Nat} (h : st.Tallied)
    (hblocks : st'.blocks = st.blocks ++ List.replicate n none)
    (hfile : st.filesize ≤ st'.filesize) (hcompleted : st'.completedSize = st.completedSize) :
    st'.Tallied := by
  -- the new entries are null, and have no bytes
  have hnew : ∀ j, entryBytes st'.filesize (st.blocks.length + j)
      st'.blocks[st.blocks.length + j]?.join = 0 := by
    intro j
    rw [hblocks, List.getElem?_append_right (by omega), List.getElem?_replicate]
    split <;> rfl
  have hold : ∀ ib ∈ Finset.range st.blocks.length,
      entryBytes st.filesize ib st.blocks[ib]?.join ≤
        entryBytes st'.filesize ib st'.blocks[ib]?.join := by
    intro ib hib
    rw [hblocks, List.getElem?_append_left (Finset.mem_range.mp hib)]
    exact entryBytes_mono hfile _
  have hbytes : st.cachedBytes ≤ st'.cachedBytes := by
    have hlength : st'.blocks.length = st.blocks.length + n := by simp [hblocks]
    unfold cachedBytes
    rw [hlength, Finset.sum_range_add]
    simp only [hnew, Finset.sum_const_zero, add_zero]
    exact Finset.sum_le_sum hold
  constructor
  · rw [hcompleted]
    exact h.counted.trans hbytes
  · intro i hi
    -- what is cached was cached before
    have hpiece : st.cached i = true := by
      unfold MemStorage.cached pieceAt at hi ⊢
      rw [hblocks] at hi
      rcases Nat.lt_or_ge (i / msPieceNumOfPerBlock) st.blocks.length with hin | hout
      · rwa [List.getElem?_append_left hin] at hi
      · rw [List.getElem?_append_right hout, List.getElem?_replicate] at hi
        split at hi
        · rename_i b hb
          split at hb <;> cases hb
        · cases hi
    exact (h.inFile i hpiece).trans hfile

theorem setFilesize_tallied {st' : MemStorage} (h : st.Tallied)
    (hst : st.setFilesize filesize = some st') :
    st'.Tallied ∧ st'.completedSize = st.completedSize := by
  unfold setFilesize at hst
  split at hst
  · rename_i hassert
    split at hst
    · cases hst
    · rename_i blocks hblocks
      cases hst
      obtain ⟨n, hn⟩ := reallocBlocks_append hblocks
      exact ⟨h.grow hn hassert.2 rfl, rfl⟩
  · cases hst

theorem setContentSize_tallied {st' : MemStorage} {pos size : Int} (h : st.Tallied)
    (hst : st.setContentSize pos size = some st') :
    st'.Tallied ∧ st'.completedSize = st.completedSize := by
  unfold setContentSize at hst
  split at hst
  · cases hst
    exact ⟨h, rfl⟩
  · split at hst
    · split at hst
      · cases hst
      · rename_i blocks hblocks
        cases hst
        obtain ⟨n, hn⟩ := reallocBlocks_append hblocks
        exact ⟨h.grow hn (Int.le_refl _) rfl, rfl⟩
    · cases hst
      exact ⟨h, rfl⟩

end bytes

/-! ## Eviction -/

section clear

variable {holdPos : List Int}

/-- Counter and table lose the same. -/
theorem clearPiece_bytes (filesize : Int) (ib : Nat) {ip : Nat} (hip : ip < 128) (l : ClearLoop) :
    (clearPiece exactInt holdPos filesize ib ip l).block.bytes filesize ib -
        (clearPiece exactInt holdPos filesize ib ip l).completedSize =
      l.block.bytes filesize ib - l.completedSize := by
  rcases @clearPiece_cases exactInt holdPos filesize ib ip l with
    ⟨_, h⟩ | ⟨_, _, h⟩ | ⟨hsome, _, h⟩
  · rw [h]
  · rw [h]
  · rw [h]
    -- a freed piece goes from the block and from the counter with the same length
    have hset := Block.bytes_setBuf filesize ib l.block hip none
    have hpiece : l.block.pieceBytes filesize ib ip = pieceLen exactInt filesize ib ip :=
      if_pos hsome
    rw [hpiece] at hset
    dsimp only
    rw [hset]
    simp only [Option.isSome_none, Bool.false_eq_true, if_false]
    omega

theorem clearPieces_bytes (filesize : Int) (ib n ip : Nat) (l : ClearLoop) (hip : ip + n ≤ 128) :
    (clearPieces exactInt holdPos filesize ib n ip l).block.bytes filesize ib -
        (clearPieces exactInt holdPos filesize ib n ip l).completedSize =
      l.block.bytes filesize ib - l.completedSize := by
  induction n generalizing ip l with
  | zero => rfl
  | succ n ih =>
    rw [clearPieces, ih (ip + 1) _ (by omega)]
    exact clearPiece_bytes filesize ib (by omega) l

theorem clearBlock_bytes {st : MemStorage} {ib : Nat} {block : Block} (releaseLen : Int)
    (hblock : st.blocks[ib]? = some (some block)) :
    (clearBlock exactInt holdPos ib block releaseLen st).1.cachedBytes -
        (clearBlock exactInt holdPos ib block releaseLen st).1.completedSize =
      st.cachedBytes - st.completedSize := by
  have hib : ib < st.blocks.length := (List.getElem?_eq_some_iff.mp hblock).1
  have hloop := @clearPieces_bytes holdPos st.filesize ib 128 0
    ⟨block, 0, 0, st.completedSize, releaseLen⟩ (by omega)
  have hcount := @clearPieces_counted exactInt holdPos st.filesize ib 128 0
    ⟨block, 0, 0, st.completedSize, releaseLen⟩ (by omega) ⟨Nat.le_refl 0, by simp⟩
  simp only [clearBlock, msPieceNumOfPerBlock, setCompleted_completedSize]
  revert hloop hcount
  generalize clearPieces exactInt holdPos st.filesize ib 128 0
    ⟨block, 0, 0, st.completedSize, releaseLen⟩ = l
  intro hloop hcount
  dsimp only at hloop
  -- a block that is freed has no pieces left
  have hleft : entryBytes st.filesize ib
      (if 0 < l.releaseCount ∧ l.releaseCount = l.bufCount then none else some l.block) =
        l.block.bytes st.filesize ib := by
    split
    · rename_i hfree
      exact (Block.bytes_of_empty st.filesize ib fun ip hip =>
        hcount.empty hfree.2 ip (by omega)).symm
    · rfl
  have hset := @cachedBytes_setBlock st ib hib
    (if 0 < l.releaseCount ∧ l.releaseCount = l.bufCount then none else some l.block)
  rw [hleft, hblock] at hset
  have hold : entryBytes st.filesize ib (some (some block)).join = block.bytes st.filesize ib := rfl
  rw [hold] at hset
  -- the counter is not part of the table
  have hcounter : ∀ (st' : MemStorage) (n : Int), (st'.setCompleted n).cachedBytes =
      st'.cachedBytes := fun _ _ => rfl
  rw [hcounter, hset]
  omega

theorem clearBlocks_bytes (n ib : Nat) (releaseLen : Int) (st : MemStorage) :
    (clearBlocks exactInt holdPos n ib releaseLen st).cachedBytes -
        (clearBlocks exactInt holdPos n ib releaseLen st).completedSize =
      st.cachedBytes - st.completedSize := by
  induction n generalizing ib releaseLen st with
  | zero => rfl
  | succ n ih =>
    rcases @clearBlocks_cases exactInt holdPos n ib releaseLen st with
      ⟨-, hpass⟩ | ⟨block, hblock, -, hstep⟩
    · rw [hpass]
      exact ih (ib + 1) releaseLen st
    · have hhere := @clearBlock_bytes holdPos st ib block releaseLen hblock
      rw [hstep]
      split
      · exact hhere
      · rw [ih]
        exact hhere

/-- **Eviction is counted.** The counter loses the lengths of the pieces that
    are freed. -/
theorem clearBufferFor_bytes (st : MemStorage) (pos : Int) (len : Nat) :
    (st.clearBufferFor exactInt holdPos pos len).cachedBytes -
        (st.clearBufferFor exactInt holdPos pos len).completedSize =
      st.cachedBytes - st.completedSize := by
  unfold clearBufferFor
  split
  · rfl
  · exact clearBlocks_bytes _ _ _ st

theorem clearBufferFor_tallied {st : MemStorage} (h : st.Tallied) (pos : Int) (len : Nat) :
    (st.clearBufferFor exactInt holdPos pos len).Tallied where
  counted := by
    have hcounted := h.counted
    have hbytes := @clearBufferFor_bytes holdPos st pos len
    omega
  inFile i hi := by
    rw [(clearBufferFor_spec st pos len).filesize]
    exact h.inFile i (clearBufferFor_subset hi)

/-- A block gives back between nothing and its size. -/
theorem Tallied.blockReleased_range {st : MemStorage} (h : st.Tallied) (ib : Nat) :
    0 ≤ st.blockReleased exactInt holdPos ib ∧
      st.blockReleased exactInt holdPos ib ≤ 2097152 := by
  unfold blockReleased
  split
  · rename_i block hblock
    split
    · exact ⟨Int.le_refl 0, by decide⟩
    · have hpiece : ∀ ip ∈ Finset.range 128,
          0 ≤ pieceReleased exactInt holdPos st.filesize ib block ip ∧
            pieceReleased exactInt holdPos st.filesize ib block ip ≤ 16384 := by
        intro ip hip
        have hip := Finset.mem_range.mp hip
        unfold pieceReleased
        split
        · rename_i hfree
          have hcached : st.cached (ib * 128 + ip) = true := by
            have hpiece : st.pieceAt (ib * 128 + ip) = block.buf ((ib * 128 + ip) % 128) :=
              pieceAt_of_block hblock (by omega)
            rw [MemStorage.cached, hpiece, show (ib * 128 + ip) % 128 = ip by omega]
            exact (Bool.and_eq_true _ _ ▸ hfree).1
          -- a cached piece starts inside the file, so its length is not negative
          have hstart := h.inFile _ hcached
          rw [pieceLen_exact_eq]
          push_cast at hstart
          omega
        · exact ⟨Int.le_refl 0, by decide⟩
      constructor
      · exact Finset.sum_nonneg fun ip hip => (hpiece ip hip).1
      · calc ∑ ip ∈ Finset.range 128, pieceReleased exactInt holdPos st.filesize ib block ip
            ≤ ∑ _ip ∈ Finset.range 128, (16384 : Int) :=
              Finset.sum_le_sum fun ip hip => (hpiece ip hip).2
          _ = 2097152 := by simp
  · exact ⟨Int.le_refl 0, by decide⟩

/-- Where no block gives back more than the `int` holds, a walk that stops
    has given back as much as it was asked for. -/
theorem StopsAt.released {st : MemStorage} {start b : Nat} {releaseLen : Int}
    (h : st.StopsAt exactInt holdPos start releaseLen b) (hpos : 0 ≤ releaseLen)
    (hint : releaseLen < 2 ^ 31)
    (hbytes : ∀ ib, 0 ≤ st.blockReleased exactInt holdPos ib ∧
      st.blockReleased exactInt holdPos ib ≤ 2097152) :
    releaseLen ≤ ∑ b' ∈ Finset.Ico start (b + 1), st.blockReleased exactInt holdPos b' := by
  obtain ⟨hstart, hvisit, hreach, hstop⟩ := h
  -- up to the block it stops behind, the walk has something left to give back
  have hbefore : ∀ c, start ≤ c → c ≤ b →
      ∑ b' ∈ Finset.Ico start c, st.blockReleased exactInt holdPos b' ≤ releaseLen := by
    intro c hc
    induction c, hc using Nat.le_induction with
    | base =>
      intro _
      rw [Finset.Ico_self, Finset.sum_empty]
      exact hpos
    | succ c hc ih =>
      intro hlt
      have hrange := hbytes c
      have hsum := Finset.sum_Ico_succ_top hc fun b' => st.blockReleased exactInt holdPos b'
      have hle := ih (by omega)
      cases hvisits : st.visits exactInt holdPos c with
      | true =>
        have hmore := hreach c hc (by omega) hvisits
        rw [toInt32_of_range (by omega)
          (by have := Finset.sum_nonneg fun b' (_ : b' ∈ Finset.Ico start (c + 1)) => (hbytes b').1
              omega)] at hmore
        omega
      | false =>
        have hnothing := blockReleased_of_not_visits hvisits
        omega
  have hsum := Finset.sum_Ico_succ_top hstart fun b' => st.blockReleased exactInt holdPos b'
  have hle := hbefore b hstart (Nat.le_refl _)
  have hrange := hbytes b
  have hnonneg := Finset.sum_nonneg fun b' (_ : b' ∈ Finset.Ico start (b + 1)) => (hbytes b').1
  rw [toInt32_of_range (by omega) (by omega)] at hstop
  omega

/-- **How `clear_buffer_for` ends.** There was room; or it gave back as much
    as it was asked for; or all it left behind the head is held. -/
theorem clearBufferFor_outcome {st : MemStorage} (h : st.Tallied) (pos : Int) {len : Nat}
    (hlen : len < 2 ^ 31) :
    let st' := st.clearBufferFor exactInt holdPos pos len
    (st' = st ∧ st.completedSize + len ≤ holdSize holdPos.length) ∨
      st'.completedSize ≤ st.completedSize - len ∨
      ∀ i, st'.cached i → i < 128 ∨ heldPiece exactInt holdPos i = true := by
  intro st'
  have hlen64 : toInt64 len = len := toInt64_of_range (by omega) (by omega)
  have hlen32 : toInt32 len = len := toInt32_of_range (by omega) (by omega)
  have hends := @clearBufferFor_ends exactInt holdPos st pos len
  rw [hlen64, hlen32] at hends
  rcases hends with ⟨hroom, hsame⟩ | ⟨hover, ⟨b, -, hstop, hdone⟩ | hall⟩
  · exact Or.inl ⟨hsame, hroom⟩
  · right
    left
    have hreleased := hstop.released (by omega) (by omega) h.blockReleased_range
    rw [hdone]
    omega
  · right
    right
    intro i hcached
    -- else the walk would have freed the piece
    by_contra hnot
    obtain ⟨hbehind, hfree⟩ := not_or.mp hnot
    have hfree : heldPiece exactInt holdPos i = false := by simpa using hfree
    have hbefore : st.cached i = true := clearBufferFor_subset hcached
    obtain ⟨htable, hvisit⟩ := visits_of_cached hbefore hfree
    refine (clearBufferFor_cached hbefore).mp hcached
      ⟨by rw [hlen64]; exact hover, by omega, htable, hvisit, ?_, hfree⟩
    rw [hlen32]
    exact hall _ (by omega) htable

end clear

/-! ## Writing -/

section write

variable {buf : List UInt8} {pos : Nat}

/-- A write that lies in the file, and ends at a piece border or with it. -/
structure FitsFile (buf : List UInt8) (pos : Nat) (filesize : Int) : Prop where
  aligned : pos % 16384 = 0
  fits : (pos : Int) + buf.length ≤ filesize
  stop : (pos : Int) + buf.length = filesize ∨ buf.length % 16384 = 0

/-- What the inner loop adds to the counter is what it adds to the block, and
    was taken from the buffer. -/
theorem writePieces_bytes (filesize : Int) (ib n ip write : Nat) (block : Block)
    (completedSize : Int) (hip : ip + n ≤ 128) (hwrite : write ≤ buf.length)
    (hplace : write < buf.length → pos + write = ib * 2097152 + ip * 16384)
    (hfile : FitsFile buf pos filesize) :
    let r := writePieces buf n ip write block completedSize
    r.2.2 - completedSize = r.1.bytes filesize ib - block.bytes filesize ib ∧
      r.2.2 - completedSize ≤ (r.2.1 : Int) - write := by
  obtain ⟨haligned, hfits, hstop⟩ := hfile
  induction n generalizing ip write block completedSize with
  | zero => simp [writePieces]
  | succ n ih =>
    by_cases hmore : write < buf.length
    · have hstart := hplace hmore
      simp only [writePieces, if_pos hmore, msPieceUnitSize]
      generalize hwriteLen : min 16384 (buf.length - write) = writeLen
      obtain ⟨hblock, hbuffer⟩ := ih (ip + 1) (write + writeLen)
        (block.setBuf ip (some (copyPiece buf write (block.buf ip))))
        (if (block.buf ip).isNone then completedSize + writeLen else completedSize)
        (by omega) (by omega) (by omega)
      have hset := Block.bytes_setBuf filesize ib block (show ip < 128 by omega)
        (some (copyPiece buf write (block.buf ip)))
      simp only [Option.isSome_some, if_true] at hset
      -- the piece is as long as what is copied to it
      have hlen : pieceLen exactInt filesize ib ip = min 16384 (filesize - (pos + write)) := by
        rw [pieceLen_exact_eq]
        congr 2
        omega
      rw [hlen] at hset
      cases hbuf : block.buf ip with
      -- a new piece is counted with what is copied to it
      | none =>
        have hpiece : block.pieceBytes filesize ib ip = 0 := by simp [Block.pieceBytes, hbuf]
        rw [hpiece] at hset
        simp only [hbuf, Option.isNone_none, if_true] at hblock hbuffer hset ⊢
        omega
      -- an old one is in the table already, and is not counted
      | some old =>
        have hpiece : block.pieceBytes filesize ib ip = pieceLen exactInt filesize ib ip := by
          simp [Block.pieceBytes, hbuf]
        rw [hpiece, hlen] at hset
        simp only [hbuf, Option.isNone_some, Bool.false_eq_true, if_false] at hblock hbuffer hset ⊢
        omega
    · simp only [writePieces, if_neg hmore]
      omega

theorem writeBlock_bytes (st : MemStorage) {write ib : Nat} (hwrite : write < buf.length)
    (haligned : (pos + write) % 16384 = 0) (hib : (pos + write) / 2097152 = ib)
    (htable : ib < st.blocks.length) (hfile : FitsFile buf pos st.filesize) :
    let r := writeBlock buf pos ib write st
    r.1.completedSize - st.completedSize = r.1.cachedBytes - st.cachedBytes ∧
      r.1.completedSize - st.completedSize ≤ (r.2 : Int) - write := by
  simp only [writeBlock, msPieceNumOfPerBlock, setCompleted_completedSize]
  have hip := pieceIndex_eq (pos + write)
  generalize pieceIndex (pos + write) = ip at hip ⊢
  have hloop := @writePieces_bytes buf pos st.filesize ib (128 - ip) ip write
    ((st.blocks[ib]?.join).getD mallocBlock) st.completedSize (by omega) (by omega)
    (fun _ => by omega) hfile
  rw [entryBytes_getD] at hloop
  revert hloop
  generalize writePieces buf (128 - ip) ip write ((st.blocks[ib]?.join).getD mallocBlock)
    st.completedSize = r
  obtain ⟨block, done, completedSize⟩ := r
  rintro ⟨hblock, hbuffer⟩
  dsimp only at hblock hbuffer ⊢
  have hset := cachedBytes_setBlock htable (some block)
  have hcounter : ((st.setBlock ib (some block)).setCompleted completedSize).cachedBytes =
      (st.setBlock ib (some block)).cachedBytes := rfl
  have hentry : entryBytes st.filesize ib (some block) = block.bytes st.filesize ib := rfl
  rw [hcounter, hset, hentry]
  omega

theorem writeBlocks_bytes (n ib write : Nat) (st : MemStorage) (hwrite : write ≤ buf.length)
    (hplace : write < buf.length → (pos + write) % 16384 = 0 ∧ (pos + write) / 2097152 = ib)
    (htable : ib + n ≤ st.blocks.length) (hfile : FitsFile buf pos st.filesize) :
    let r := writeBlocks buf pos n ib write st
    r.1.completedSize - st.completedSize = r.1.cachedBytes - st.cachedBytes ∧
      r.1.completedSize - st.completedSize ≤ (buf.length : Int) - write := by
  induction n generalizing ib write st with
  | zero =>
    simp only [writeBlocks]
    omega
  | succ n ih =>
    unfold writeBlocks
    by_cases hmore : write < buf.length
    · rw [if_pos hmore]
      obtain ⟨halign, hib⟩ := hplace hmore
      have hhere := writeBlock_bytes st hmore halign hib (by omega) hfile
      have hspec := writeBlock_spec st halign hmore hib (by omega)
      revert hhere hspec
      obtain ⟨st', done⟩ := writeBlock buf pos ib write st
      intro hhere hspec
      obtain ⟨hcount, hblocks, hcopied⟩ := hspec
      dsimp only at hcount hblocks hcopied hhere ⊢
      have hrest := ih (ib + 1) done st' (by omega) (by intro; omega) (by omega)
        (by rw [hcopied.filesize]; exact hfile)
      dsimp only at hrest
      omega
    · rw [if_neg hmore]
      dsimp only
      omega

/-- **Writes are counted.** The counter gains the lengths of the pieces that
    are new, and at most the length of the data. -/
theorem storageWrite_bytes {st st' : MemStorage} {write : Nat}
    (haligned : st.WriteAligned pos buf.length) (hknown : 0 < st.filesize)
    (hfits : (pos : Int) + buf.length ≤ st.filesize)
    (hst : st.storageWrite buf pos = some (st', write)) :
    st'.completedSize - st.completedSize = st'.cachedBytes - st.cachedBytes ∧
      st'.completedSize - st.completedSize ≤ buf.length := by
  have hfile : FitsFile buf pos st.filesize := by
    obtain ⟨hpos, hstop⟩ := writeAligned_iff.mp haligned
    rw [st.known hknown] at hstop
    exact ⟨by omega, hfits, hstop⟩
  unfold storageWrite at hst
  rw [if_pos haligned] at hst
  split at hst
  · cases hst
    omega
  · split at hst
    · rename_i hin
      have hpos := (writeAligned_iff.mp haligned).1
      have hsized := st.sized
      have hindex := blockIndex_eq pos
      have htable : blockIndex pos < st.blocks.length := by simpa using hin.2
      have hloop := @writeBlocks_bytes buf pos (blockNum st.estimateSize - blockIndex pos)
        (blockIndex pos) 0 st (Nat.zero_le _) (fun _ => ⟨by omega, by omega⟩) (by omega) hfile
      have hst' : st' = (writeBlocks buf pos (blockNum st.estimateSize - blockIndex pos)
          (blockIndex pos) 0 st).1 := (congrArg Prod.fst (Option.some.inj hst)).symm
      rw [hst']
      simpa using hloop
    · cases hst

/-- A write inside the file keeps the counter below what is cached, and adds
    at most its length. -/
theorem storageWrite_tallied {st st' : MemStorage} {write : Nat} (h : st.Tallied)
    (hknown : 0 < st.filesize) (hfits : (pos : Int) + buf.length ≤ st.filesize)
    (hst : st.storageWrite buf pos = some (st', write)) :
    st'.Tallied ∧ st'.completedSize ≤ st.completedSize + buf.length := by
  have hest := st.known hknown
  have haligned : st.WriteAligned pos buf.length := by
    by_contra hnot
    unfold storageWrite at hst
    rw [if_neg hnot] at hst
    cases hst
  obtain ⟨st'', hst'', hwritten⟩ := storageWrite_spec haligned (by rw [hest]; exact hfits)
  have hbytes := storageWrite_bytes haligned hknown hfits hst
  rw [hst''] at hst
  cases hst
  refine ⟨⟨by have := h.counted; omega, fun i hi => ?_⟩, by omega⟩
  rw [hwritten.cached, Bool.or_eq_true, decide_eq_true_eq] at hi
  rw [hwritten.filesize]
  rcases hi with hold | hnew
  · exact h.inFile i hold
  · omega

end write

end MemStorage

end Libms
