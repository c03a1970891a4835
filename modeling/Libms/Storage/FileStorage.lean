import Mathlib
import Libms.Framework.PosixFile
import Libms.Storage.Refinement

/-! # The file storage

    `ms_file_storage.c`: the same interface as the memory storage, over a
    file. It has no table and asserts nothing; a write is one `pwrite` and a
    read one `pread`.

    * `FileStorage`: the file and the two sizes.
    * `Backends`: a memory storage and a file storage under the same writes.
    * `Agree`: both give back the bytes last written.
    * `backends_agree_iff`: the writes after which they do. The count and
      the offset of the `pwrite` stand in each other's place. -/

namespace Libms

open PartialMap PosixFile Runs

/-! ## The storage -/

/-- `struct ms_file_storage`; `file` is what `fd` refers to. -/
structure FileStorage where
  filesize : Int
  completedSize : Int
  file : List UInt8

/-- `ms_file_storage_open` on a path where there is such a file. -/
def msFileStorageOpen (file : List UInt8) : FileStorage := ⟨0, 0, file⟩

namespace FileStorage

/-- `set_filesize` -/
def setFilesize (st : FileStorage) (filesize : Int) : FileStorage :=
  { st with filesize := filesize }

/-- `storage_write`, with what it returns. `buf` is the memory from the
    caller's buffer on, which has `len` bytes. -/
def storageWrite (st : FileStorage) (buf : Nat → UInt8) (pos len : Nat) : FileStorage × Nat :=
  -- the source has `pos` where the count belongs, and `len` for the offset
  ({ st with file := pwrite st.file buf pos len }, pos)

/-- `storage_read` -/
def storageRead (st : FileStorage) (pos len : Nat) : List UInt8 := pread st.file len pos

end FileStorage

/-! ## Both under the same writes -/

/-- The place of a write. -/
structure WriteShape where
  pos : Nat
  len : Nat
  deriving DecidableEq

/-- A write: where, how much, and the memory from the buffer on. -/
structure WriteCall where
  shape : WriteShape
  mem : Nat → UInt8

/-- The buffer of a write. -/
def WriteCall.bytes (c : WriteCall) : List UInt8 := (List.range c.shape.len).map c.mem

/-- A write lies in the file and meets the asserts of the memory storage. -/
def WriteShape.InFile (F : Int) (s : WriteShape) : Prop :=
  (s.pos + s.len : Int) ≤ F ∧ s.pos % 16384 = 0 ∧ ((s.pos + s.len : Int) = F ∨ s.len % 16384 = 0)

/-- A memory storage, beside the bytes last written to it, and a file
    storage. -/
structure Backends where
  joint : Joint
  fileStorage : FileStorage

namespace Backends

/-- Both with their size set to `F`. -/
def start (F : Int) (st : MemStorage) (file : List UInt8) : Backends :=
  ⟨Joint.start st, (msFileStorageOpen file).setFilesize F⟩

/-- One write to both. -/
def step (s : Backends) (c : WriteCall) : Backends where
  joint := s.joint.step (.write c.bytes c.shape.pos)
  fileStorage := (s.fileStorage.storageWrite c.mem c.shape.pos c.shape.len).1

/-- A range of which all bytes were written is read alike from both, and as
    last written. -/
def Agree (F : Int) (s : Backends) : Prop :=
  ∀ pos len : Nat, (pos + len : Int) ≤ F →
    (∀ i < len, (s.joint.cache.last (pos + i)).isSome) →
    ∃ bytes : List UInt8, s.joint.storage.storageRead pos len = some (bytes.map some) ∧
      s.fileStorage.storageRead pos len = bytes ∧ bytes.length = len ∧
      ∀ i < len, bytes[i]? = s.joint.cache.last (pos + i)

/-- A write that the swapped arguments do no harm to: `pos` and `len` are
    the same, or nothing is to be written and what is written instead lies
    before all that was. -/
def Harmless (before : List WriteShape) (s : WriteShape) : Prop :=
  s.pos = s.len ∨ s.len = 0 ∧ ∀ s' ∈ before, 0 < s'.len → s.pos ≤ s'.pos

/-! ## The memory storage -/

section memory

variable {F : Int} {s : Backends} {c : WriteCall}

theorem bytes_length (c : WriteCall) : c.bytes.length = c.shape.len := by
  rw [WriteCall.bytes, List.length_map, List.length_range]

theorem bytes_getElem? {i : Nat} (hi : i < c.shape.len) : c.bytes[i]? = some (c.mem i) := by
  rw [WriteCall.bytes, List.getElem?_map, List.getElem?_range hi]
  rfl

/-- A write in the file is admissible. -/
theorem admissible_of_inFile (h : Refines F s.joint) (hc : c.shape.InFile F) :
    s.joint.Admissible F (.write c.bytes c.shape.pos) := by
  obtain ⟨hfits, hborder, hend⟩ := hc
  refine ⟨by omega, by rw [bytes_length]; exact hfits, ?_⟩
  rw [MemStorage.writeAligned_iff, bytes_length, h.estimateSize]
  exact ⟨by omega, hend⟩

/-- The abstract cache after a write. -/
theorem step_cache (h : Refines F s.joint) (hc : c.shape.InFile F) :
    (s.step c).joint.cache = s.joint.cache.write c.shape.pos c.bytes := by
  obtain ⟨-, hfits, haligned⟩ := admissible_of_inFile h hc
  obtain ⟨st, hwrite, -⟩ :=
    MemStorage.storageWrite_spec haligned (by rw [h.estimateSize]; exact hfits)
  simp only [step, Joint.step, hwrite, Int.toNat_natCast]

/-- The byte last written, after one more write. -/
theorem step_last (h : Refines F s.joint) (hc : c.shape.InFile F) (off : Nat) :
    (s.step c).joint.cache.last off =
      if c.shape.pos ≤ off ∧ off < c.shape.pos + c.shape.len then
        some (c.mem (off - c.shape.pos))
      else s.joint.cache.last off := by
  rw [step_cache h hc]
  simp only [ByteCache.write, overlay, bytes_length]
  split
  · exact bytes_getElem? (by omega)
  · rfl

/-- **Invariant**, whatever is written where: the memory storage holds what
    its cache says, all of it came from the writes so far, and is cached. -/
structure Written (F : Int) (before : List WriteShape) (s : Backends) : Prop where
  refines : Refines F s.joint
  cached : ∀ off, (s.joint.cache.last off).isSome → s.joint.cache.cached (off / 16384) = true
  origin : ∀ off, (s.joint.cache.last off).isSome →
    ∃ s' ∈ before, 0 < s'.len ∧ s'.pos ≤ off ∧ off < s'.pos + s'.len
  began : ∀ s' ∈ before, 0 < s'.len → (s.joint.cache.last s'.pos).isSome

theorem start_written {st : MemStorage} (hst : msMemStorageOpen.setFilesize F = some st)
    (file : List UInt8) : Written F [] (start F st file) where
  refines := start_refines hst
  cached _ hoff := by cases hoff
  origin _ hoff := by cases hoff
  began _ hs := absurd hs List.not_mem_nil

/-- **Step lemma.** -/
theorem Written.step {before : List WriteShape} (h : Written F before s)
    (hc : c.shape.InFile F) : Written F (before ++ [c.shape]) (s.step c) := by
  have hlast := step_last h.refines hc
  constructor
  · exact write_refines h.refines (admissible_of_inFile h.refines hc)
  · intro off hoff
    rw [hlast] at hoff
    rw [step_cache h.refines hc]
    simp only [ByteCache.write, msPieceUnitSize, bytes_length, Bool.or_eq_true, decide_eq_true_eq]
    split at hoff
    · right
      omega
    · exact Or.inl (h.cached off hoff)
  · intro off hoff
    rw [hlast] at hoff
    split at hoff
    · rename_i hin
      exact ⟨c.shape, by simp, by omega, hin⟩
    · obtain ⟨s', hs', hlen⟩ := h.origin off hoff
      exact ⟨s', List.mem_append_left _ hs', hlen⟩
  · intro s' hs' hlen
    rw [hlast]
    split
    · rfl
    · rename_i hout
      rcases List.mem_append.mp hs' with hold | hnew
      · exact h.began s' hold hlen
      · rw [List.mem_singleton.mp hnew] at hout hlen
        omega

theorem run_written {st : MemStorage} (hst : msMemStorageOpen.setFilesize F = some st)
    (file : List UInt8) {calls : List WriteCall} (hcalls : ∀ c ∈ calls, c.shape.InFile F) :
    Written F (calls.map WriteCall.shape) (run Backends.step (start F st file) calls) := by
  induction calls using List.reverseRecOn with
  | nil => exact start_written hst file
  | append_singleton calls c ih =>
    rw [run_snoc, List.map_append, List.map_singleton]
    have hbefore := ih fun c' hc' => hcalls c' (List.mem_append_left _ hc')
    exact hbefore.step (hcalls c (by simp))

end memory

/-! ## The file -/

section file

variable {F : Int} {s : Backends} {c : WriteCall} {before : List WriteShape}

/-- The file has every byte as it was last written. -/
def HoldsLast (s : Backends) : Prop :=
  ∀ off b, s.joint.cache.last off = some b → s.fileStorage.file[off]? = some b

/-- A harmless write keeps the file right. -/
theorem HoldsLast.step (h : s.HoldsLast) (hwritten : Written F before s)
    (hc : c.shape.InFile F) (hharmless : Harmless before c.shape) : (s.step c).HoldsLast := by
  intro off b hb
  rw [step_last hwritten.refines hc] at hb
  simp only [Backends.step, FileStorage.storageWrite]
  rcases hharmless with hsame | ⟨hlen, hbefore⟩
  · split at hb
    · rename_i hin
      cases hb
      rw [← hsame] at hin ⊢
      exact pwrite_inside hin.1 hin.2
    · apply pwrite_outside (h off b hb)
      omega
  · -- what is written lies before all that was
    rw [if_neg (by omega)] at hb
    obtain ⟨s', hs', hpos, hle, -⟩ := hwritten.origin off (by rw [hb]; rfl)
    have := hbefore s' hs' hpos
    apply pwrite_outside (h off b hb)
    omega

/-- Where the file has the bytes last written, the two storages agree. -/
theorem HoldsLast.agree (h : s.HoldsLast) (hwritten : Written F before s) (hF : 0 < F) :
    s.Agree F := by
  intro pos len hfits hall
  obtain ⟨bytes, hread, hlength, hbytes⟩ :=
    read_refines hwritten.refines hF (Int.natCast_nonneg pos) hfits
  rw [Int.toNat_natCast] at hlength hbytes
  -- every piece of the range is cached, so the read is not cut short
  have hlen : bytes.length = len := by
    rw [hlength]
    by_contra hne
    have hless := Nat.lt_of_le_of_ne leading_le hne
    have hstop := leading_stop hless
    have hcached := hwritten.cached _ (hall _ hless)
    exact Bool.false_ne_true (hstop.symm.trans hcached)
  have hbyte : ∀ i < len, ∃ b, s.joint.cache.last (pos + i) = some b :=
    fun i hi => Option.isSome_iff_exists.mp (hall i hi)
  -- the bytes last written, as a list
  let bs : List UInt8 := (List.range len).map fun i => (s.joint.cache.last (pos + i)).getD 0
  have hbs : ∀ i < len, bs[i]? = s.joint.cache.last (pos + i) := by
    intro i hi
    obtain ⟨b, hb⟩ := hbyte i hi
    rw [List.getElem?_map, List.getElem?_range hi, Option.map_some, hb]
    rfl
  have hbslen : bs.length = len := by rw [List.length_map, List.length_range]
  refine ⟨bs, ?_, ?_, hbslen, hbs⟩
  · rw [hread]
    congr 1
    apply List.ext_getElem?
    intro i
    by_cases hi : i < len
    · obtain ⟨b, hb⟩ := hbyte i hi
      rw [(hbytes i (by omega)).2, List.getElem?_map, hbs i hi, hb]
      rfl
    · rw [List.getElem?_eq_none (by omega), List.getElem?_eq_none]
      rw [List.length_map]
      omega
  · apply pread_eq hbslen
    intro i hi
    obtain ⟨b, hb⟩ := hbyte i hi
    rw [hbs i hi, hb, h _ b hb]

/-- Where the two storages agree, the file has the bytes last written. -/
theorem Agree.holdsLast (h : s.Agree F) (hwritten : Written F before s)
    (hin : ∀ s' ∈ before, s'.InFile F) : s.HoldsLast := by
  intro off b hb
  have hsome : (s.joint.cache.last off).isSome := by rw [hb]; rfl
  obtain ⟨s', hs', -, -, hoff⟩ := hwritten.origin off hsome
  have hfits := (hin s' hs').1
  obtain ⟨bytes, -, hread, hlen, hbytes⟩ := h off 1 (by omega) fun i hi => by
    rw [Nat.lt_one_iff.mp hi]
    exact hsome
  have hbyte := hbytes 0 Nat.one_pos
  rw [← hread, FileStorage.storageRead, pread_getElem? Nat.one_pos, Nat.add_zero, hb] at hbyte
  exact hbyte

theorem succ_ne_self (b : UInt8) : b + 1 ≠ b := by
  simp

/-- Any other write puts the file wrong, with some memory. -/
theorem exists_harm (hwritten : Written F before s) {shape : WriteShape}
    (hc : shape.InFile F) (hharm : ¬ Harmless before shape) :
    ∃ mem, ¬ (s.step ⟨shape, mem⟩).HoldsLast := by
  rw [Harmless, not_or] at hharm
  obtain ⟨hne, hharm⟩ := hharm
  by_cases hlen : shape.len = 0
  · -- nothing is to be written, and an earlier write is run over
    push Not at hharm
    obtain ⟨s', hs', hpos, hlt⟩ := hharm hlen
    obtain ⟨b, hb⟩ := Option.isSome_iff_exists.mp (hwritten.began s' hs' hpos)
    refine ⟨fun _ => b + 1, fun h => ?_⟩
    have hlast := step_last (c := ⟨shape, fun _ => b + 1⟩) hwritten.refines hc s'.pos
    rw [if_neg (by dsimp only; omega), hb] at hlast
    have hfile := h _ _ hlast
    simp only [Backends.step, FileStorage.storageWrite] at hfile
    rw [pwrite_inside (by omega) (by omega)] at hfile
    exact succ_ne_self b (Option.some.inj hfile)
  · -- the first byte comes from elsewhere in the buffer, or from the file
    let old := s.fileStorage.file.getD shape.pos 0
    obtain ⟨mem, hzero, hother⟩ : ∃ mem : Nat → UInt8, mem 0 = old + 1 ∧ ∀ i ≠ 0, mem i = old :=
      ⟨fun i => if i = 0 then old + 1 else old, if_pos rfl, fun _ hi => if_neg hi⟩
    refine ⟨mem, fun h => ?_⟩
    have hlast := step_last (c := ⟨shape, mem⟩) hwritten.refines hc shape.pos
    rw [if_pos (by dsimp only; omega), Nat.sub_self] at hlast
    have hfile := h _ _ hlast
    simp only [Backends.step, FileStorage.storageWrite] at hfile
    rw [hzero] at hfile
    rcases pwrite_source hfile with ⟨hle, -, hbyte⟩ | hbyte
    · rw [hother _ (by omega)] at hbyte
      exact succ_ne_self old hbyte
    · exact succ_ne_self old hbyte

end file

/-! ## Runs -/

/-- Harmless writes keep the file right. -/
theorem run_holdsLast {F : Int} {st : MemStorage}
    (hst : msMemStorageOpen.setFilesize F = some st) (file : List UInt8)
    {shapes : List WriteShape} (hin : ∀ s ∈ shapes, s.InFile F)
    (hharmless : ∀ before s after, shapes = before ++ s :: after → Harmless before s)
    {calls : List WriteCall} (hcalls : calls.map WriteCall.shape = shapes) :
    (run step (start F st file) calls).HoldsLast := by
  induction calls using List.reverseRecOn generalizing shapes with
  | nil =>
    intro off b hb
    cases hb
  | append_singleton calls c ih =>
    rw [List.map_append, List.map_singleton] at hcalls
    subst hcalls
    have hmem : ∀ c' ∈ calls, c'.shape.InFile F := fun c' hc' =>
      hin _ (List.mem_append_left _ (List.mem_map_of_mem hc'))
    rw [run_snoc]
    refine (ih (fun s hs => hin s (List.mem_append_left _ hs)) ?_ rfl).step
      (run_written hst file hmem) (hin _ (by simp)) (hharmless _ _ [] rfl)
    intro before s after heq
    exact hharmless before s (after ++ [c.shape]) (by rw [heq]; simp)

/-- A harmful write shows, with any bytes before it and the right ones in
    it. -/
theorem exists_disagree {F : Int} {st : MemStorage}
    (hst : msMemStorageOpen.setFilesize F = some st) (file : List UInt8)
    {before after : List WriteShape} {s : WriteShape}
    (hin : ∀ s' ∈ before ++ s :: after, s'.InFile F) (hharm : ¬ Harmless before s) :
    ∃ calls : List WriteCall, calls.map WriteCall.shape = before ++ s :: after ∧
      ∃ n, ¬ (run step (start F st file) (calls.take n)).Agree F := by
  have hmap : ∀ shapes : List WriteShape,
      (shapes.map fun s => (⟨s, fun _ => 0⟩ : WriteCall)).map WriteCall.shape = shapes := by
    intro shapes
    rw [List.map_map]
    exact List.map_id shapes
  let calls : List WriteCall := before.map fun s => ⟨s, fun _ => 0⟩
  have hbefore : ∀ c ∈ calls, c.shape.InFile F := by
    intro c hc
    obtain ⟨s', hs', rfl⟩ := List.mem_map.mp hc
    exact hin s' (List.mem_append_left _ hs')
  have hs : s.InFile F := hin s (List.mem_append_right _ List.mem_cons_self)
  have hwritten := run_written hst file hbefore
  obtain ⟨mem, hwrong⟩ := exists_harm hwritten hs (by rw [hmap]; exact hharm)
  refine ⟨calls ++ ⟨s, mem⟩ :: after.map fun s => ⟨s, fun _ => 0⟩, ?_, calls.length + 1, ?_⟩
  · rw [List.map_append, List.map_cons, hmap, hmap]
  · rw [List.take_append, List.take_of_length_le (by omega), Nat.add_sub_cancel_left,
      List.take_succ_cons, List.take_zero, run_snoc]
    intro hagree
    apply hwrong
    refine hagree.holdsLast (hwritten.step hs) fun s' hs' => ?_
    rcases List.mem_append.mp hs' with hold | hnew
    · rw [hmap] at hold
      exact hin s' (List.mem_append_left _ hold)
    · rw [List.mem_singleton.mp hnew]
      exact hs

end Backends

open Backends

/-- **Both back ends.** For writes inside the file, whatever their bytes and
    whatever the file held before: the two storages agree after each of them
    iff each is harmless after those before it. -/
theorem backends_agree_iff (F : Int) (hF : 0 < F) (st : MemStorage)
    (hst : msMemStorageOpen.setFilesize F = some st) (file : List UInt8)
    (shapes : List WriteShape) (hin : ∀ s ∈ shapes, s.InFile F) :
    (∀ calls : List WriteCall, calls.map WriteCall.shape = shapes →
        ∀ n, (run step (start F st file) (calls.take n)).Agree F) ↔
      ∀ before s after, shapes = before ++ s :: after → Harmless before s := by
  constructor
  · intro hagree before s after hshapes
    by_contra hharm
    rw [hshapes] at hin
    obtain ⟨calls, hcalls, n, hwrong⟩ := exists_disagree hst file hin hharm
    exact hwrong (hagree calls (hcalls.trans hshapes.symm) n)
  · intro hharmless calls hcalls n
    have hprefix : (calls.take n).map WriteCall.shape = shapes.take n := by
      rw [List.map_take, hcalls]
    have hmem : ∀ s ∈ shapes.take n, s.InFile F := fun s hs => hin s (List.mem_of_mem_take hs)
    have hbefore : ∀ before s after, shapes.take n = before ++ s :: after →
        Harmless before s := by
      intro before s after heq
      apply hharmless before s (after ++ shapes.drop n)
      calc shapes = shapes.take n ++ shapes.drop n := (List.take_append_drop n shapes).symm
        _ = before ++ s :: (after ++ shapes.drop n) := by
          rw [heq, List.append_assoc, List.cons_append]
    have hholds := run_holdsLast hst file hmem hbefore hprefix
    refine hholds.agree (run_written hst file fun c hc => ?_) hF
    exact hmem _ (by rw [← hprefix]; exact List.mem_map_of_mem hc)

/-- The second piece of a file of two. -/
theorem backends_agree_iff_second : ∃ st, msMemStorageOpen.setFilesize 32768 = some st ∧
    ((∀ calls : List WriteCall, calls.map WriteCall.shape = [⟨16384, 16384⟩] →
        ∀ n, (run step (start 32768 st []) (calls.take n)).Agree 32768) ↔
      ∀ before s after, [(⟨16384, 16384⟩ : WriteShape)] = before ++ s :: after →
        Harmless before s) := by
  obtain ⟨st, hst⟩ := @MemStorage.setFilesize_open 32768 (by decide)
  refine ⟨st, hst, backends_agree_iff 32768 (by decide) st hst [] [⟨16384, 16384⟩] ?_⟩
  intro s hs
  rw [List.mem_singleton.mp hs]
  exact ⟨by decide, by decide, Or.inl (by decide)⟩

/-- One byte written at the start of a file of one byte: the file stays as
    it was. -/
theorem backends_disagree : ∃ st, msMemStorageOpen.setFilesize 1 = some st ∧
    WriteShape.InFile 1 ⟨0, 1⟩ ∧
      ¬ (run step (start 1 st [0]) [⟨⟨0, 1⟩, fun _ => 7⟩]).Agree 1 := by
  obtain ⟨st, hst⟩ := @MemStorage.setFilesize_open 1 (by decide)
  have hin : WriteShape.InFile 1 ⟨0, 1⟩ := ⟨by decide, by decide, Or.inl (by decide)⟩
  refine ⟨st, hst, hin, fun hagree => ?_⟩
  have hcalls : ∀ c ∈ [(⟨⟨0, 1⟩, fun _ => 7⟩ : WriteCall)], c.shape.InFile 1 := by
    intro c hc
    rw [List.mem_singleton.mp hc]
    exact hin
  have hholds := hagree.holdsLast (run_written hst [0] hcalls) fun s hs => by
    rw [List.mem_singleton.mp hs]
    exact hin
  have hlast := step_last (c := ⟨⟨0, 1⟩, fun _ => 7⟩) (start_written hst [0]).refines hin 0
  rw [if_pos (by decide)] at hlast
  -- no byte was written to the file
  have hfile := hholds 0 7 hlast
  exact absurd (Option.some.inj hfile) (by decide)

end Libms
