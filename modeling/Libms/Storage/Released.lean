import Mathlib
import Libms.Storage.CountedBytes

/-! # What `clear_buffer_for` gives back

    A call is asked to give back `len` bytes when the cache is over its
    limit. It should free pieces until so many bytes of the file are gone, or
    until all that is left is the head and the pieces in hold windows.

    * `ReleasesWell`: what a call should do.
    * `completed_sub`: what the counter loses is what `piece_len` says of the
      freed pieces, which is not their part of the file for a piece behind
      its end.
    * `StopsEarly`: `release_len` is an `int`, and `len` a `size_t`.
    * `releasesWell_iff`: when a call does what it should. -/

namespace Libms

open CInt Runs

namespace MemStorage

/-- The bytes of piece `i` lie inside the window of a hold position. -/
def InsideWindow (st : MemStorage) (holdPos : List Int) (i : Nat) : Prop :=
  ∃ pos ∈ holdPos, InWindow st.filesize pos i

/-- The pieces of `st` that are gone in `st'`. -/
def removedPieces (st st' : MemStorage) : Finset Nat := st.cachedPieces \ st'.cachedPieces

/-- `st'` is `st` after a call that had to give back `len` bytes. -/
structure Released (holdPos : List Int) (len : Nat) (st st' : MemStorage) : Prop where
  subset : ∀ i, st'.cached i → st.cached i
  kept : ∀ i, st'.cached i → st'.pieceAt i = st.pieceAt i
  head : ∀ i ∈ removedPieces st st', 128 ≤ i
  window : ∀ i ∈ removedPieces st st', ¬ st.InsideWindow holdPos i
  counted : st'.completedSize =
    st.completedSize - ∑ i ∈ removedPieces st st', bytesInFile st.filesize i
  enough : (len : Int) ≤ ∑ i ∈ removedPieces st st', bytesInFile st.filesize i ∨
    ∀ i, st'.cached i → i < 128 ∨ st.InsideWindow holdPos i

/-- A call does what it should: nothing where there is room, and else it
    gives back what it was asked for, as far as it may. -/
def ReleasesWell (st : MemStorage) (holdPos : List Int) (pos : Int) (len : Nat) : Prop :=
  let st' := st.clearBufferFor exactInt holdPos pos len
  (st.completedSize + len ≤ holdSize holdPos.length → st' = st) ∧
    (holdSize holdPos.length < st.completedSize + len → Released holdPos len st st')

/-- The window of a reader ends in the slot of piece `i`, but not before the
    file does: the bytes of the piece are in it, and its slot is not. -/
def CutWindow (filesize pos : Int) (i : Nat) : Prop :=
  max 0 (pos - maxCacheLeft) ≤ i * 16384 ∧ filesize ≤ pos + maxCacheLen ∧
    pos + maxCacheLen < i * 16384 + 16384

/-- The walk is over before `len` bytes are given back, and a piece that
    could go is left: `len` is negative as an `int64_t`, or `(int)len` is
    used up behind a block before that of the piece. -/
def StopsEarly (st : MemStorage) (holdPos : List Int) (len : Nat) : Prop :=
  holdSize holdPos.length < st.completedSize + len ∧
    ∃ i, st.cached i ∧ 128 ≤ i ∧ ¬ st.InsideWindow holdPos i ∧
      (st.completedSize + toInt64 len ≤ holdSize holdPos.length ∨
        ∃ b < i / 128, st.StopsAt exactInt holdPos 1 (toInt32 len) b ∧
          ∑ b' ∈ Finset.Ico 1 (b + 1), st.blockReleased exactInt holdPos b' < len)

section released

variable {holdPos : List Int} {st : MemStorage} {pos : Int} {len : Nat}

/-- What is held is inside a window. -/
theorem insideWindow_of_held {i : Nat} (h : heldPiece exactInt holdPos i = true) :
    st.InsideWindow holdPos i := by
  obtain ⟨hold, hmem, hfrom, hend⟩ := heldPiece_iff.mp h
  exact ⟨hold, hmem, hfrom, by omega⟩

/-- The pieces that are gone are the cached ones that the call evicts. -/
theorem mem_removed {i : Nat} :
    i ∈ removedPieces st (st.clearBufferFor exactInt holdPos pos len) ↔
      st.cached i = true ∧ st.Evicts exactInt holdPos len i := by
  rw [removedPieces, Finset.mem_sdiff, mem_cachedPieces, mem_cachedPieces]
  constructor
  · rintro ⟨hcached, hgone⟩
    refine ⟨hcached, ?_⟩
    by_contra hkept
    exact hgone ((clearBufferFor_cached hcached).mpr hkept)
  · rintro ⟨hcached, hevicts⟩
    exact ⟨hcached, fun hkept => (clearBufferFor_cached hcached).mp hkept hevicts⟩

/-- The counter loses what `piece_len` says of the pieces that are gone. -/
theorem completed_sub :
    (st.clearBufferFor exactInt holdPos pos len).completedSize = st.completedSize -
      ∑ i ∈ removedPieces st (st.clearBufferFor exactInt holdPos pos len),
        min 16384 (st.filesize - i * 16384) := by
  have hbytes := @clearBufferFor_bytes holdPos st pos len
  have hsub : (st.clearBufferFor exactInt holdPos pos len).cachedPieces ⊆ st.cachedPieces := by
    intro i hi
    exact mem_cachedPieces.mpr (clearBufferFor_subset (mem_cachedPieces.mp hi))
  have hsplit := Finset.sum_sdiff hsub (f := fun i : Nat => min 16384 (st.filesize - i * 16384))
  rw [cachedBytes_eq_sum, cachedBytes_eq_sum, (clearBufferFor_spec st pos len).filesize] at hbytes
  rw [removedPieces]
  omega

/-- The counter loses the bytes inside the file iff no piece that goes
    starts behind its end. -/
theorem counted_iff :
    (st.clearBufferFor exactInt holdPos pos len).completedSize = st.completedSize -
        ∑ i ∈ removedPieces st (st.clearBufferFor exactInt holdPos pos len),
          bytesInFile st.filesize i ↔
      ∀ i ∈ removedPieces st (st.clearBufferFor exactInt holdPos pos len),
        (i * 16384 : Int) ≤ st.filesize := by
  rw [completed_sub, sub_right_inj]
  have hle : ∀ i ∈ removedPieces st (st.clearBufferFor exactInt holdPos pos len),
      min 16384 (st.filesize - i * 16384) ≤ bytesInFile st.filesize i :=
    fun i _ => le_max_right _ _
  rw [Finset.sum_eq_sum_iff_of_le hle]
  constructor
  · intro h i hi
    have hi := h i hi
    unfold bytesInFile at hi
    omega
  · intro h i hi
    exact (bytesInFile_eq (h i hi)).symm

/-- A piece that is not held is inside a window iff the window is cut. -/
theorem insideWindow_iff {i : Nat} (hfree : heldPiece exactInt holdPos i = false) :
    st.InsideWindow holdPos i ↔ ∃ hold ∈ holdPos, CutWindow st.filesize hold i := by
  have hslot : ∀ hold ∈ holdPos, ¬ SlotInWindow hold i := by
    intro hold hmem hslot
    rw [heldPiece_iff.mpr ⟨hold, hmem, hslot⟩] at hfree
    cases hfree
  constructor
  · rintro ⟨hold, hmem, hfrom, hend⟩
    have hnot := hslot hold hmem
    unfold SlotInWindow at hnot
    exact ⟨hold, hmem, hfrom, by omega, by omega⟩
  · rintro ⟨hold, hmem, hfrom, hfile, -⟩
    exact ⟨hold, hmem, hfrom, (min_le_right _ _).trans hfile⟩

theorem not_held_of_free {i : Nat} (hfree : ¬ st.InsideWindow holdPos i) :
    heldPiece exactInt holdPos i = false := by
  cases hheld : heldPiece exactInt holdPos i with
  | true => exact absurd (insideWindow_of_held hheld) hfree
  | false => rfl

/-- Where there is room nothing happens. -/
theorem clearBufferFor_room (hroom : st.completedSize + len ≤ holdSize holdPos.length) :
    st.clearBufferFor exactInt holdPos pos len = st := by
  have := toInt64_le (Int.natCast_nonneg len)
  exact if_pos (by omega)

/-- A walk that stops before `len` bytes are given back leaves a piece that
    could go. -/
theorem StopsEarly.not_enough (h : st.StopsEarly holdPos len)
    (hr : Released holdPos len st (st.clearBufferFor exactInt holdPos pos len)) : False := by
  obtain ⟨hover, i, hcached, hbehind, hfree, hearly⟩ := h
  have hslack := toInt64_le (Int.natCast_nonneg len)
  have hfree' := not_held_of_free hfree
  obtain ⟨htable, hvisit⟩ := visits_of_cached hcached hfree'
  -- the piece stays, so enough must have been given back
  have hstays : ¬ st.Evicts exactInt holdPos len i := by
    rintro ⟨hlimit, -, -, -, hreach, -⟩
    rcases hearly with hroom | ⟨b, hlt, hstop, -⟩
    · omega
    · exact hstop.not_reaches hlt hreach
  have hleft := (@clearBufferFor_cached holdPos st pos len i hcached).mpr hstays
  have henough : (len : Int) ≤ st.completedSize -
      (st.clearBufferFor exactInt holdPos pos len).completedSize := by
    have hcounted := hr.counted
    rcases hr.enough with henough | hall
    · omega
    · rcases hall i hleft with hhead | hwindow
      · omega
      · exact absurd hwindow hfree
  rcases @clearBufferFor_ends exactInt holdPos st pos len with
    ⟨hroom, hsame⟩ | ⟨hlimit, ⟨b, hb, hstop, hdone⟩ | hall⟩
  · -- nothing was given back, but there was no room even for that
    rw [hsame, sub_self] at henough
    obtain rfl : len = 0 := by omega
    have hzero : toInt64 ((0 : Nat) : Int) = 0 := by decide
    omega
  · rcases hearly with hroom | ⟨b', hlt, hstop', hless⟩
    · omega
    · -- the walk stops at one block only
      have hsame : b = b' := by
        rcases Nat.lt_trichotomy b b' with hbb | hbb | hbb
        · exact absurd hstop'.2.2.1 (hstop.not_reaches hbb)
        · exact hbb
        · exact absurd hstop.2.2.1 (hstop'.not_reaches hbb)
      rw [hdone, hsame] at henough
      omega
  · rcases hearly with hroom | ⟨b', hlt, hstop', -⟩
    · omega
    · exact hstop'.not_reaches hlt (hall _ (by omega) htable)

/-- A walk that does not stop early gives back enough, or all it may. -/
theorem enough_of_not_stopsEarly (hearly : ¬ st.StopsEarly holdPos len)
    (hover : holdSize holdPos.length < st.completedSize + len) :
    (len : Int) ≤ st.completedSize - (st.clearBufferFor exactInt holdPos pos len).completedSize ∨
      ∀ i, (st.clearBufferFor exactInt holdPos pos len).cached i → i < 128 ∨
        st.InsideWindow holdPos i := by
  by_contra hnot
  obtain ⟨hless, hleft⟩ := not_or.mp hnot
  push Not at hleft
  obtain ⟨i, hstays, hbehind, hfree⟩ := hleft
  have hcached : st.cached i = true := clearBufferFor_subset hstays
  have hkept := (clearBufferFor_cached hcached).mp hstays
  have hfree' := not_held_of_free hfree
  obtain ⟨htable, hvisit⟩ := visits_of_cached hcached hfree'
  apply hearly
  refine ⟨hover, i, hcached, hbehind, hfree, ?_⟩
  rcases @clearBufferFor_ends exactInt holdPos st pos len with
    ⟨hroom, -⟩ | ⟨hlimit, ⟨b, hb, hstop, hdone⟩ | hall⟩
  · exact Or.inl hroom
  · right
    rw [hdone] at hless
    -- the walk did not come to the block of the piece
    have hlt : b < i / 128 := by
      by_contra hge
      refine hkept ⟨hlimit, by omega, htable, hvisit, ?_, hfree'⟩
      exact fun c h₁ h₂ h₃ => hstop.2.2.1 c h₁ (by omega) h₃
    exact ⟨b, hlt, hstop, by omega⟩
  · exact absurd ⟨hlimit, by omega, htable, hvisit, hall _ (by omega) htable, hfree'⟩ hkept

/-- With less than 2 GiB to give back the walk does not stop early. -/
theorem not_stopsEarly (h : st.Tallied) (hlen : len < 2 ^ 31) : ¬ st.StopsEarly holdPos len := by
  have hlen64 : toInt64 len = len := toInt64_of_range (by omega) (by omega)
  have hlen32 : toInt32 len = len := toInt32_of_range (by omega) (by omega)
  rintro ⟨hover, i, -, -, -, hroom | ⟨b, -, hstop, hless⟩⟩
  · omega
  · have := hstop.released (by omega) (by omega) h.blockReleased_range
    omega

/-- A call that frees no piece behind the end of the file or inside a
    window, and whose walk does not stop early. -/
theorem releasesWell_of
    (hfreed : ∀ i, st.cached i = true → st.Evicts exactInt holdPos len i →
      (i * 16384 : Int) ≤ st.filesize ∧ ∀ hold ∈ holdPos, ¬ CutWindow st.filesize hold i)
    (hearly : ¬ st.StopsEarly holdPos len) : st.ReleasesWell holdPos pos len := by
  refine ⟨clearBufferFor_room, fun hover => ?_⟩
  have hcounted := (@counted_iff holdPos st pos len).mpr fun i hi =>
    (hfreed i (mem_removed.mp hi).1 (mem_removed.mp hi).2).1
  refine
    { subset := fun i hi => clearBufferFor_subset hi
      kept := fun i hi => ?_
      head := fun i hi => ?_
      window := fun i hi hinside => ?_
      counted := hcounted
      enough := ?_ }
  · exact (clearBufferFor_spec st pos len).kept i
      ((clearBufferFor_cached (clearBufferFor_subset hi)).mp hi)
  · have := (mem_removed.mp hi).2.2.1
    omega
  · obtain ⟨hcached, hevicts⟩ := mem_removed.mp hi
    obtain ⟨hold, hmem, hcut⟩ := (insideWindow_iff hevicts.2.2.2.2.2).mp hinside
    exact (hfreed i hcached hevicts).2 hold hmem hcut
  · have henough := @enough_of_not_stopsEarly holdPos st pos len hearly hover
    rw [hcounted, sub_sub_cancel] at henough
    exact henough

theorem ReleasesWell.freed (h : st.ReleasesWell holdPos pos len) {i : Nat}
    (hcached : st.cached i = true) (hevicts : st.Evicts exactInt holdPos len i) :
    (i * 16384 : Int) ≤ st.filesize ∧ ∀ hold ∈ holdPos, ¬ CutWindow st.filesize hold i := by
  have hslack := toInt64_le (Int.natCast_nonneg len)
  have hlimit := hevicts.1
  have hr := h.2 (by omega)
  have hremoved := (@mem_removed holdPos st pos len i).mpr ⟨hcached, hevicts⟩
  refine ⟨counted_iff.mp hr.counted i hremoved, ?_⟩
  intro hold hmem hcut
  exact hr.window i hremoved
    ((insideWindow_iff hevicts.2.2.2.2.2).mpr ⟨hold, hmem, hcut⟩)

theorem ReleasesWell.not_stopsEarly (h : st.ReleasesWell holdPos pos len) :
    ¬ st.StopsEarly holdPos len := by
  intro hearly
  exact hearly.not_enough (h.2 hearly.1)

end released

/-- **Eviction.** A call of `clear_buffer_for` does what it should iff no
    piece that it frees starts behind the end of the file or has the end of
    the file and then that of a window in its slot, and the walk does not
    stop early. -/
theorem releasesWell_iff (st : MemStorage) (holdPos : List Int) (pos : Int) (len : Nat) :
    st.ReleasesWell holdPos pos len ↔
      (∀ i, st.cached i = true → st.Evicts exactInt holdPos len i →
        (i * 16384 : Int) ≤ st.filesize ∧ ∀ hold ∈ holdPos, ¬ CutWindow st.filesize hold i) ∧
      ¬ st.StopsEarly holdPos len :=
  ⟨fun h => ⟨fun _ => h.freed, h.not_stopsEarly⟩, fun h => releasesWell_of h.1 h.2⟩

/-- A storage whose size was set once and that was written inside the file
    gives back what it should, as long as less than 2 GiB are asked for and
    no window of a hold position is cut. -/
theorem releasesWell_inFile {F : Int} (hF : 0 < F) {st : MemStorage} {calls : List StorageCall}
    (hst : msMemStorageOpen.setFilesize F = some st) (hcalls : Along step (InFile F) st calls)
    {holdPos : List Int} {len : Nat} (hlen : len < 2 ^ 31)
    (hcut : ∀ hold ∈ holdPos, ∀ i, ¬ CutWindow F hold i) (pos : Int) :
    (run step st calls).ReleasesWell holdPos pos len := by
  have h := countsCached_run hF hst hcalls
  apply releasesWell_of
  · intro i hcached _
    refine ⟨(h.inside i hcached).le, fun hold hmem => ?_⟩
    rw [h.filesize]
    exact hcut hold hmem i
  · exact not_stopsEarly ⟨h.counted.le, fun i hi => (h.inside i hi).le⟩ hlen

/-- A file of three blocks with the first piece of the second and of the
    third one cached, and 4 GiB to give back: as an `int` that is nothing,
    and the walk stops behind the first piece. -/
theorem releasesWell_four_gib :
    ∃ st : MemStorage, st.Reachable ∧ st.filesize = 4210688 ∧
      st.cached 128 = true ∧ st.cached 256 = true ∧ ¬ st.ReleasesWell [] 0 (2 ^ 32) := by
  obtain ⟨st₀, h₀⟩ := @setFilesize_open 4210688 (by decide)
  obtain ⟨hfile₀, hest₀, -, -⟩ := setFilesize_spec h₀
  have haligned : ∀ st : MemStorage, ∀ pos : Nat, pos % 16384 = 0 →
      st.WriteAligned pos (List.replicate 16384 (0 : UInt8)).length := by
    intro st pos hpos
    rw [writeAligned_iff, List.length_replicate]
    exact ⟨by omega, Or.inr (by decide)⟩
  obtain ⟨st₁, h₁, hwritten₁⟩ := @call_write st₀ (List.replicate 16384 0) 2097152
    (haligned st₀ _ (by decide)) (by rw [hest₀, List.length_replicate]; decide)
  obtain ⟨st₂, h₂, hwritten₂⟩ := @call_write st₁ (List.replicate 16384 0) 4194304
    (haligned st₁ _ (by decide))
    (by rw [hwritten₁.estimateSize, hest₀, List.length_replicate]; decide)
  have hfile₂ : st₂.filesize = 4210688 :=
    hwritten₂.filesize.trans (hwritten₁.filesize.trans hfile₀)
  have hcached₁ : st₁.cached 128 = true := by
    rw [hwritten₁.cached, List.length_replicate]
    simp
  have hcached₂ : st₂.cached 128 = true ∧ st₂.cached 256 = true := by
    rw [hwritten₂.cached, hwritten₂.cached, hcached₁, List.length_replicate]
    simp
  have hinv : CountsCached 4210688 st₂ := by
    have hrun := (countsCached_setFilesize h₀).write (by decide)
      ⟨by decide, by rw [List.length_replicate]; decide, haligned st₀ 2097152 (by decide)⟩
    rw [step_of_call h₁] at hrun
    have hrun := hrun.write (by decide)
      ⟨by decide, by rw [List.length_replicate]; decide, haligned st₁ 4194304 (by decide)⟩
    rwa [step_of_call h₂] at hrun
  have htallied : st₂.Tallied := ⟨hinv.counted.le, fun i hi => (hinv.inside i hi).le⟩
  have hnonneg : 0 ≤ st₂.completedSize := by
    rw [hinv.counted, hinv.inside.cachedBytes_eq]
    exact Finset.sum_nonneg fun i _ => bytesInFile_nonneg _ i
  refine ⟨st₂, ((reachable_open.call (c := .setFilesize 4210688) h₀).call h₁).call h₂, hfile₂,
    hcached₂.1, hcached₂.2, fun h => h.not_stopsEarly ?_⟩
  have hrange := @Tallied.blockReleased_range [] st₂ htallied 1
  have hlen64 : toInt64 ((2 ^ 32 : Nat) : Int) = 2 ^ 32 := by decide
  have hwindow : ¬ st₂.InsideWindow [] 256 := by
    rintro ⟨_, hmem, _⟩
    cases hmem
  refine ⟨?_, 256, hcached₂.2, by decide, hwindow, Or.inr ⟨1, by decide,
    ⟨Nat.le_refl _, (visits_of_cached hcached₂.1 rfl).2, ?_, ?_⟩, ?_⟩⟩
  · show (2097152 : Int) + (10485760 + 20971520) * 0 < st₂.completedSize + (2 ^ 32 : Nat)
    omega
  · intro b h₁ h₂
    omega
  · rw [Finset.sum_Ico_succ_top (Nat.le_refl _), Finset.Ico_self, Finset.sum_empty, zero_add,
      toInt32_toInt32_sub]
    unfold toInt32
    omega
  · rw [Finset.sum_Ico_succ_top (Nat.le_refl _), Finset.Ico_self, Finset.sum_empty, zero_add]
    omega

end MemStorage

end Libms
