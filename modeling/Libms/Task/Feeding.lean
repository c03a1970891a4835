import Mathlib
import Libms.Framework.Runs
import Libms.Task.HoldWindows
import Libms.Task.Serving

/-! # A pipe brings one piece after the other

    A task with one reader and one pipe. While there is room for all that
    comes nothing is evicted, and while the pipe is close to its reader it
    stays.

    * `MemStorage.storageWrite_piece`: a piece is written where there was none.
    * `Feeding`: the task, with the pieces that are cached.
    * `feeding_open`: the first reader, and the size of the file.
    * `Feeding.recv`, `Feeding.run`: one piece comes, or many.
    * `Feeding.move`, `Feeding.follows`: the reader goes on, or another one
      comes in its place. -/

namespace Libms

open CInt MemStorage Runs

namespace MemStorage

section piece

variable {buf : List UInt8} {st : MemStorage} {i : Nat}

/-- The loops end with the buffer. -/
theorem writePieces_done (n ip : Nat) {write : Nat} (block : Block) (completedSize : Int)
    (h : ¬ write < buf.length) :
    writePieces buf n ip write block completedSize = (block, write, completedSize) := by
  cases n with
  | zero => rfl
  | succ n => rw [writePieces, if_neg h]

theorem writeBlocks_done (pos n ib : Nat) {write : Nat} (st : MemStorage)
    (h : ¬ write < buf.length) : writeBlocks buf pos n ib write st = (st, write) := by
  cases n with
  | zero => rfl
  | succ n => rw [writeBlocks, if_neg h]

/-- One round of the outer loop writes one piece. -/
theorem writeBlock_piece (hbuf : buf.length = 16384) (hnew : st.cached i = false) :
    (writeBlock buf (i * 16384) (i / 128) 0 st).2 = 16384 ∧
      (writeBlock buf (i * 16384) (i / 128) 0 st).1.completedSize = st.completedSize + 16384 := by
  have hindex : pieceIndex (i * 16384 + 0) = i % 128 := by
    rw [pieceIndex_eq]
    omega
  have hmore : (0 : Nat) < buf.length := by omega
  have hempty : ((st.blocks[i / 128]?.join).getD mallocBlock).buf (i % 128) = none := by
    rw [← pieceAt_getD st rfl]
    exact not_cached_iff.mp hnew
  obtain ⟨n, hn⟩ : ∃ n, msPieceNumOfPerBlock - i % 128 = n + 1 := by
    have hblock : msPieceNumOfPerBlock = 128 := rfl
    exact ⟨127 - i % 128, by omega⟩
  have hlen : min msPieceUnitSize (buf.length - 0) = 16384 := by
    rw [hbuf]
    rfl
  unfold writeBlock
  simp only [hindex, hn, writePieces, if_pos hmore, hlen, hempty, Option.isNone_none, if_true]
  rw [writePieces_done _ _ _ _ (by omega)]
  exact ⟨rfl, rfl⟩

/-- **A new piece.** All of it is written and counted, also behind the end of
    the file. -/
theorem storageWrite_piece (hbuf : buf.length = 16384) (htable : i / 128 < st.blocks.length)
    (hnew : st.cached i = false) :
    ∃ st', st.storageWrite buf (i * 16384 : Nat) = some (st', buf.length) ∧
      Written buf (i * 16384) st st' ∧ st'.completedSize = st.completedSize + 16384 := by
  have haligned : st.WriteAligned (i * 16384 : Nat) buf.length := by
    rw [writeAligned_iff]
    omega
  have hindex : blockIndex (i * 16384) = i / 128 := by
    rw [blockIndex_eq]
    omega
  have hsized := st.sized
  obtain ⟨n, hn⟩ : ∃ n, blockNum st.estimateSize - i / 128 = n + 1 :=
    ⟨blockNum st.estimateSize - i / 128 - 1, by omega⟩
  obtain ⟨hwrite, hcompleted⟩ := writeBlock_piece hbuf hnew
  have hall : writeBlocks buf (i * 16384) (n + 1) (i / 128) 0 st =
      ((writeBlock buf (i * 16384) (i / 128) 0 st).1, buf.length) := by
    have hmore : (0 : Nat) < buf.length := by omega
    simp only [writeBlocks, if_pos hmore]
    rw [hwrite, writeBlocks_done _ _ _ _ (by omega), hbuf]
  have hstored : st.storageWrite buf (i * 16384 : Nat) =
      some ((writeBlock buf (i * 16384) (i / 128) 0 st).1, buf.length) := by
    unfold storageWrite
    rw [if_pos haligned, if_neg (by omega), Int.toNat_natCast, hindex,
      if_pos ⟨Int.natCast_nonneg _, htable⟩]
    dsimp only
    rw [hn, hall]
  exact ⟨_, hstored, storageWrite_whole hstored, hcompleted⟩

end piece

end MemStorage

namespace MsTask

/-- A task with one reader, and with one pipe, the last one it opened, which
    stands at piece `i`. The pieces of `s` are cached, and each counts as a
    whole one. -/
structure Feeding (F : Int) (r : Reader) (id i : Nat) (s : Finset Nat) (t : MsTask) : Prop where
  running : t.aborted = false
  code : t.code = 0
  agree : ∃ first, SizesAgree first t
  readers : t.readers = [r]
  pipes : t.pipes = [id]
  opened : t.opened = id + 1
  stands : t.currentPos id = i * 16384
  filesize : t.storage.filesize = F
  known : 0 < F
  counted : t.storage.completedSize = 16384 * s.card
  cached : ∀ j, t.storage.cached j = true ↔ j ∈ s

section feeding

variable {F : Int} {r : Reader} {id i : Nat} {s : Finset Nat} {t : MsTask} {buf : List UInt8}

/-- `on_recv` of the piece that the pipe stands at. -/
def recvPiece (id : Nat) (buf : List UInt8) (i : Nat) : TaskOp :=
  .callback id ((i + 1) * 16384) (.onRecv buf (i * 16384)) fun _ _ _ => []

/-- The only pipe of a task stays while it is close to the only reader. -/
theorem dispatchPipe_alone (hreaders : t.readers = [r]) (hpipes : t.pipes = [id])
    (hbehind : r.next ≤ t.currentPos id) (hclose : t.currentPos id < r.next + 20971520) :
    t.dispatchPipe id = t := by
  apply dispatchPipe_of_stays (r := r)
  · constructor
    · rw [hreaders]
      exact List.mem_singleton_self r
    · exact hbehind
    · intro r' hr' _
      rw [hreaders, List.mem_singleton] at hr'
      rw [hr']
    · have hcache : maxCacheLen = 20971520 := rfl
      rw [hcache]
      omega
    · intro other hother hlt
      rw [hpipes, List.mem_singleton] at hother
      rw [hother] at hlt
      omega
  · intro other hother hne
    rw [hpipes, List.mem_singleton] at hother
    exact absurd hother hne

/-- The piece is stored, whatever is evicted before. -/
theorem Feeding.stored (h : Feeding F r id i s t) {st st' : MemStorage}
    (hcleared : t.recvCleared exactInt (i * 16384) buf.length = st)
    (hst : st.storageWrite buf (i * 16384 : Nat) = some (st', buf.length))
    (hbehind : r.next ≤ (i + 1) * 16384)
    (hclose : (i + 1) * 16384 < r.next + 20971520) :
    t.opStep exactInt (recvPiece id buf i) =
      { t.setPipe id { t.pipeOf id with pos := (i + 1) * 16384 } with storage := st' } := by
  have hid : id ∈ t.pipes := by
    rw [h.pipes]
    exact List.mem_singleton_self id
  rw [recvPiece, opStep_onRecv h.running hid (by rw [hcleared]; exact hst)]
  have hstands : { t.setPipe id { t.pipeOf id with pos := (i + 1) * 16384 } with
      storage := st' }.currentPos id = (i + 1) * 16384 := by
    simp only [currentPos, MsTask.setPipe, Function.update_self]
  apply dispatchPipe_alone (r := r)
  · exact h.readers
  · exact h.pipes
  · rw [hstands]
    exact hbehind
  · rw [hstands]
    exact hclose

/-- **A piece comes**, and there is room for it. -/
theorem Feeding.recv (h : Feeding F r id i s t) (hbuf : buf.length = 16384) (hnew : i ∉ s)
    (htable : i / 128 < blockNum F) (hroom : s.card + 1 ≤ 2048)
    (hbehind : r.next ≤ (i + 1) * 16384)
    (hclose : (i + 1) * 16384 < r.next + 20971520) :
    Feeding F r id (i + 1) (insert i s) (t.opStep exactInt (recvPiece id buf i)) := by
  have hcleared : t.recvCleared exactInt (i * 16384) buf.length = t.storage := by
    have hone : t.holdPositions.length = 1 := by
      rw [holdPositions_length, h.readers]
      rfl
    unfold recvCleared clearBufferFor
    rw [hone, h.counted, hbuf]
    apply if_pos
    have hlen : toInt64 ((16384 : Nat) : Int) = 16384 := by decide
    have hhold : holdSize 1 = 33554432 := rfl
    rw [hlen, hhold]
    omega
  have hsize : t.storage.estimateSize = F :=
    (t.storage.known (by rw [h.filesize]; exact h.known)).trans h.filesize
  have hfree : t.storage.cached i = false := by
    rw [← Bool.not_eq_true, h.cached]
    exact hnew
  obtain ⟨st, hst, hwritten, hcompleted⟩ := storageWrite_piece hbuf
    (by rw [t.storage.sized, hsize]; exact htable) hfree
  obtain ⟨first, hagree⟩ := h.agree
  have hagree := hagree.opStep (w := exactInt) (recvPiece id buf i)
  rw [h.stored hcleared hst hbehind hclose] at hagree ⊢
  refine ⟨h.running, h.code, ⟨_, hagree⟩, h.readers, h.pipes, h.opened, ?_,
    hwritten.filesize.trans h.filesize, h.known, ?_, ?_⟩
  · simp only [currentPos, MsTask.setPipe, Function.update_self]
  · show st.completedSize = _
    rw [hcompleted, h.counted, Finset.card_insert_of_notMem hnew]
    push_cast
    omega
  · intro j
    show st.cached j = true ↔ _
    have hhere : i * 16384 ≤ j * 16384 ∧ j * 16384 < i * 16384 + 16384 ↔ j = i := by omega
    rw [hwritten.cached, Bool.or_eq_true, h.cached, decide_eq_true_eq, Finset.mem_insert, hbuf,
      hhere]
    exact or_comm

/-- The next `n` pieces, one after the other. -/
def recvPieces (id : Nat) (buf : List UInt8) (i : Nat) : (n : Nat) → List TaskOp
  | 0 => []
  | n + 1 => recvPiece id buf i :: recvPieces id buf (i + 1) n

/-- **Many pieces come.** -/
theorem Feeding.run {n : Nat} (h : Feeding F r id i s t) (hbuf : buf.length = 16384)
    (hnew : ∀ j ∈ s, j < i ∨ i + n ≤ j) (htable : ∀ j < i + n, j / 128 < blockNum F)
    (hroom : s.card + n ≤ 2048) (hbehind : r.next ≤ (i + 1) * 16384)
    (hclose : (i + n) * 16384 < r.next + 20971520) :
    Feeding F r id (i + n) (s ∪ Finset.Ico i (i + n))
        (Runs.run (opStep exactInt) t (recvPieces id buf i n)) ∧
      Along (opStep exactInt) (fun t op => t.readers = [r] ∧ ∃ j, op = recvPiece id buf j) t
        (recvPieces id buf i n) := by
  induction n generalizing i s t with
  | zero =>
    rw [Nat.add_zero, Finset.Ico_self, Finset.union_empty]
    exact ⟨h, trivial⟩
  | succ n ih =>
    have hfree : i ∉ s := fun hi => by
      have := hnew i hi
      omega
    have hhere : (i + 1) * 16384 < r.next + 20971520 := by
      refine Nat.lt_of_le_of_lt (Nat.mul_le_mul_right 16384 ?_) hclose
      exact Nat.add_le_add_left (Nat.succ_pos n) i
    have hnext := h.recv hbuf hfree (htable i (by omega)) (by omega) hbehind hhere
    have hcard := Finset.card_insert_of_notMem hfree
    have hlast : i + 1 + n = i + (n + 1) := by omega
    obtain ⟨hrest, halong⟩ := ih hnext
      (fun j hj => by
        rcases Finset.mem_insert.mp hj with rfl | hold
        · exact Or.inl (Nat.lt_succ_self j)
        · have := hnew j hold
          omega)
      (fun j hj => htable j (by omega)) (by omega)
      (hbehind.trans (Nat.mul_le_mul_right 16384 (Nat.le_succ (i + 1))))
      (lt_of_eq_of_lt (by rw [hlast]) hclose)
    have hpieces : insert i s ∪ Finset.Ico (i + 1) (i + 1 + n) =
        s ∪ Finset.Ico i (i + (n + 1)) := by
      ext j
      simp only [Finset.mem_union, Finset.mem_insert, Finset.mem_Ico]
      constructor
      · rintro ((rfl | hj) | hj)
        · exact Or.inr (by omega)
        · exact Or.inl hj
        · exact Or.inr (by omega)
      · rintro (hj | hj)
        · exact Or.inl (Or.inr hj)
        · by_cases heq : j = i
          · exact Or.inl (Or.inl heq)
          · exact Or.inr (by omega)
    rw [hpieces, hlast] at hrest
    exact ⟨hrest, ⟨h.readers, i, rfl⟩, halong⟩

/-! ## Readers come and go -/

/-- The first reader of a file, and the answer to its pipe. -/
theorem feeding_open (url : List Char) (hknown : 0 < F) :
    Feeding F ⟨0, 0, 0⟩ 0 0 ∅ (Runs.run (opStep exactInt) (msTaskOpen url)
      [.addReader ⟨0, 0, 0⟩, .callback 0 0 (.onContentSize 0 F) fun _ _ _ => []]) := by
  obtain ⟨st, hst⟩ := setFilesize_open hknown
  obtain ⟨hfile, -, hcompleted, hpieces⟩ := setFilesize_spec hst
  have hagree := run_sizesAgree exactInt url
    [.addReader ⟨0, 0, 0⟩, .callback 0 0 (.onContentSize 0 F) fun _ _ _ => []]
  have hset : ((msTaskOpen url).opStep exactInt (.addReader ⟨0, 0, 0⟩)).storage.setFilesize
      ((0 : Nat) + F) = some st := by
    rw [Int.natCast_zero, Int.zero_add]
    exact hst
  have hsized : ((msTaskOpen url).opStep exactInt (.addReader ⟨0, 0, 0⟩)).opStep exactInt
      (.callback 0 0 (.onContentSize 0 F) fun _ _ _ => []) = _ :=
    opStep_onContentSize rfl (List.mem_singleton.mpr rfl) rfl hset
  rw [Runs.run_cons, Runs.run_cons, Runs.run_nil, hsized] at hagree ⊢
  refine ⟨rfl, rfl, hagree, rfl, rfl, rfl, rfl, hfile, hknown, hcompleted, fun j => ?_⟩
  have hnone : st.cached j = false := by
    rw [not_cached_iff, hpieces]
    rfl
  show st.cached j = true ↔ _
  rw [hnone]
  exact iff_of_false Bool.false_ne_true (Finset.notMem_empty j)

/-- The reader has sent what it has, and asks for more. -/
theorem Feeding.move (h : Feeding F r id i s t) (pos sending : Nat) :
    Feeding F ⟨r.id, pos, sending⟩ id i s
      (Runs.run (opStep exactInt) t [.reader r.id (.move pos sending)]) := by
  obtain ⟨first, hagree⟩ := h.agree
  have hagree := hagree.opStep (w := exactInt) (.reader r.id (.move pos sending))
  have hmoved : t.opStep exactInt (.reader r.id (.move pos sending)) =
      { t with readers := [⟨r.id, pos, sending⟩] } := by
    have hin : r.id ∈ t.readers.map Reader.id := by
      rw [h.readers]
      exact List.mem_singleton_self r.id
    have hlive : ¬ t.aborted := by
      rw [h.running]
      exact Bool.false_ne_true
    have hmap : (t.readers.map fun r' =>
        if r'.id = r.id then { r' with pos := pos, sending := sending } else r') =
          [⟨r.id, pos, sending⟩] := by
      rw [h.readers, List.map_singleton, if_pos rfl]
    simp only [opStep, readerAct, if_neg hlive, if_pos hin, hmap]
  rw [Runs.run_cons, Runs.run_nil]
  rw [hmoved] at hagree ⊢
  exact ⟨h.running, h.code, ⟨_, hagree⟩, rfl, h.pipes, h.opened, h.stands, h.filesize, h.known,
    h.counted, h.cached⟩

/-- Without its reader the pipe is closed. -/
theorem Feeding.leave (h : Feeding F r id i s t) :
    t.opStep exactInt (.removeReader r.id) = { t with readers := [] }.closePipe id := by
  have hlive : ¬ t.aborted := by
    rw [h.running]
    exact Bool.false_ne_true
  have hnone : t.readers.filter (fun r' => r'.id ≠ r.id) = [] := by
    rw [h.readers]
    simp
  simp only [opStep, if_neg hlive, MsTask.removeReader, hnone, h.pipes, List.foldl_cons,
    List.foldl_nil]
  apply dispatchPipe_of_not_stays
  rintro - ⟨r', hr'⟩
  exact absurd hr'.reader List.not_mem_nil

/-- Where a piece is not cached nothing is reported. -/
theorem Feeding.reports (h : Feeding F r id i s t) {k : Nat} (hfree : k ∉ s)
    (hin : (k * 16384 : Int) < F)
    (hfirst : ∀ j ∈ s, k ≤ j → (∀ m ∈ s, k ≤ m → j ≤ m) → (j * 16384 : Int) ≤ F) :
    Reports exactInt t (k * 16384) 0 := by
  obtain ⟨first, hagree⟩ := h.agree
  have hle : ∀ j, pieceFrom exactInt j ≤ j * 16384 := fun j => (pieceFrom_exact j).le
  have hsize : 0 < t.storage.filesize := by
    rw [h.filesize]
    exact h.known
  have hpos : ((k * 16384 : Nat) : Int) ≤ t.storage.filesize := by
    rw [h.filesize]
    omega
  have hest : 0 < t.storage.estimateSize := by
    rw [hagree.estimate]
    exact hsize
  rcases cachedFrom_cases hle hest (by rw [hagree.estimate]; exact hpos) with
    ⟨hnone, -⟩ | ⟨k', i', hrun, -⟩
  · exact (reports_none hle hagree hsize hpos hnone).1
  · -- the first piece that is cached lies behind `k`
    have hbehind : k ≤ k' := by
      have := hrun.first
      omega
    have hk' : k' ∈ s := (h.cached k').mp (hrun.all k' (Nat.le_refl _) hrun.more)
    have hne : k ≠ k' := fun heq => hfree (heq ▸ hk')
    have hin' : (k' * 16384 : Int) ≤ F := by
      refine hfirst k' hk' hbehind fun m hm hle => ?_
      by_contra hlt
      have hbefore := hrun.before m (by omega) (by omega)
      rw [(h.cached m).mpr hm] at hbefore
      cases hbefore
    have hreports := reports_run hle hagree hsize hpos hrun (by
      rw [pieceFrom_exact, h.filesize]
      exact hin')
    rwa [MsTask.counted, if_neg (by rw [pieceFrom_exact]; omega)] at hreports

/-- **Another reader comes** in place of the first one, to a piece that is not
    cached: a pipe is opened there. -/
theorem Feeding.follows (h : Feeding F r id i s t) {r' : Reader} {k : Nat}
    (hat : r'.next = k * 16384) (hfree : k ∉ s) (hin : (k * 16384 : Int) < F)
    (hfirst : ∀ j ∈ s, k ≤ j → (∀ m ∈ s, k ≤ m → j ≤ m) → (j * 16384 : Int) ≤ F) :
    Feeding F r' (id + 1) k s
      (Runs.run (opStep exactInt) t [.removeReader r.id, .addReader r']) := by
  obtain ⟨first, hagree⟩ := h.agree
  have hagree := hagree.opStep (w := exactInt) (.removeReader r.id)
  have hafter := hagree.opStep (w := exactInt) (.addReader r')
  have hreports := h.reports hfree hin hfirst
  rw [Runs.run_cons, Runs.run_cons, Runs.run_nil]
  rw [h.leave] at hagree hafter ⊢
  -- the task as the reader is added
  let t₁ := { t with readers := [] }.closePipe id
  let t₂ : MsTask := { t₁ with readers := [r'] }
  have hpipes : t₁.pipes = [] := by
    show t.pipes.filter (· ≠ id) = []
    rw [h.pipes]
    simp
  have hlive : ¬ t₁.aborted := by
    show ¬ t.aborted
    rw [h.running]
    exact Bool.false_ne_true
  have hadd : t₁.opStep exactInt (.addReader r') = t₂.dispatchReader exactInt r' := by
    simp only [opStep, if_neg hlive]
    exact if_neg List.not_mem_nil
  have hagree₂ : SizesAgree t.opened t₂ :=
    (@sizesAgree_readerInvariant exactInt t.opened).readers t₁ [r'] hagree
  have hopens : t₂.dispatchReader exactInt r' = t₂.createPipeFor (k * 16384)
      (min (r'.next + maxCacheLen) F - (k * 16384 : Nat)) := by
    have hknown := h.known
    have hsize : t₂.storage.filesize = F := h.filesize
    have hborder : border (r'.next + 0) = k * 16384 := by
      rw [hat, border, msPieceUnitSize]
      omega
    rcases dispatchReader_reported hagree₂ h.running (n := 0) (by rw [hat]; exact hreports)
        (Or.inr ⟨by rw [hsize]; exact hknown, by rw [hsize, hat]; omega⟩) with
      ⟨henough, -⟩ | ⟨-, hopens⟩
    · rcases henough with hhalf | ⟨-, hrest⟩ | ⟨other, hother, -⟩
      · exact absurd hhalf (by decide)
      · rw [hsize, hat] at hrest
        omega
      · have hother : other ∈ t₁.pipes := hother
        rw [hpipes] at hother
        cases hother
    · rw [hopens, hsize, if_neg hknown.ne', hborder]
  rw [hadd, hopens] at hafter ⊢
  obtain ⟨url, hopened⟩ := createPipeFor_opened (t := t₂) h.code (k * 16384)
    (min (r'.next + maxCacheLen) F - (k * 16384 : Nat))
  have hnew : t₂.opened = id + 1 := h.opened
  refine ⟨(createPipeFor_aborted t₂ _ _).trans h.running, ?_, ⟨_, hafter⟩, ?_, ?_, ?_, ?_, ?_,
    h.known, ?_, ?_⟩
  · exact (createPipeFor_code t₂ _ _).trans h.code
  · exact hopened.readers
  · rw [hopened.pipes, ← hnew]
    show t₁.pipes ++ _ = _
    rw [hpipes]
    rfl
  · rw [hopened.opened, hnew]
  · rw [currentPos, ← hnew, hopened.new]
    rfl
  · rw [hopened.storage]
    exact h.filesize
  · rw [hopened.storage]
    exact h.counted
  · rw [hopened.storage]
    exact h.cached

end feeding

end MsTask

end Libms
