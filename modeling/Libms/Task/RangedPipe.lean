import Mathlib
import Libms.Pipe.Reassembly
import Libms.Task.Dispatch

/-! # Ranged pipes and the cache

    `dispatch_reader` asks for `end - pos` bytes from a piece border on, and
    `pipe_connect` writes `pos + len` as the last byte of the range, which is
    one byte more. At the end of the file the server leaves that byte out.
    Before it, the pipe is answered with a byte it does not count on, and
    what it holds when it has `len` bytes is flushed whatever its length.

    * `rangeHeader_asked`: what the header line asks for.
    * `ranged_pipe_agrees_iff`: pipe and cache agree iff the pipe was opened
      for the rest of the file.
    * `ranged_pipe_flushes`: an on_recv that the storage refuses. -/

namespace Libms

open Rechunk Text

variable {σ : Type*}

/-! ## The header line -/

/-- The numbers in a Range header line. -/
def rangeAsked (line : List Char) : List Int :=
  scanf (lits "Range: bytes=".toList ++ [.int, .lit '-', .int]) line

/-- The bytes of a file of that size that a server answers a Range header
    with: the last one is included, and there is none behind the file. -/
def bytesAsked (filesize : Int) (line : List Char) : Int :=
  match rangeAsked line with
  | [first] => filesize - first
  | [first, last] => min last (filesize - 1) - first + 1
  | _ => filesize

/-- The last byte that `pipe_connect` asks for is `pos + len`. -/
theorem rangeHeader_asked {p : HttpPipe} (hlen : 0 < p.len) (hstop : p.pos + p.len < 2 ^ 63) :
    rangeAsked p.rangeHeader = [(p.pos : Int), p.pos + p.len] := by
  have hfirst := printInt_length (z := p.pos) (by omega) (by omega)
  have hlast := printInt_length (z := p.pos + p.len) (by omega) hstop
  have hname : "Range: bytes=".toList.length = 13 := rfl
  have htext : p.rangeHeader = "Range: bytes=".toList ++
      (printInt p.pos ++ ('-' :: (printInt (p.pos + p.len) ++ "\r\n".toList))) := by
    unfold HttpPipe.rangeHeader
    rw [if_pos hlen, snprintf_of_lt]
    · simp only [List.append_assoc]
      rfl
    · simp only [List.length_append, hname]
      show _ + 1 + _ + 2 < 128
      omega
  rw [rangeAsked, htext, scanf_lits,
    scanf_int (by omega) (by omega) _ (noDigitNext_cons (by decide)), scanf_lit]
  congr 1
  exact scanf_int (by omega) hstop [] (noDigitNext_cons (by decide))

/-! ## Agreement -/

/-- A ranged pipe and the cache agree: the server is asked for `len` bytes
    of the file by the header line, and in the run of the pipe that ended in
    `x` every `on_recv` met the asserts of `storage_write`, and no assert of
    the pipe failed. -/
structure AgreesWithCache (st : MemStorage) (line : List Char) (len : Int)
    (x : (σ × List CallRecord) × HttpPipe) : Prop where
  asked : bytesAsked st.filesize line = len
  aligned : ∀ d ∈ received x.1.2, st.WriteAligned d.start d.bytes.length
  entry : x.2.aborted = false

/-- A pipe of a known range goes by the length it was opened with. -/
theorem ranged_run {o : PipeOwner σ} {s : σ} (url : List Char) {pos : Nat} {len filesize : Int}
    {hm : HttpMessage} {msgs : List HttpMessage} (hlen : 0 < len) (hfilesize : 0 < filesize)
    (hcodes : ∀ m ∈ hm :: msgs, Accepted m)
    (hsize : o.getFilesize (o.call s (openPipe s url pos len).2 (.onHeader hm)).1 = filesize) :
    let x := runChunks o.recorded (hm :: msgs) (openPipe s url pos len)
    Rechunk.Run 16384 (pos + len) ⟨pos, []⟩
      ((handled o.recorded (hm :: msgs) (openPipe s url pos len)).map HttpMessage.body)
      (received x.1.2) (stream x.2) x.2.aborted := by
  have hplen : (openPipe s url pos len).2.len = len := if_pos hlen
  obtain ⟨hlive, hheader⟩ := @chunkHeader_sizes _ o.recorded hm (openPipe s url pos len)
    filesize rfl rfl hsize (Or.inl ⟨by omega, by omega⟩)
  obtain ⟨ds, hds, _, hrun⟩ := @chunks_run σ o hm msgs (openPipe s url pos len)
    (msHttpPipeCreate_fresh url pos len) rfl hcodes hlive
  -- a known range is not taken from the header of the answer
  have hbody : bodyLength filesize (openPipe s url pos len).2.len hm = len := by
    unfold bodyLength
    rw [hplen, if_neg (by omega)]
  have hreq : (openPipe s url pos len).2.reqPos = pos := rfl
  rw [hheader, hbody, hreq, ← hds] at hrun
  exact hrun

/-- A pipe whose range ends before the file and within a piece hands a part
    of a piece on when a chunk ends where the range does, and the storage
    refuses it. -/
theorem ranged_pipe_flushes {st : MemStorage} {o : PipeOwner σ} {s : σ} {url : List Char}
    {pos : Nat} {len : Int} {hm : HttpMessage} {msgs : List HttpMessage}
    (hborder : pos % 16384 = 0) (hlen : 0 < len) (hpart : len % 16384 ≠ 0)
    (hknown : 0 < st.filesize) (hend : pos + len ≠ st.filesize)
    (hcodes : ∀ m ∈ hm :: msgs, Accepted m)
    (hsize : o.getFilesize (o.call s (openPipe s url pos len).2 (.onHeader hm)).1 = st.filesize)
    (hcut : (hm.body.length : Int) = len) :
    ∃ d ∈ received (runChunks o.recorded (hm :: msgs) (openPipe s url pos len)).1.2,
      ¬ st.WriteAligned d.start d.bytes.length := by
  have hrun := ranged_run url hlen hknown hcodes hsize
  have hfirst : (openPipe s url pos len).2.closing = false := rfl
  rw [handled, if_neg (by simp [hfirst]), List.map_cons] at hrun
  have hne : hm.body ≠ [] := by
    intro hempty
    rw [hempty, List.length_nil] at hcut
    omega
  obtain ⟨d, hd, hmod, hstop⟩ := hrun.exists_flush hborder
    (by simp only [List.length_nil]; omega) (by simp only [List.length_nil]; omega) hne
  refine ⟨d, hd, ?_⟩
  rw [MemStorage.writeAligned_iff, st.known hknown]
  rintro ⟨_, hunit | hunit⟩
  · omega
  · exact hmod hunit

/-- **Ranged pipes.** A pipe that `dispatch_reader` opens with a length on a
    file of known size, and any chunks of what the server answers the Range
    header with, whatever the owner does in between: pipe and cache agree
    iff the file ends within a cache length from the reader. -/
theorem ranged_pipe_agrees_iff (w : IntArith) (t : MsTask) (r : Reader) (pos : Nat) (len : Int)
    (hknown : 0 < t.storage.filesize) (hbig : t.storage.filesize < 2 ^ 63)
    (hdispatch : t.dispatchOf w r = .openPipe pos len) (hlen : 0 < len)
    (o : PipeOwner σ) (s : σ) (url : List Char) (hm : HttpMessage) (msgs : List HttpMessage)
    (hcodes : ∀ m ∈ hm :: msgs, Accepted m)
    (hsize : o.getFilesize (o.call s (openPipe s url pos len).2 (.onHeader hm)).1 =
      t.storage.filesize)
    (hserved : ((wholeBody (hm :: msgs)).length : Int) ≤
      bytesAsked t.storage.filesize (msHttpPipeCreate url pos len).rangeHeader) :
    AgreesWithCache t.storage (msHttpPipeCreate url pos len).rangeHeader len
        (runChunks o.recorded (hm :: msgs) (openPipe s url pos len)) ↔
      t.storage.filesize ≤ r.next + maxCacheLen := by
  obtain ⟨stop, hwanted, _, hmore, hleneq⟩ := MsTask.dispatchOf_openPipe hdispatch
  obtain ⟨hborder, hstop⟩ := MsTask.wantedRange_range hwanted
  have hestimate := t.storage.known hknown
  have hstoplen : pos + len = stop := by
    split at hleneq <;> omega
  have hplen : (msHttpPipeCreate url pos len).len = len := if_pos hlen
  have hasked : bytesAsked t.storage.filesize (msHttpPipeCreate url pos len).rangeHeader =
      min (pos + len) (t.storage.filesize - 1) - pos + 1 := by
    have hline := @rangeHeader_asked (msHttpPipeCreate url pos len) (by omega)
      (by rw [hplen]; show (pos : Int) + len < 2 ^ 63; omega)
    simp only [bytesAsked, hline, hplen]
    rfl
  have hrun := ranged_run url hlen hknown hcodes hsize
  constructor
  · intro h
    -- one byte too many is asked for unless the range ends with the file
    have := h.asked
    omega
  · intro hend
    -- the range goes to the end of the file, where the server stops too
    have hall : pos + len = t.storage.filesize := by omega
    have hsum : (((handled o.recorded (hm :: msgs) (openPipe s url pos len)).map
        HttpMessage.body).flatten.length : Int) ≤ len := by
      have := (handled_flatten_le (o := o.recorded) (hm :: msgs) (openPipe s url pos len)).length_le
      omega
    refine ⟨by omega, ?_, ?_⟩
    · intro d hd
      obtain ⟨hstart, hunit⟩ := hrun.aligned d hd
      rw [MemStorage.writeAligned_iff]
      refine ⟨by omega, ?_⟩
      rcases hunit with hunit | hend
      · exact Or.inr hunit
      · left
        omega
    · apply hrun.not_stuck
      · simp only [List.length_nil]
        omega
      · exact fun _ => hborder

/-- A task with a file of known size and a reader. -/
def oneReader (st : MemStorage) (pos : Nat) : MsTask :=
  { msTaskOpen ['u'] with
    storage := st
    readers := [⟨0, pos, 0⟩] }

/-- A file of two bytes, none cached. -/
def shortFile : MemStorage where
  filesize := 2
  estimateSize := 2
  completedSize := 0
  blocks := [none]
  sized := by decide
  known := fun _ => rfl

/-- A pipe for the two bytes, and their first as a chunk. -/
theorem ranged_pipe_agrees_iff_two :
    AgreesWithCache shortFile (msHttpPipeCreate ['u'] 0 2).rangeHeader 2
        (runChunks (MsTask.taskOwner exactInt (fun _ _ _ => []) 0).recorded [⟨206, [], [7]⟩]
          (openPipe (oneReader shortFile 0) ['u'] 0 2)) ↔
      (2 : Int) ≤ (⟨0, 0, 0⟩ : Reader).next + maxCacheLen :=
  ranged_pipe_agrees_iff exactInt (oneReader shortFile 0) ⟨0, 0, 0⟩ 0 2 (by decide) (by decide)
    rfl (by decide) (MsTask.taskOwner exactInt (fun _ _ _ => []) 0) (oneReader shortFile 0) ['u']
    ⟨206, [], [7]⟩ [] (by simp [Accepted]) rfl (by decide)

/-- A file of 30 MiB, none of it cached. -/
def longFile : MemStorage where
  filesize := 31457280
  estimateSize := 31457280
  completedSize := 0
  blocks := List.replicate 15 none
  sized := by decide
  known := fun _ => rfl

/-- As many bytes as a pipe for a reader at offset 100 of the long file
    counts on. -/
def rangeBody : List UInt8 := List.replicate 20971620 0

theorem rangeBody_length : rangeBody.length = 20971620 := List.length_replicate

/-- For a reader at offset 100 of the long file 20971620 bytes are wanted and
    20971621 asked for. When these arrive with a cut before the last one,
    the storage refuses what the pipe hands on. -/
theorem ranged_pipe_disagrees :
    let line := (msHttpPipeCreate ['u'] 0 20971620).rangeHeader
    let x := runChunks (idleOwner 31457280).recorded
      [⟨206, [], rangeBody⟩, ⟨206, [], [0]⟩] (openPipe () ['u'] 0 20971620)
    (oneReader longFile 100).dispatchOf exactInt ⟨0, 100, 0⟩ = .openPipe 0 20971620 ∧
      bytesAsked longFile.filesize line = 20971621 ∧
      (∃ d ∈ received x.1.2, ¬ longFile.WriteAligned d.start d.bytes.length) ∧
      ¬ AgreesWithCache longFile line 20971620 x := by
  have hasked : bytesAsked longFile.filesize (msHttpPipeCreate ['u'] 0 20971620).rangeHeader =
      20971621 := by decide
  have hcodes : ∀ m ∈ [⟨206, [], rangeBody⟩, ⟨206, [], [0]⟩], Accepted m := by
    intro m hm
    rcases List.mem_cons.mp hm with rfl | hm
    · exact Or.inr rfl
    · rw [List.mem_singleton.mp hm]
      exact Or.inr rfl
  have hcut : ((⟨206, [], rangeBody⟩ : HttpMessage).body.length : Int) = 20971620 := by
    rw [rangeBody_length]
    rfl
  have hflush := @ranged_pipe_flushes Unit longFile (idleOwner 31457280) () ['u'] 0 20971620
    ⟨206, [], rangeBody⟩ [⟨206, [], [0]⟩] (by decide) (by decide) (by decide) (by decide)
    (by decide) hcodes rfl hcut
  refine ⟨rfl, hasked, hflush, ?_⟩
  intro h
  have hsame := h.asked
  rw [hasked] at hsame
  exact absurd hsame (by decide)

end Libms
