import Mathlib
import Libms.Pipe.Reassembly

/-! # Where the data of a response belongs

    A response carries the bytes of the resource from some offset on: all of
    them for a 200, the range of its Content-Range for a 206. The handler
    goes by the position the pipe asked for, and never looks at that offset.

    * `responseStart`, `Carries`: what a response says and what it carries.
    * `offsets_iff`: the data is handed on at the offsets it comes from iff
      the response starts at `req_pos`, or the resource is the same at both
      places as far as data is handed on.
    * `offsets_ignored`: a 200 to a pipe in the middle of the file. -/

namespace Libms

open Rechunk

variable {σ : Type*}

/-- The offset of the first byte of the body: the start of the resource for
    a 200, the one that Content-Range names for a 206. -/
def responseStart (hm : HttpMessage) : Option Int :=
  if hm.respCode = 200 then some 0
  else (mgGetHttpHeader hm "Content-Range").map fun range => (httpParseContentRange range).1

/-- The response with the headers of `hm` starts at `start`, and the chunks
    are bytes of the resource from there on. -/
structure Carries (resource : Nat → UInt8) (start : Nat) (hm : HttpMessage)
    (msgs : List HttpMessage) : Prop where
  header : responseStart hm = some (start : Int)
  bytes : wholeBody msgs = (List.range (wholeBody msgs).length).map fun i => resource (start + i)

/-- The resource is the same at two places for `n` bytes. -/
def SameBytes (resource : Nat → UInt8) (start pos n : Nat) : Prop :=
  ∀ i < n, resource (start + i) = resource (pos + i)

/-- Every `on_recv` hands on the bytes of the resource at its offsets. -/
def AtOwnOffsets (resource : Nat → UInt8) (log : List CallRecord) : Prop :=
  ∀ d ∈ received log, ∀ i < d.bytes.length, d.bytes[i]? = some (resource (d.start + i))

/-- Deliveries that follow each other are at their offsets iff their payload is. -/
theorem atOwnOffsets_iff {resource : Nat → UInt8} {log : List CallRecord} {pos : Nat}
    (h : Contiguous pos (received log)) :
    AtOwnOffsets resource log ↔
      ∀ i < (payload (received log)).length,
        (payload (received log))[i]? = some (resource (pos + i)) := by
  unfold AtOwnOffsets
  generalize received log = ds at h
  -- the payload is cut at the deliveries, from the front
  induction ds generalizing pos with
  | nil => simp
  | cons d ds ih =>
    obtain ⟨hstart, hrest⟩ := h
    constructor
    · intro hall i hi
      rw [payload_cons] at hi ⊢
      by_cases hd : i < d.bytes.length
      · rw [List.getElem?_append_left hd, hall d (by simp) i hd, hstart]
      · rw [List.length_append] at hi
        have hlater := (ih hrest).mp (fun e he => hall e (by simp [he])) (i - d.bytes.length)
          (by omega)
        rw [List.getElem?_append_right (by omega), hlater,
          show pos + d.bytes.length + (i - d.bytes.length) = pos + i by omega]
    · intro hall
      have hhead : ∀ i < d.bytes.length, d.bytes[i]? = some (resource (d.start + i)) := by
        intro i hi
        have := hall i (by rw [payload_cons, List.length_append]; omega)
        rwa [payload_cons, List.getElem?_append_left hi, ← hstart] at this
      have htail := (ih hrest).mpr fun i hi => by
        have := hall (d.bytes.length + i) (by rw [payload_cons, List.length_append]; omega)
        rwa [payload_cons, List.getElem?_append_right (by omega), Nat.add_sub_cancel_left,
          ← Nat.add_assoc] at this
      intro e he
      rcases List.mem_cons.mp he with rfl | he
      · exact hhead
      · exact htail e he

/-- A start of what a response carries is at the offsets from its start on. -/
theorem carries_payload {resource : Nat → UInt8} {start i : Nat} {hm : HttpMessage}
    {msgs : List HttpMessage} {bytes : List UInt8} (hcarries : Carries resource start hm msgs)
    (hle : bytes <+: wholeBody msgs) (hi : i < bytes.length) :
    bytes[i]? = some (resource (start + i)) := by
  obtain ⟨rest, hrest⟩ := hle
  have hlen : i < (wholeBody msgs).length := by
    rw [← hrest, List.length_append]
    omega
  have hbyte := congrArg (fun l => l[i]?) hcarries.bytes
  simp only [List.getElem?_map, List.getElem?_range hlen, Option.map_some] at hbyte
  rw [← hbyte, ← hrest, List.getElem?_append_left hi]

/-- **Offsets.** A response that the handler accepts and that starts at
    `start` is handed on at its own offsets iff `start` is `req_pos`, or the
    resource has the same bytes at both places as far as data is handed on.
    How far that is depends on the lengths of the chunks that arrive while
    the pipe is open. -/
theorem offsets_iff (o : PipeOwner σ) (s : σ) (url : List Char) (pos : Nat) (len filesize : Int)
    (resource : Nat → UInt8) (start : Nat) (hm : HttpMessage) (msgs : List HttpMessage)
    (hcodes : ∀ m ∈ hm :: msgs, Accepted m)
    (hsize : o.getFilesize (o.call s (openPipe s url pos len).2 (.onHeader hm)).1 = filesize)
    (hgiven : SizesGiven filesize (openPipe s url pos len).2.len hm)
    (hcarries : Carries resource start hm (hm :: msgs)) :
    let x := openPipe s url pos len
    let stop := pos + bodyLength filesize x.2.len hm
    let sizes := (handled o.recorded (hm :: msgs) x).map fun m => m.body.length
    AtOwnOffsets resource (runChunks o.recorded (hm :: msgs) x).1.2 ↔
      start = pos ∨ SameBytes resource start pos (delivered 16384 stop pos 0 sizes - pos) := by
  intro x stop sizes
  obtain ⟨hlive, hheader⟩ := @chunkHeader_sizes _ o.recorded hm x filesize rfl rfl hsize hgiven
  -- the chunk events are a run of the reblocker from `pos` on
  obtain ⟨ds, hds, _, hrun⟩ := @chunks_run σ o hm msgs x
    (msHttpPipeCreate_fresh url pos len) rfl hcodes hlive
  have hreq : x.2.reqPos = pos := rfl
  rw [hreq, hheader] at hrun
  have hcont := hrun.contiguous
  have hcount := hrun.pos_eq
  have hreached := hrun.delivered_eq
  have hpre := hrun.payload_le
  rw [List.map_map] at hreached
  rw [← hds] at hcont hcount hpre
  simp only [List.length_nil, Function.comp_def] at hreached
  -- how far data was handed on follows from the lengths alone
  have hdelivered : delivered 16384 stop pos 0 sizes - pos =
      (payload (received (runChunks o.recorded (hm :: msgs) x).1.2)).length := by
    have hsizes : delivered 16384 stop pos 0 sizes =
        (stream (runChunks o.recorded (hm :: msgs) x).2).pos := hreached.symm
    rw [hsizes, hcount]
    show pos + _ - pos = _
    omega
  -- what was handed on are the bytes of the response
  have hbytes : ∀ i < (payload (received (runChunks o.recorded (hm :: msgs) x).1.2)).length,
      (payload (received (runChunks o.recorded (hm :: msgs) x).1.2))[i]? =
        some (resource (start + i)) := by
    intro i hi
    exact carries_payload hcarries (hpre.trans (handled_flatten_le _ _)) hi
  rw [atOwnOffsets_iff hcont, hdelivered]
  constructor
  · intro hall
    right
    intro i hi
    have h₁ := hbytes i hi
    rw [hall i hi] at h₁
    exact (Option.some.inj h₁).symm
  · intro hsame i hi
    rw [hbytes i hi]
    rcases hsame with rfl | hsame
    · rfl
    · rw [hsame i hi]

/-- A resource whose first byte differs from all others. -/
def firstDiffers : Nat → UInt8 := fun i => if i = 0 then 7 else 9

/-- The condition at a 200 to a pipe that asked for the second piece. -/
theorem offsets_iff_second_piece :
    AtOwnOffsets firstDiffers
        (runChunks (idleOwner 16385).recorded [⟨200, [], [7]⟩] (openPipe () [] 16384 1)).1.2 ↔
      0 = 16384 ∨ SameBytes firstDiffers 0 16384
        (delivered 16384
          ((16384 : Nat) + bodyLength 16385 (openPipe () [] 16384 1).2.len ⟨200, [], [7]⟩) 16384 0
          ((handled (idleOwner 16385).recorded [⟨200, [], [7]⟩] (openPipe () [] 16384 1)).map
            fun m => m.body.length) - 16384) :=
  offsets_iff (idleOwner 16385) () [] 16384 1 16385 firstDiffers 0 ⟨200, [], [7]⟩ []
    (by simp [Accepted]) rfl (Or.inl ⟨by decide, by decide⟩) ⟨rfl, rfl⟩

/-- The first byte of the file, which a 200 starts with, is handed on at
    offset 16384. -/
theorem offsets_ignored :
    Carries firstDiffers 0 ⟨200, [], [7]⟩ [⟨200, [], [7]⟩] ∧
      ¬ AtOwnOffsets firstDiffers
        (runChunks (idleOwner 16385).recorded [⟨200, [], [7]⟩] (openPipe () [] 16384 1)).1.2 := by
  have hrecv : received
      (runChunks (idleOwner 16385).recorded [⟨200, [], [7]⟩] (openPipe () [] 16384 1)).1.2 =
        [⟨16384, [7]⟩] := by rfl
  refine ⟨⟨rfl, rfl⟩, fun h => ?_⟩
  have hbyte := h ⟨16384, [7]⟩ (by rw [hrecv]; simp) 0 (by decide)
  exact absurd hbyte (by decide)

end Libms
