import Mathlib

/-! # Files of bytes

    A regular file that does not fail, as `pwrite` and `pread` see it: a
    list of bytes that grows on a write behind its end. What lies between
    the old end and the first byte written is read as zero.

    * `pwrite`, `pread`: the two calls. The buffer of a write is memory, of
      which the call takes as many bytes as it is told.
    * `pwrite_inside`, `pwrite_outside`, `pwrite_source`: what a file holds
      after a write.
    * `pread_eq`: what a read gets. -/

namespace PosixFile

variable {β : Type*}

/-- `pwrite(fd, buf, nbyte, offset)` -/
def pwrite [Zero β] (file : List β) (buf : Nat → β) (nbyte offset : Nat) : List β :=
  if nbyte = 0 then file
  else
    (List.range (max file.length (offset + nbyte))).map fun i =>
      if offset ≤ i ∧ i < offset + nbyte then buf (i - offset) else file.getD i 0

/-- `pread(fd, buf, nbyte, offset)` -/
def pread (file : List β) (nbyte offset : Nat) : List β := (file.drop offset).take nbyte

section write

variable [Zero β] {file : List β} {buf : Nat → β} {nbyte offset i : Nat}

theorem pwrite_getElem? (hn : nbyte ≠ 0) (hi : i < max file.length (offset + nbyte)) :
    (pwrite file buf nbyte offset)[i]? =
      some (if offset ≤ i ∧ i < offset + nbyte then buf (i - offset) else file.getD i 0) := by
  rw [pwrite, if_neg hn, List.getElem?_map, List.getElem?_range hi]
  rfl

/-- The bytes that were written. -/
theorem pwrite_inside (h₁ : offset ≤ i) (h₂ : i < offset + nbyte) :
    (pwrite file buf nbyte offset)[i]? = some (buf (i - offset)) := by
  rw [pwrite_getElem? (by omega) (by omega), if_pos ⟨h₁, h₂⟩]

/-- The other bytes of the file stay. -/
theorem pwrite_outside {b : β} (hb : file[i]? = some b)
    (hout : i < offset ∨ offset + nbyte ≤ i) : (pwrite file buf nbyte offset)[i]? = some b := by
  by_cases hn : nbyte = 0
  · rw [pwrite, if_pos hn]
    exact hb
  · have hi : i < file.length := by
      by_contra hge
      rw [List.getElem?_eq_none (by omega)] at hb
      cases hb
    rw [pwrite_getElem? hn (by omega), if_neg (by omega), List.getD_eq_getElem?_getD, hb]
    rfl

/-- Where a byte of the file comes from. -/
theorem pwrite_source {b : β} (hb : (pwrite file buf nbyte offset)[i]? = some b) :
    (offset ≤ i ∧ i < offset + nbyte ∧ b = buf (i - offset)) ∨ b = file.getD i 0 := by
  by_cases hn : nbyte = 0
  · right
    rw [pwrite, if_pos hn] at hb
    rw [List.getD_eq_getElem?_getD, hb]
    rfl
  · have hi : i < max file.length (offset + nbyte) := by
      by_contra hge
      rw [pwrite, if_neg hn, List.getElem?_eq_none (by simpa using hge)] at hb
      cases hb
    rw [pwrite_getElem? hn hi] at hb
    split at hb
    · rename_i hin
      exact Or.inl ⟨hin.1, hin.2, (Option.some.inj hb).symm⟩
    · exact Or.inr (Option.some.inj hb).symm

end write

section read

variable {file : List β} {nbyte offset : Nat}

theorem pread_getElem? {i : Nat} (hi : i < nbyte) :
    (pread file nbyte offset)[i]? = file[offset + i]? := by
  rw [pread, List.getElem?_take_of_lt hi, List.getElem?_drop]

/-- A read of bytes that are all there. -/
theorem pread_eq {bytes : List β} (hlen : bytes.length = nbyte)
    (h : ∀ i < nbyte, bytes[i]? = file[offset + i]?) : pread file nbyte offset = bytes := by
  apply List.ext_getElem?
  intro i
  by_cases hi : i < nbyte
  · rw [pread_getElem? hi, h i hi]
  · have hshort : (pread file nbyte offset).length ≤ nbyte := by
      rw [pread, List.length_take]
      exact min_le_left _ _
    rw [List.getElem?_eq_none (by omega), List.getElem?_eq_none (by omega)]

end read

end PosixFile
