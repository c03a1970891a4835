import Mathlib
import Libms.Framework.Runs
import Libms.Storage.ReadWrite
import Libms.Storage.Eviction

/-! # Calls on a memory storage

    The operations of `ms_istorage` that change a memory storage, in any
    order and with any arguments. Offsets are exact integers.

    * `call`: one operation, `none` when an assert of it fails.
    * `Reachable`: what a storage may look like after any number of calls.
    * `InFile`: the calls that write inside a file of known size and evict,
      and leave the size alone. -/

namespace Libms

open Runs

/-- The operations of the interface that change the storage. -/
inductive StorageCall where
  | setFilesize (filesize : Int)
  | setContentSize (pos size : Int)
  | write (buf : List UInt8) (pos : Int)
  | clearBufferFor (pos : Int) (len : Nat) (holdPos : List Int)

namespace MemStorage

/-- One operation; `none` when an assert fails. -/
def call (st : MemStorage) : StorageCall → Option MemStorage
  | .setFilesize filesize => st.setFilesize filesize
  | .setContentSize pos size => st.setContentSize pos size
  | .write buf pos => (st.storageWrite buf pos).map Prod.fst
  | .clearBufferFor pos len holdPos => some (st.clearBufferFor exactInt holdPos pos len)

/-- The storage after a call. No call follows one whose assert failed, so
    what is left then does not matter. -/
def step (st : MemStorage) (c : StorageCall) : MemStorage := (st.call c).getD st

/-- The storages that calls lead to. -/
def Reachable (st : MemStorage) : Prop :=
  ∃ calls, run step msMemStorageOpen calls = st

/-- The calls on a storage of size `F`: writes inside the file that meet the
    asserts, and evictions with any arguments. -/
def InFile (F : Int) (st : MemStorage) : StorageCall → Prop
  | .write buf pos => 0 ≤ pos ∧ pos + buf.length ≤ F ∧ st.WriteAligned pos buf.length
  | .clearBufferFor _ _ _ => True
  | .setFilesize _ | .setContentSize _ _ => False

/-- A file of three bytes, none cached. -/
def threeBytes : MemStorage where
  filesize := 3
  estimateSize := 3
  completedSize := 0
  blocks := [none]
  sized := by decide
  known := fun _ => rfl

section calls

variable {st st' : MemStorage} {c : StorageCall}

theorem step_of_call (h : st.call c = some st') : st.step c = st' := by
  rw [step, h]
  rfl

/-- A write that meets the asserts inside the estimated size. -/
theorem call_write {buf : List UInt8} {pos : Nat} (haligned : st.WriteAligned pos buf.length)
    (hfits : (pos : Int) + buf.length ≤ st.estimateSize) :
    ∃ st', st.call (.write buf pos) = some st' ∧ Written buf pos st st' := by
  obtain ⟨st', hst', hwritten⟩ := storageWrite_spec haligned hfits
  refine ⟨st', ?_, hwritten⟩
  rw [call, hst']
  rfl

theorem reachable_open : msMemStorageOpen.Reachable := ⟨[], rfl⟩

theorem Reachable.call (hst : st.Reachable) (h : st.call c = some st') : st'.Reachable := by
  obtain ⟨calls, rfl⟩ := hst
  refine ⟨calls ++ [c], ?_⟩
  rw [run_snoc]
  exact step_of_call h

/-- What every call keeps holds of every storage that calls lead to. -/
theorem Reachable.invariant {P : MemStorage → Prop} (hopen : P msMemStorageOpen)
    (hcall : ∀ st st' c, P st → st.call c = some st' → P st') (hst : st.Reachable) : P st := by
  obtain ⟨calls, rfl⟩ := hst
  apply run_preserves _ hopen
  intro st c hP
  unfold step
  cases h : st.call c with
  | none => exact hP
  | some st' => exact hcall st st' c hP h

end calls

end MemStorage

end Libms
