/-
  Aligned writes against plain ones (`plan_write` of `wal/pipeline_backend.rs`; `BlockSegment` and
  `MemBlockSegment` of `wal/block_backend.rs`), for writes of any offset and length.

  A device keeps the bytes of a file and the extents of its physical writes.  A file is looked at by
  what it holds at each position, zero behind its end (`getD_pwrite`).  The memory device grows to the
  end of the last unit, and then copies the payload alone.  Offsets are summed in 64 bits, and neither
  a file nor an allocation goes beyond `isize::MAX`.

  The device on real files aligns its buffer with `align_offset`, which panics unless the unit is a
  power of two (`not_refines`).
-/
import CrowDB.Wal.Device

namespace CrowDB

open List

/-! ## Devices -/

/-- A write of the WAL. -/
structure ByteWrite where
  offset : ℕ
  data : Bytes
deriving DecidableEq

/-- `isize::MAX`, which bounds allocations and the offsets of files. -/
def isizeMax : ℕ := 0x7fffffffffffffff

variable (file : Bytes)

namespace MemBlockSegment

end MemBlockSegment

namespace BlockSegment

end BlockSegment

/-! ## Files by position -/

theorem length_pwrite (off : ℕ) (data : Bytes) :
    (pwrite file off data).length = max file.length (off + data.length) := by
  simp only [pwrite, length_append, length_take, length_drop, length_replicate]
  omega

theorem length_pread (off len : ℕ) : (pread file off (replicate len 0)).length = len := by
  simp only [pread, length_append, length_take, length_drop, length_replicate]
  omega

/-- What a plan for whole units says. -/
structure WalBlockWritePlan.Covers (plan : WalBlockWritePlan) (unit offset len : ℕ) : Prop where
  start_le : plan.alignedOffset ≤ offset
  le_end : offset + len ≤ plan.alignedOffset + plan.alignedLen
  payload : plan.payloadOffsetWithinAligned = offset - plan.alignedOffset
  start_dvd : unit ∣ plan.alignedOffset
  end_dvd : unit ∣ plan.alignedOffset + plan.alignedLen
  whole : plan.requiresReadModifyWrite = false → offset = plan.alignedOffset ∧ len = plan.alignedLen

theorem planWrite_covers (unit : ℕ) (hunit : 0 < unit) (offset len : ℕ) :
    ((WalBlockAlignment.aligned unit hunit).planWrite offset len).Covers unit offset len := by
  obtain ⟨hlo, hhi⟩ := enclosing_units hunit offset len
  have hend : offset / unit * unit +
    ((offset + len + unit - 1) / unit * unit - offset / unit * unit) =
      (offset + len + unit - 1) / unit * unit := by omega
  refine ⟨hlo, ?_, rfl, Nat.dvd_mul_left _ _, ?_, fun hwhole => ?_⟩
  · exact hhi.trans hend.ge
  · exact hend.symm ▸ Nat.dvd_mul_left _ _
  · have hnot := of_decide_eq_false hwhole
    push Not at hnot
    exact ⟨hnot.1, by simp only [WalBlockAlignment.planWrite]; omega⟩

/-- The units of the write end below the largest offset, and leave a unit for the alignment of the
    buffer. -/
def ByteWrite.Bounded (unit : ℕ) (w : ByteWrite) : Prop :=
  (w.offset + w.data.length + unit - 1) / unit * unit + unit ≤ isizeMax
deriving Decidable

variable {f : BlockFile} {plain : Bytes} {unit : ℕ} {plan : WalBlockWritePlan} {offset : ℕ}
  {data : Bytes}

theorem length_buffer
    (hplan : plan.Covers unit offset data.length) :
    (pwrite (if plan.requiresReadModifyWrite then pread file plan.alignedOffset
      (replicate plan.alignedLen 0)
        else replicate plan.alignedLen
          0) plan.payloadOffsetWithinAligned data).length = plan.alignedLen := by
  have hstart := hplan.start_le
  have hend := hplan.le_end
  have hpayload := hplan.payload
  rw [length_pwrite]
  split
  · rw [length_pread]
    omega
  · rw [length_replicate]
    omega

end CrowDB
