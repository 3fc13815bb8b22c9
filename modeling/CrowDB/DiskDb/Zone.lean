/-
  The in-memory state of a zone (`model/zone.rs`): the bitmap-scan allocator, the undo of
  a claim and the in-memory part of a compaction.

  A claim is one step here: bits that two claims race for are claimed by one of them, and
  the other goes on as if it had found them set.
-/
import Mathlib.Data.List.TakeWhile
import CrowDB.DiskDb.Bitmap

namespace CrowDB

open List

/-- `DdbZoneHealth`. -/
inductive DdbZoneHealth where
  | healthy
  | missing
  | bad
deriving DecidableEq

/-- `FreeBlockValue`. -/
structure FreeBlockValue where
  unitCount : ℕ
  previousOwner : ℕ
  freedTs : ℕ
deriving DecidableEq

/-- The durable snapshot of a zone; `crcOk` is `verify_checksum`. -/
structure ZoneValue where
  usageBitmap : UsageBitmap
  snapshotSlot : ℕ
  compactTs : ℕ
  crcOk : Bool
deriving DecidableEq

/-- `DdbZone`. -/
structure DdbZone where
  unitCapacity : ℕ
  health : DdbZoneHealth := .healthy
  usageBits : UsageBitmap := ∅
  lastPos64 : ℕ := 0
  usedCount : ℕ := 0
  snapshotSlot : ℕ := 0
  compactTs : ℕ := 0
deriving DecidableEq

/-- A `u32` that wraps. -/
def wrap32 (n : ℕ) : ℕ := n % 2 ^ 32

/-- A `u32` that saturates. -/
def saturate32 (n : ℕ) : ℕ := min n (2 ^ 32 - 1)

namespace DdbZone

variable (z : DdbZone)

/-- `allocatable`. -/
def allocatable : Bool := decide (z.health = .healthy) && decide (z.usedCount < z.unitCapacity)

/-- The words of the bitmap. -/
def wordCount : ℕ := (z.unitCapacity + 63) / 64

/-! ## Allocation -/

/-- Claim the range if all its bits are clear: the bitmap with the bits set. -/
def tryClaimRange (startBit unitCount : ℕ) : Option UsageBitmap :=
  if (List.range unitCount).all fun i => decide (startBit + i ∉ z.usageBits) then
    some ((List.range unitCount).foldl (fun b i => insert (startBit + i) b) z.usageBits)
  else none

/-- Try the clear bits of a word as the start, in order, as long as the range stays within the
    zone. -/
def claimInWord (wordIdx unitCount : ℕ) : Option (ℕ × UsageBitmap) :=
  let starts := ((List.range' (wordIdx * 64) 64).filter fun bit =>
    decide (bit ∉ z.usageBits)).takeWhile
    fun bit => decide (bit + unitCount ≤ z.unitCapacity)
  starts.findSome? fun bit => (z.tryClaimRange bit unitCount).map (bit, ·)

/-- Scan the words from the cursor on, around the bitmap: the zone and the offset of the
    claimed range. -/
def allocate (unitCount : ℕ) : Option (DdbZone × ℕ) :=
  if ¬ z.allocatable ∨ unitCount = 0 then none
  else if unitCount > z.unitCapacity then none
  else
    let words := (List.range z.wordCount).map fun i => (z.lastPos64 % z.wordCount + i) % z.wordCount
    words.findSome? fun word => (z.claimInWord word unitCount).map fun (offset, bits) =>
      ({ z with
          usageBits := bits
          lastPos64 := word
          usedCount := wrap32 (z.usedCount + unitCount) }, offset)

/-- Undo a claim, if all its bits are set. -/
def rollbackAllocate (unitOffset unitCount : ℕ) : DdbZone × Bool :=
  if unitCount = 0 ∨ z.unitCapacity < unitOffset + unitCount then (z, false)
  else if (List.range unitCount).all fun i => decide (unitOffset + i ∈ z.usageBits) then
    ({ z with
        usageBits := (List.range unitCount).foldl (fun b i => b.erase (unitOffset + i)) z.usageBits
        usedCount := wrap32 (z.usedCount + 2 ^ 32 - unitCount) }, true)
  else (z, false)

/-! ## Compaction -/

variable (freeRecords : List (ℕ × FreeBlockValue))

/-- The records above the watermark. -/
def newRecords : List (ℕ × FreeBlockValue) :=
  freeRecords.filter fun free => decide (z.compactTs < free.2.freedTs)

/-- Clear the ranges of the new records, count the bits again and advance the watermark. -/
def compactZoneInner : DdbZone :=
  let new := z.newRecords freeRecords
  let bits := new.foldl (fun b free => (b.rangeClear free.1 free.2.unitCount).1) z.usageBits
  { z with
    usageBits := bits
    usedCount := saturate32 bits.countSet
    compactTs := max z.compactTs ((new.map fun free => free.2.freedTs).foldl max 0) }

/-- `to_zone_value`. -/
def toZoneValue : ZoneValue := ⟨z.usageBits, z.snapshotSlot, z.compactTs, true⟩

/-! ## What they do to the bitmap -/

variable {z} {z' : DdbZone} {startBit unitCount unitOffset : ℕ} {offset : ℕ} {bits : UsageBitmap}
  {s : Finset ℕ}

theorem tryClaimRange_eq (z : DdbZone) (startBit unitCount : ℕ) : z.tryClaimRange startBit unitCount =
    if Disjoint (units startBit unitCount) z.usageBits then some
      (z.usageBits ∪ units startBit unitCount) else none := by
  have hclear : ((range unitCount).all fun i => decide (startBit + i ∉ z.usageBits)) = true ↔
      Disjoint (units startBit unitCount) z.usageBits := by
    simp only [all_eq_true, mem_range, decide_eq_true_eq, Finset.disjoint_left, mem_units]
    constructor
    · intro h u hu
      have := h (u - startBit) (by omega)
      rwa [Nat.add_sub_cancel' hu.1] at this
    · exact fun h i hi => h ⟨Nat.le_add_right .., by omega⟩
  rw [tryClaimRange, foldl_insert_eq]
  exact if_congr hclear rfl rfl

theorem tryClaimRange_spec (h : z.tryClaimRange startBit unitCount = some bits) :
    Disjoint (units startBit unitCount) z.usageBits ∧ bits = z.usageBits ∪
      units startBit unitCount := by
  rw [tryClaimRange_eq] at h
  obtain ⟨hclear, ⟨⟩⟩ := Option.ite_none_right_eq_some.mp h
  exact ⟨hclear, rfl⟩

theorem claimInWord_spec {wordIdx : ℕ}
    (h : z.claimInWord wordIdx unitCount = some (offset, bits)) :
    offset + unitCount ≤ z.unitCapacity ∧ Disjoint (units offset unitCount) z.usageBits ∧
      bits = z.usageBits ∪ units offset unitCount := by
  obtain ⟨bit, hbit, hclaim⟩ := exists_of_findSome?_eq_some h
  obtain ⟨bits', hbits, he⟩ := Option.map_eq_some_iff.mp hclaim
  cases he
  have hcap := mem_takeWhile_imp hbit
  exact ⟨of_decide_eq_true hcap, tryClaimRange_spec hbits⟩

/-- **A claim** takes at least one unit, within the zone, all of them clear, and sets
    them. -/
theorem allocate_spec (h : z.allocate unitCount = some (z', offset)) :
    0 < unitCount ∧ offset + unitCount ≤ z.unitCapacity ∧
      Disjoint (units offset unitCount) z.usageBits ∧
      z'.usageBits = z.usageBits ∪ units offset unitCount := by
  unfold allocate at h
  split at h
  · cases h
  · rename_i hne
    push Not at hne
    split at h
    · cases h
    · obtain ⟨word, -, hword⟩ := exists_of_findSome?_eq_some h
      obtain ⟨⟨offset', bits⟩, hclaim, he⟩ := Option.map_eq_some_iff.mp hword
      cases he
      obtain ⟨h1, h2, h3⟩ := claimInWord_spec hclaim
      exact ⟨Nat.pos_of_ne_zero hne.2, h1, h2, h3⟩

theorem allocate_compactTs (h : z.allocate unitCount = some (z', offset)) :
    z'.compactTs = z.compactTs := by
  unfold allocate at h
  split_ifs at h
  obtain ⟨word, -, hword⟩ := exists_of_findSome?_eq_some h
  obtain ⟨⟨offset', bits⟩, -, he⟩ := Option.map_eq_some_iff.mp hword
  cases he
  rfl

theorem rollbackAllocate_compactTs (z : DdbZone) (unitOffset unitCount : ℕ) :
    (z.rollbackAllocate unitOffset unitCount).1.compactTs = z.compactTs := by
  unfold rollbackAllocate
  split_ifs <;> rfl

theorem rollbackAllocate_bits (z : DdbZone) (unitOffset unitCount : ℕ) :
    z.usageBits \ units unitOffset unitCount ⊆
      (z.rollbackAllocate unitOffset unitCount).1.usageBits := by
  unfold rollbackAllocate
  split
  · exact Finset.sdiff_subset
  · split
    · rw [foldl_erase_eq]
    · exact Finset.sdiff_subset

theorem foldl_rangeClear_subset {b : UsageBitmap} {new : List (ℕ × FreeBlockValue)}
    (hs : s ⊆ b) (hd : ∀ free ∈ new, Disjoint (units free.1 free.2.unitCount) s) :
    s ⊆ new.foldl (fun b free => (UsageBitmap.rangeClear b free.1 free.2.unitCount).1) b := by
  induction new generalizing b with
  | nil => exact hs
  | cons free _ ih =>
    exact ih (UsageBitmap.subset_rangeClear hs (hd free (by simp))) fun f hf => hd f (by simp [hf])

/-- **A compaction clears units of the free records only.** -/
theorem compactZoneInner_bits {freeRecords : List (ℕ × FreeBlockValue)}
    (hs : s ⊆ z.usageBits) (hd : ∀ free ∈ freeRecords, Disjoint (units free.1 free.2.unitCount) s) :
    s ⊆ (z.compactZoneInner freeRecords).usageBits :=
  foldl_rangeClear_subset hs fun free hf => hd free (mem_of_mem_filter hf)

end DdbZone

end CrowDB
