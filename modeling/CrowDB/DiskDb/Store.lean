/-
  The durable state of a zone on its data group (`ddb_kv_client.rs`), and how a zone is
  loaded from it (`recovery/journal_replay.rs`, `recovery/full_scan.rs`, `load_disk_group`
  of `recovery.rs`).

  Every write is one batch at the next slot of the group, and the journal keeps the
  operations of the slots that are not trimmed.  A zone is loaded from its snapshot and
  the allocations after the snapshot slot; failing that, from the busy-block records;
  failing that too, it starts empty.
-/
import CrowDB.DiskDb.Zone
import CrowDB.Lib.RecordStore

namespace CrowDB

open Lib List

/-! ## Records and writes -/

/-- `CommitState`. -/
inductive CommitState where
  | tentative
  | committed
deriving DecidableEq

/-- `BusyBlockValue`. -/
structure BusyBlockValue where
  unitCount : ℕ
  ownerChunk : ℕ
  commitState : CommitState
deriving DecidableEq

/-- An operation on the busy-block or free-block record at an offset. -/
inductive JournalOp where
  | putBusy (offset : ℕ) (value : BusyBlockValue)
  | deleteBusy (offset : ℕ)
  | putFree (offset : ℕ) (value : FreeBlockValue)
  | deleteFree (offset : ℕ)
deriving DecidableEq

/-- The outcome of a write: it took effect or not, and reports an error or not. -/
inductive WriteOutcome where
  | ok
  | failed
  | lostReply
deriving DecidableEq

/-- The write takes effect. -/
def WriteOutcome.applies : WriteOutcome → Bool
  | .failed => false
  | _ => true

/-- The records of a zone and its journal. -/
structure ZoneStore where
  busy : RecordStore ℕ BusyBlockValue := .empty
  free : RecordStore ℕ FreeBlockValue := .empty
  zoneValue : Option ZoneValue := none
  journal : List (ℕ × JournalOp) := []
  /-- the applied frontier of the group -/
  applied : ℕ := 0
  /-- the first slot that the journal still has -/
  gcFloor : ℕ := 1
deriving DecidableEq

namespace ZoneStore

variable (s : ZoneStore)

/-- One operation of a batch. -/
def applyOp : JournalOp → ZoneStore
  | .putBusy offset value => { s with busy := s.busy.put offset value }
  | .deleteBusy offset => { s with busy := s.busy.delete offset }
  | .putFree offset value => { s with free := s.free.put offset value }
  | .deleteFree offset => { s with free := s.free.delete offset }

/-- The operations of a batch, in order, at the next slot. -/
def batchWrite (ops : List JournalOp) : ZoneStore := { ops.foldl applyOp s with
    journal := s.journal ++ ops.map (s.applied + 1, ·)
    applied := s.applied + 1 }

/-- `persist_busy_batch`. -/
def persistBusyBatch (records : List (ℕ × BusyBlockValue)) : ZoneStore :=
  s.batchWrite (records.flatMap fun r => [.putBusy r.1 r.2, .deleteFree r.1])

/-- `persist_free_batch`. -/
def persistFreeBatch (records : List (ℕ × FreeBlockValue)) : ZoneStore :=
  s.batchWrite (records.flatMap fun r => [.deleteBusy r.1, .putFree r.1 r.2])

/-- `compact_zone_batch`. -/
def compactZoneBatch (value : ZoneValue) (freeKeys : List ℕ) : ZoneStore :=
  { s.batchWrite (freeKeys.map .deleteFree) with zoneValue := some value }

/-- `put_zone`. -/
def putZone (value : ZoneValue) : ZoneStore := { s.batchWrite [] with zoneValue := some value }

/-- The operations from `minSlot` on; `none` when slots of them are trimmed. -/
def journalScan (minSlot : ℕ) : Option (List JournalOp) :=
  if minSlot < s.gcFloor then none
  else some ((s.journal.filter fun p => decide (minSlot ≤ p.1)).map Prod.snd)

/-- The journal is trimmed. -/
def trim (floor : ℕ) : ZoneStore :=
  let floor := max s.gcFloor (min floor (s.applied + 1))
  { s with gcFloor := floor, journal := s.journal.filter fun p => decide (floor ≤ p.1) }

end ZoneStore

/-! ## Loading -/

/-- Why a replay fails. -/
inductive ZoneLoadError where
  | snapshotCrcFail
  | journalScanGcGap
  | kv
deriving DecidableEq

/-- Which reads of a load succeed, and whether its task panics. -/
structure LoadReads where
  zoneValue : Bool := true
  journalBusy : Bool := true
  journalFree : Bool := true
  records : Bool := true
  appliedSlot : Bool := true
  panicked : Bool := false
deriving DecidableEq

/-- Only allocations are replayed; a freed block keeps its bits. -/
def replayBits (ops : List JournalOp) (b : UsageBitmap) : UsageBitmap :=
  ops.foldl (fun b op => match op with
    | .putBusy offset value => (b.rangeSet offset value.unitCount).1
    | _ => b) b

/-- The units that the replay counts, whether it could set them or not. -/
def replayCount (ops : List JournalOp) : ℕ := ops.foldl (fun n op => match op with
    | .putBusy _ value => n + value.unitCount
    | _ => n) 0

/-- The greatest timestamp of the free-block records in the journal. -/
def maxFreedTs (ops : List JournalOp) : ℕ := ops.foldl (fun n op => match op with
    | .putFree _ value => max n value.freedTs
    | _ => n) 0

/-- The units of all busy blocks. -/
def scanBits (records : List (ℕ × BusyBlockValue)) : UsageBitmap :=
  records.foldl (fun b r => (UsageBitmap.rangeSet b r.1 r.2.unitCount).1) ∅

namespace ZoneStore

/-- Bitmap, slot and watermark of the snapshot, if its checksum is right; none is an empty zone. -/
def snapshotBase (s : ZoneStore) : Option (UsageBitmap × ℕ × ℕ) :=
  match s.zoneValue with
  | none => some (∅, 0, 0)
  | some value => if value.crcOk then some (value.usageBitmap, value.snapshotSlot,
      value.compactTs) else none

/-- The bitmap of snapshot and journal, if both can be used. -/
def journalBits (s : ZoneStore) : Option UsageBitmap :=
  s.snapshotBase.bind fun (bits, slot, _) => (s.journalScan (slot + 1)).map (replayBits · bits)

variable (s : ZoneStore) (reads : LoadReads) (unitCapacity : ℕ)

/-- `load_zone_inner`: the zone, and the greatest free timestamp of the journal. -/
def loadZoneInner : Except ZoneLoadError (DdbZone × ℕ) :=
  if ¬ reads.zoneValue then .error .kv
  else match s.snapshotBase with
  | none => .error .snapshotCrcFail
  | some (bits, slot, compactTs) =>
    if ¬ reads.journalBusy then .error .kv
    else match s.journalScan (slot + 1) with
    | none => .error .journalScanGcGap
    | some ops =>
      if ¬ reads.journalFree then .error .kv
      else .ok ({
        unitCapacity
        usageBits := replayBits ops bits
        usedCount := saturate32 (bits.countSet + replayCount ops)
        snapshotSlot := slot
        compactTs }, maxFreedTs ops)

/-- The zone, and the store with the snapshot that is written if the applied slot is known. -/
def rebuildZoneBitmapFullScan (put : WriteOutcome) : Except ZoneLoadError (ZoneStore × DdbZone) :=
  if ¬ reads.records then .error .kv
  else
    let bits := scanBits s.busy.records
    let zone : DdbZone := {
      unitCapacity
      usageBits := bits
      usedCount := saturate32 bits.countSet }
    if reads.appliedSlot ∧ 0 < s.applied then
      let zone := { zone with snapshotSlot := s.applied }
      .ok (if put.applies then s.putZone zone.toZoneValue else s, zone)
    else .ok (s, zone)

/-- One zone of `load_disk_group`: store, zone and greatest free timestamp. -/
def loadZone (put : WriteOutcome) : ZoneStore × DdbZone × ℕ :=
  if reads.panicked then (s, { unitCapacity }, 0)
  else match s.loadZoneInner reads unitCapacity with
  | .ok (zone, ts) => (s, zone, ts)
  | .error _ =>
    match s.rebuildZoneBitmapFullScan reads unitCapacity put with
    | .ok (s, zone) => (s, zone, 0)
    | .error _ => (s, { unitCapacity }, 0)

/-- The load ends with an empty zone because its reads fail. -/
def loadsEmpty : Bool := reads.panicked ||
      (!(s.loadZoneInner reads unitCapacity).toBool && !reads.records)

end ZoneStore

/-! ## What a write does to the records -/

variable {ops : List JournalOp} {s : ZoneStore} {records : List (ℕ × BusyBlockValue)}
  {b : UsageBitmap}

namespace ZoneStore

theorem foldl_applyOp_frame (s : ZoneStore) (ops : List JournalOp) :
    (ops.foldl applyOp s).zoneValue = s.zoneValue ∧ (ops.foldl applyOp s).gcFloor = s.gcFloor := by
  induction ops generalizing s with
  | nil => exact ⟨rfl, rfl⟩
  | cons op _ ih =>
    obtain ⟨h1, h2⟩ := ih (s.applyOp op)
    rw [foldl_cons, h1, h2]
    cases op <;> exact ⟨rfl, rfl⟩

@[simp] theorem batchWrite_zoneValue : (s.batchWrite ops).zoneValue = s.zoneValue :=
  (s.foldl_applyOp_frame ops).1

@[simp] theorem batchWrite_gcFloor : (s.batchWrite ops).gcFloor = s.gcFloor :=
  (s.foldl_applyOp_frame ops).2

theorem batchWrite_snapshotBase : (s.batchWrite ops).snapshotBase = s.snapshotBase := by
  rw [snapshotBase, batchWrite_zoneValue]
  rfl

variable {p : ℕ × BusyBlockValue}

theorem mem_busy_batchWrite (h : p ∈ (s.batchWrite ops).busy.records) :
    p ∈ s.busy.records ∨ .putBusy p.1 p.2 ∈ ops := by
  have hfold : ∀ (ops : List JournalOp) (s : ZoneStore), p ∈ (ops.foldl applyOp s).busy.records →
      p ∈ s.busy.records ∨ .putBusy p.1 p.2 ∈ ops := by
    intro ops
    induction ops with
    | nil => exact fun s h => .inl h
    | cons op _ ih =>
      intro s h
      rcases ih _ h with h | h
      · cases op with
        | putBusy =>
          rcases RecordStore.mem_put.mp h with rfl | h
          · exact .inr (by simp)
          · exact .inl h.1
        | deleteBusy => exact .inl (RecordStore.mem_delete.mp h).1
        | putFree | deleteFree => exact .inl h
      · exact .inr (mem_cons_of_mem _ h)
  exact hfold ops s h

theorem mem_free_batchWrite {p : ℕ × FreeBlockValue} (h : p ∈ (s.batchWrite ops).free.records) :
    p ∈ s.free.records ∨ .putFree p.1 p.2 ∈ ops := by
  have hfold : ∀ (ops : List JournalOp) (s : ZoneStore), p ∈ (ops.foldl applyOp s).free.records →
      p ∈ s.free.records ∨ .putFree p.1 p.2 ∈ ops := by
    intro ops
    induction ops with
    | nil => exact fun s h => .inl h
    | cons op _ ih =>
      intro s h
      rcases ih _ h with h | h
      · cases op with
        | putFree =>
          rcases RecordStore.mem_put.mp h with rfl | h
          · exact .inr (by simp)
          · exact .inl h.1
        | deleteFree => exact .inl (RecordStore.mem_delete.mp h).1
        | putBusy | deleteBusy => exact .inl h
      · exact .inr (mem_cons_of_mem _ h)
  exact hfold ops s h

theorem mem_busy_persistBusyBatch
    (h : p ∈ (s.persistBusyBatch records).busy.records) : p ∈ s.busy.records ∨ p ∈ records := by
  rcases mem_busy_batchWrite h with h | h
  · exact .inl h
  · simp only [mem_flatMap, mem_cons, reduceCtorEq, JournalOp.putBusy.injEq, not_mem_nil,
      or_false] at h
    obtain ⟨r, hr, h1, h2⟩ := h
    rw [show p = r from Prod.ext h1 h2]
    exact .inr hr

theorem mem_free_persistBusyBatch {p : ℕ × FreeBlockValue}
    (h : p ∈ (s.persistBusyBatch records).free.records) : p ∈ s.free.records := by
  rcases mem_free_batchWrite h with h | h
  · exact h
  · simp at h

/-- The records of the batch replace those at their keys. -/
theorem mem_free_persistFreeBatch {records : List (ℕ × FreeBlockValue)} {p : ℕ × FreeBlockValue}
    (h : p ∈ (s.persistFreeBatch records).free.records) :
    (p ∈ s.free.records ∧ ∀ r ∈ records, r.1 ≠ p.1) ∨ p ∈ records := by
  have hfold : ∀ (records : List (ℕ × FreeBlockValue)) (s : ZoneStore),
      p ∈ ((records.flatMap fun r => [.deleteBusy r.1, .putFree r.1 r.2]).foldl applyOp
        s).free.records →
      (p ∈ s.free.records ∧ ∀ r ∈ records, r.1 ≠ p.1) ∨ p ∈ records := by
    intro records
    induction records with
    | nil => exact fun s h => .inl ⟨h, nofun⟩
    | cons r _ ih =>
      intro s h
      obtain ⟨h1, h2⟩ | h1 := ih _ h
      · obtain rfl | ⟨h3, h4⟩ := RecordStore.mem_put.mp h1
        · exact .inr mem_cons_self
        · exact .inl ⟨h3, forall_mem_cons.2 ⟨h4.symm, h2⟩⟩
      · exact .inr (mem_cons_of_mem _ h1)
  exact hfold records s h

theorem mem_busy_persistFreeBatch {records : List (ℕ × FreeBlockValue)}
    (h : p ∈ (s.persistFreeBatch records).busy.records) :
    p ∈ s.busy.records ∧ ∀ r ∈ records, r.1 ≠ p.1 := by
  have hfold : ∀ (records : List (ℕ × FreeBlockValue)) (s : ZoneStore),
      p ∈ ((records.flatMap fun r => [.deleteBusy r.1, .putFree r.1 r.2]).foldl applyOp
        s).busy.records →
      p ∈ s.busy.records ∧ ∀ r ∈ records, r.1 ≠ p.1 := by
    intro records
    induction records with
    | nil => exact fun s h => ⟨h, by simp⟩
    | cons _ _ ih =>
      intro s h
      obtain ⟨h1, h2⟩ := ih _ h
      obtain ⟨h3, h4⟩ := RecordStore.mem_delete.mp h1
      refine ⟨h3, fun r' hr' => ?_⟩
      rcases mem_cons.mp hr' with rfl | hr'
      · exact h4.symm
      · exact h2 r' hr'
  exact hfold records s h

variable (s)

theorem get_busy_persistBusyBatch (records : List (ℕ × BusyBlockValue)) (o : ℕ) :
    (o ∉ records.map Prod.fst ∧ (s.persistBusyBatch records).busy.get o = s.busy.get o) ∨
      ∃ value, (o, value) ∈ records ∧ (s.persistBusyBatch records).busy.get o = some value := by
  have hfold : ∀ (records : List (ℕ × BusyBlockValue)) (s : ZoneStore),
      let s' := (records.flatMap fun r => [.putBusy r.1 r.2, .deleteFree r.1]).foldl applyOp s
      (o ∉ records.map Prod.fst ∧ s'.busy.get o = s.busy.get o) ∨
        ∃ value, (o, value) ∈ records ∧ s'.busy.get o = some value := by
    intro records
    induction records with
    | nil => exact fun s => .inl ⟨by simp, rfl⟩
    | cons r _ ih =>
      intro s
      have hput : (([.putBusy r.1 r.2, .deleteFree r.1] : List JournalOp).foldl applyOp s).busy.get
        o =
          if o = r.1 then some r.2 else s.busy.get o := RecordStore.get_put o
      rcases ih (([.putBusy r.1 r.2, .deleteFree r.1] : List JournalOp).foldl applyOp s) with
        ⟨hnot, hget⟩ | ⟨value, hmem, hget⟩
      · by_cases ho : o = r.1
        · rw [hput, if_pos ho] at hget
          exact .inr ⟨r.2, by simp [ho], hget⟩
        · rw [hput, if_neg ho] at hget
          exact .inl ⟨by simp [ho, hnot], hget⟩
      · exact .inr ⟨value, mem_cons_of_mem _ hmem, hget⟩
  exact hfold records s

theorem get_busy_persistFreeBatch (records : List (ℕ × FreeBlockValue)) (o : ℕ) :
    (s.persistFreeBatch records).busy.get o =
      if o ∈ records.map Prod.fst then none else s.busy.get o := by
  have hfold : ∀ (records : List (ℕ × FreeBlockValue)) (s : ZoneStore),
      ((records.flatMap fun r => [.deleteBusy r.1, .putFree r.1 r.2]).foldl applyOp s).busy.get o =
        if o ∈ records.map Prod.fst then none else s.busy.get o := by
    intro records
    induction records with
    | nil => exact fun s => rfl
    | cons r _ ih =>
      intro s
      have hdelete : (([.deleteBusy r.1, .putFree r.1 r.2] : List JournalOp).foldl
        applyOp s).busy.get o =
          if o = r.1 then none else s.busy.get o := RecordStore.get_delete o
      rw [flatMap_cons, foldl_append, ih, hdelete, map_cons]
      by_cases ho : o = r.1
      · rw [if_pos ho, ite_self, if_pos (mem_cons.mpr (.inl ho))]
      · simp only [mem_cons, ho, false_or, if_false]
  exact hfold records s

theorem compactZoneBatch_busy (value : ZoneValue) (freeKeys : List ℕ) :
    (s.compactZoneBatch value freeKeys).busy = s.busy := by
  have hfold : ∀ (freeKeys : List ℕ) (s : ZoneStore),
      ((freeKeys.map JournalOp.deleteFree).foldl applyOp s).busy = s.busy := by
    intro freeKeys
    induction freeKeys with
    | nil => exact fun s => rfl
    | cons k _ ih => exact fun s => ih (s.applyOp (.deleteFree k))
  exact hfold freeKeys s

/-- The watermark of a loaded zone is that of the snapshot, or zero. -/
theorem loadZone_watermark (reads : LoadReads) (unitCapacity : ℕ) (put : WriteOutcome) :
    (s.loadZone reads unitCapacity put).1.free = s.free ∧
      (∀ base ∈ (s.loadZone reads unitCapacity put).1.snapshotBase, base ∈ s.snapshotBase ∨
        base.2.2 = 0) ∧
      ((s.loadZone reads unitCapacity put).2.1.compactTs = 0 ∨
        ∃ base ∈ s.snapshotBase, (s.loadZone reads unitCapacity put).2.1.compactTs = base.2.2) := by
  have hinner : ∀ p, s.loadZoneInner reads unitCapacity = .ok p →
      ∃ base ∈ s.snapshotBase, p.1.compactTs = base.2.2 := by
    intro p h
    unfold loadZoneInner at h
    split at h
    · cases h
    split at h
    · cases h
    · rename_i hbase
      split at h
      · cases h
      split at h
      · cases h
      split at h
      · cases h
      · cases h
        exact ⟨_, hbase, rfl⟩
  have hscan : ∀ p, s.rebuildZoneBitmapFullScan reads unitCapacity put = .ok p → p.1.free = s.free ∧
      (∀ base ∈ p.1.snapshotBase, base ∈ s.snapshotBase ∨ base.2.2 = 0) ∧ p.2.compactTs = 0 := by
    intro p h
    unfold rebuildZoneBitmapFullScan at h
    split_ifs at h
    · cases h
      exact ⟨rfl, fun base hmem => .inr (by cases hmem; rfl), rfl⟩
    · cases h
      exact ⟨rfl, fun base hmem => .inl hmem, rfl⟩
    · cases h
      exact ⟨rfl, fun base hmem => .inl hmem, rfl⟩
  simp only [loadZone]
  split
  · exact ⟨rfl, fun base hmem => .inl hmem, .inl rfl⟩
  · split
    · exact ⟨rfl, fun base hmem => .inl hmem, .inr (hinner _ ‹_›)⟩
    · split
      · exact ⟨(hscan _ ‹_›).1, (hscan _ ‹_›).2.1, .inl (hscan _ ‹_›).2.2⟩
      · exact ⟨rfl, fun base hmem => .inl hmem, .inl rfl⟩

theorem loadZone_busy (reads : LoadReads) (unitCapacity : ℕ) (put : WriteOutcome) :
    (s.loadZone reads unitCapacity put).1.busy = s.busy := by
  have hscan : ∀ s' z, s.rebuildZoneBitmapFullScan reads unitCapacity put = .ok (s', z) →
    s'.busy = s.busy := by
    intro s' z h
    unfold rebuildZoneBitmapFullScan at h
    split at h
    · cases h
    · split at h
      · cases h
        split <;> rfl
      · cases h
        rfl
  simp only [loadZone]
  split
  · rfl
  · split
    · rfl
    · split
      · exact hscan _ _ ‹_›
      · rfl

variable {s}

/-! ## What a write does to the bitmap of snapshot and journal -/

end ZoneStore

theorem replayBits_append (a ops : List JournalOp) (b : UsageBitmap) :
    replayBits (a ++ ops) b = replayBits ops (replayBits a b) := by
  rw [replayBits, foldl_append]
  rfl

theorem subset_replayBits (ops : List JournalOp) (b : UsageBitmap) : b ⊆ replayBits ops b := by
  induction ops generalizing b with
  | nil => exact Finset.Subset.refl b
  | cons op _ ih =>
    cases op with
    | putBusy => exact (UsageBitmap.subset_rangeSet b _ _).trans (ih _)
    | deleteBusy | putFree | deleteFree => exact ih b

theorem replayBits_eq_self
    (h : ∀ offset value, .putBusy offset value ∈ ops → units offset value.unitCount ⊆ b) :
    replayBits ops b = b := by
  induction ops with
  | nil => rfl
  | cons op _ ih =>
    have hrest := ih fun offset value hm => h offset value (by simp [hm])
    cases op with
    | putBusy offset value =>
      rw [replayBits, foldl_cons]
      dsimp only
      rw [UsageBitmap.rangeSet_of_subset (h offset value (by simp))]
      exact hrest
    | deleteBusy | putFree | deleteFree => exact hrest

theorem mem_foldl_rangeSet {u : ℕ}
    (hd : records.Pairwise fun p q =>
      Disjoint (units p.1 p.2.unitCount) (units q.1 q.2.unitCount))
    (hb : ∀ p ∈ records, Disjoint (units p.1 p.2.unitCount) b) :
    u ∈ records.foldl (fun b r => (UsageBitmap.rangeSet b r.1 r.2.unitCount).1) b ↔
      u ∈ b ∨ ∃ p ∈ records, u ∈ units p.1 p.2.unitCount := by
  induction records generalizing b with
  | nil => simp
  | cons p records ih =>
    rw [pairwise_cons] at hd
    have hrest : ∀ q ∈ records, Disjoint (units q.1 q.2.unitCount) (b ∪ units p.1 p.2.unitCount) :=
      fun q hq => Finset.disjoint_union_right.mpr ⟨hb q (by simp [hq]), (hd.1 q hq).symm⟩
    rw [foldl_cons, UsageBitmap.rangeSet_of_disjoint (hb p (by simp)), ih hd.2 hrest,
      Finset.mem_union, or_assoc, exists_mem_cons_iff]

theorem replayBits_persistBusy (records : List (ℕ × BusyBlockValue)) (b : UsageBitmap) :
    replayBits (records.flatMap fun r => [.putBusy r.1 r.2, .deleteFree r.1]) b =
      records.foldl (fun b r => (UsageBitmap.rangeSet b r.1 r.2.unitCount).1) b := by
  induction records generalizing b with
  | nil => rfl
  | cons _ _ ih =>
    rw [flatMap_cons, replayBits_append, ih]
    rfl

/-- **A full scan of disjoint records** sets the bits of each. -/
theorem subset_scanBits (hd : records.Pairwise fun p q =>
      Disjoint (units p.1 p.2.unitCount) (units q.1 q.2.unitCount)) :
    ∀ p ∈ records, units p.1 p.2.unitCount ⊆ scanBits records :=
  fun p hp _ hu => (mem_foldl_rangeSet hd (by simp)).mpr (.inr ⟨p, hp, hu⟩)

namespace ZoneStore

theorem journalScan_batchWrite {minSlot : ℕ} (h : minSlot ≤ s.applied + 1) :
    (s.batchWrite ops).journalScan minSlot = (s.journalScan minSlot).map (· ++ ops) := by
  unfold journalScan
  rw [batchWrite_gcFloor]
  split
  · rfl
  · have hops : (ops.map fun op => (s.applied + 1, op)).filter (fun p => decide (minSlot ≤ p.1)) =
        ops.map fun op => (s.applied + 1, op) := by
      rw [filter_eq_self]
      intro p hp
      obtain ⟨op, -, rfl⟩ := mem_map.mp hp
      exact decide_eq_true h
    simp only [batchWrite, filter_append, hops, map_append, map_map, Option.map_some]
    rw [show (Prod.snd ∘ fun op : JournalOp => (s.applied + 1, op)) = id from rfl, map_id]

/-- The snapshot is not from the future. -/
def SlotsOk (s : ZoneStore) : Prop := ∀ value ∈ s.zoneValue, value.snapshotSlot ≤ s.applied

/-- **A write is replayed** on top of the bitmap that snapshot and journal gave before. -/
theorem journalBits_batchWrite (h : s.SlotsOk) :
    (s.batchWrite ops).journalBits = s.journalBits.map (replayBits ops) := by
  have hslot : ∀ base ∈ s.snapshotBase, base.2.1 ≤ s.applied := by
    intro base hb
    unfold snapshotBase at hb
    split at hb
    · cases hb
      exact Nat.zero_le _
    · rename_i value hv
      split at hb
      · cases hb
        exact h value hv
      · cases hb
  unfold journalBits
  rw [batchWrite_snapshotBase]
  cases hb : s.snapshotBase with
  | none => rfl
  | some base =>
    obtain ⟨bits, slot, compactTs⟩ := base
    have hle : slot ≤ s.applied := hslot _ hb
    simp only [Option.bind_some]
    rw [journalScan_batchWrite (by omega), Option.map_map, Option.map_map]
    congr 1
    funext a
    exact replayBits_append a ops bits

theorem subset_journalBits_of_zoneValue {value : ZoneValue} (hv : s.zoneValue = some value)
    (hb : b ∈ s.journalBits) :
    value.usageBitmap ⊆ b := by
  unfold journalBits snapshotBase at hb
  rw [hv] at hb
  dsimp only at hb
  split at hb
  · obtain ⟨ops, -, rfl⟩ := Option.map_eq_some_iff.mp hb
    exact subset_replayBits ops _
  · cases hb

theorem journalBits_trim {floor : ℕ} (hb : b ∈ (s.trim floor).journalBits) : b ∈ s.journalBits := by
  unfold journalBits at hb ⊢
  obtain ⟨⟨bits, slot, compactTs⟩, hbase, hscan⟩ := Option.bind_eq_some_iff.mp hb
  rw [show s.snapshotBase = some (bits, slot, compactTs) from hbase, Option.bind_some]
  dsimp only at hscan ⊢
  obtain ⟨ops, hops, rfl⟩ := Option.map_eq_some_iff.mp hscan
  unfold journalScan at hops ⊢
  split at hops
  · cases hops
  · rename_i hlt
    cases hops
    have hfloor : max s.gcFloor (min floor (s.applied + 1)) ≤ slot + 1 := Nat.le_of_not_lt hlt
    have heq : (s.trim floor).journal.filter (fun p => decide (slot + 1 ≤ p.1)) =
        s.journal.filter fun p => decide (slot + 1 ≤ p.1) := by
      simp only [trim, filter_filter]
      refine filter_congr fun p _ => ?_
      rw [Bool.eq_iff_iff]
      simp only [Bool.and_eq_true, decide_eq_true_eq]
      omega
    rw [heq, if_neg (by omega)]
    rfl

end ZoneStore

end CrowDB
