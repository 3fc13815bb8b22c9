/-
  A zone in operation (`model/alloc.rs`, `recovery/compaction.rs`, `recovery.rs`): requests
  claim units in memory and persist them afterwards, frees and commits go to the store
  only, a compaction clears the freed units and writes a snapshot, and after a crash the
  zone is loaded from the store.

  Claiming and persisting are steps of their own, and so are the scan, the merge, the copy and
  the write of a compaction.  A load is one step, given what its reads return.
-/
import CrowDB.Lib.Runs
import CrowDB.DiskDb.Store

namespace CrowDB

/-! ## Requests in flight -/

/-- A block as the clients name it. -/
structure Segment where
  unitOffset : ℕ
  unitCount : ℕ
  ownerChunk : ℕ
deriving DecidableEq

/-- Units that a request has claimed in the bitmap and not persisted. -/
structure AllocClaim where
  request : ℕ
  unitOffset : ℕ
  unitCount : ℕ
  ownerChunk : ℕ
deriving DecidableEq

namespace AllocClaim

/-- The units of a claim. -/
def range (c : AllocClaim) : Finset ℕ := units c.unitOffset c.unitCount

/-- Its busy-block record. -/
def busyBlock (c : AllocClaim) : ℕ × BusyBlockValue :=
  (c.unitOffset, ⟨c.unitCount, c.ownerChunk, .tentative⟩)

end AllocClaim

/-- Where `compact_zone` stands. -/
inductive ZoneCompaction where
  | scanned (free : List (ℕ × FreeBlockValue))
  | merged (freeKeys : List ℕ)
  | slotRead (freeKeys : List ℕ) (slot : ℕ)
  | copied (freeKeys : List ℕ) (value : ZoneValue)
deriving DecidableEq

/-- The zone, in the store and in memory. -/
structure ZoneState where
  store : ZoneStore := {}
  zone : Option DdbZone := none
  freeTsSource : ℕ := 0
  claims : List AllocClaim := []
  freeing : List (List (ℕ × FreeBlockValue)) := []
  committing : List (List (ℕ × BusyBlockValue)) := []
  compaction : Option ZoneCompaction := none
deriving DecidableEq

/-- What happens to a zone. -/
inductive ZoneEvent where
  | load (reads : LoadReads) (now : ℕ) (put : WriteOutcome)
  | crash
  | allocate (request unitCount ownerChunk : ℕ)
  | abandon (request : ℕ)
  | persistBusy (request : ℕ) (write : WriteOutcome)
  | freeBlocks (segments : List (Segment × ℕ)) (validateOwnerOnFree : Bool)
  | persistFree (i : ℕ) (write : WriteOutcome)
  | commitBlocks (segments : List Segment)
  | persistCommit (i : ℕ) (write : WriteOutcome)
  | compactScan
  | compactMerge
  | compactSlot (known : Bool)
  | compactCopy
  | compactWrite (write : WriteOutcome)
  | otherWrite
  | trim (floor : ℕ)
  | corruptSnapshot
deriving DecidableEq

/-- The write of an allocation, a free or a commit. -/
def ZoneEvent.writesBlocks : ZoneEvent → Bool
  | .persistBusy _ _ | .persistFree _ _ | .persistCommit _ _ => true
  | _ => false

/-- Saturation at `u64::MAX`. -/
def saturate64 (n : ℕ) : ℕ := min n (2 ^ 64 - 1)

namespace ZoneStore

/-- A write, if it applies. -/
def write (s : ZoneStore) (outcome : WriteOutcome) (s' : ZoneStore) : ZoneStore :=
  if outcome.applies then s' else s

/-- The checks of `free_blocks` under `validate_owner_on_free`. -/
def ownedBy (s : ZoneStore) (segment : Segment) : Bool :=
  (s.busy.get segment.unitOffset).any fun value => decide (value.ownerChunk = segment.ownerChunk)

/-- The records that `commit_blocks` writes; `none` if a segment has no busy-block record. -/
def committed (s : ZoneStore) (segments : List Segment) : Option (List (ℕ × BusyBlockValue)) :=
  segments.mapM fun segment => (s.busy.get segment.unitOffset).map fun value =>
    (segment.unitOffset, { value with commitState := .committed })

end ZoneStore

namespace ZoneState

variable (s : ZoneState)

/-! ## Allocation -/

/-- Phase 1: claim a range in the bitmap. -/
def allocate (request unitCount ownerChunk : ℕ) : Option ZoneState :=
  s.zone.bind fun z => (z.allocate unitCount).map fun (z', offset) =>
    { s with zone := some z', claims := ⟨request, offset, unitCount, ownerChunk⟩ :: s.claims }

variable (request : ℕ)

/-- The claims of a request. -/
def claimsOf : List AllocClaim := s.claims.filter fun c => decide (c.request = request)

/-- The claims of the others. -/
def claimsNotOf : List AllocClaim := s.claims.filter fun c => decide (c.request ≠ request)

/-- The claims of a request are undone. -/
def rollback : Option DdbZone := s.zone.map fun z => (s.claimsOf request).foldl
    (fun z c => (z.rollbackAllocate c.unitOffset c.unitCount).1) z

/-- Phase 2: persist the claims of a request in one batch, and undo them when the write
    reports an error. -/
def persistBusy (outcome : WriteOutcome) : ZoneState := { s with
    store := s.store.write outcome
      (s.store.persistBusyBatch ((s.claimsOf request).map AllocClaim.busyBlock))
    zone := if outcome = .ok then s.zone else s.rollback request
    claims := s.claimsNotOf request }

/-! ## Free and commit -/

/-- The records of a free, each with the next timestamp of the disk group. -/
def freeRecords (freeTsSource : ℕ) : List (Segment × ℕ) → List (ℕ × FreeBlockValue) × ℕ
  | [] => ([], freeTsSource)
  | (segment, now) :: segments =>
    let freedTs := max now (saturate64 (freeTsSource + 1))
    let rest := freeRecords freedTs segments
    ((segment.unitOffset, ⟨segment.unitCount, segment.ownerChunk, freedTs⟩) :: rest.1, rest.2)

/-- `free_blocks`. -/
def freeBlocks (segments : List (Segment × ℕ)) (validateOwnerOnFree : Bool) : Option ZoneState :=
  if validateOwnerOnFree && !segments.all fun segment => s.store.ownedBy segment.1 then none
  else
    let records := freeRecords s.freeTsSource segments
    some { s with freeing := s.freeing ++ [records.1], freeTsSource := records.2 }

/-- The records of free `i` are written. -/
def persistFree (i : ℕ) (outcome : WriteOutcome) : Option ZoneState :=
  (s.freeing[i]?).map fun records =>
    { s with store := s.store.write outcome (s.store.persistFreeBatch records)
             freeing := s.freeing.eraseIdx i }

/-- `commit_blocks`. -/
def commitBlocks (segments : List Segment) : Option ZoneState :=
  (s.store.committed segments).map fun records => { s with committing := s.committing ++ [records] }

/-- The records of commit `i` are written. -/
def persistCommit (i : ℕ) (outcome : WriteOutcome) : Option ZoneState :=
  (s.committing[i]?).map fun records =>
    { s with
      store := s.store.write outcome (s.store.persistBusyBatch records)
      committing := s.committing.eraseIdx i }

/-! ## Compaction -/

/-- Step 1: the free records; nothing to do without any. -/
def compactScan : Option ZoneState :=
  if s.zone.isNone ∨ s.compaction.isSome then none
  else if s.store.free.records = [] then some s
  else some { s with compaction := some (.scanned s.store.free.records) }

/-- Step 2: clear the units of the scanned records in memory. -/
def compactMerge : Option ZoneState :=
  match s.compaction, s.zone with
  | some (.scanned free), some z =>
    some { s with zone := some (z.compactZoneInner free), compaction := some (.merged
      (free.map Prod.fst)) }
  | _, _ => none

/-- Step 3: the applied slot, 0 when it cannot be read. -/
def compactSlot (known : Bool) : Option ZoneState :=
  match s.compaction with
  | some (.merged freeKeys) =>
    some { s with compaction := some (.slotRead freeKeys (if known then s.store.applied else 0)) }
  | _ => none

/-- Step 4: build the snapshot. -/
def compactCopy : Option ZoneState :=
  match s.compaction, s.zone with
  | some (.slotRead freeKeys slot), some z =>
    let z := { z with snapshotSlot := slot }
    some { s with zone := some z, compaction := some (.copied freeKeys z.toZoneValue) }
  | _, _ => none

/-- Step 5: write the snapshot and delete the scanned records. -/
def compactWrite (outcome : WriteOutcome) : Option ZoneState :=
  match s.compaction with
  | some (.copied freeKeys value) =>
    some { s with store := s.store.write outcome (s.store.compactZoneBatch
      value freeKeys), compaction := none }
  | _ => none

/-! ## The system -/

/-- Load the zone and seed the timestamps of the disk group. -/
def load (unitCapacity : ℕ) (reads : LoadReads) (now : ℕ) (put : WriteOutcome) : Option ZoneState :=
  if s.zone.isSome then none
  else
    let (store, zone, maxFreedTs) := s.store.loadZone reads unitCapacity put
    some { s with store := store, zone := some zone, freeTsSource := max now (maxFreedTs + 1) }

/-- One step. -/
def step (unitCapacity : ℕ) (s : ZoneState) : ZoneEvent → Option ZoneState
  | .load reads now put => s.load unitCapacity reads now put
  | .crash => some { store := s.store }
  | .allocate request unitCount ownerChunk => s.allocate request unitCount ownerChunk
  -- a request that cannot place all its blocks retries and forgets the claims it made
  | .abandon request => some { s with claims := s.claimsNotOf request }
  | .persistBusy request outcome => some (s.persistBusy request outcome)
  | .freeBlocks segments validateOwnerOnFree => s.freeBlocks segments validateOwnerOnFree
  | .persistFree i outcome => s.persistFree i outcome
  | .commitBlocks segments => s.commitBlocks segments
  | .persistCommit i outcome => s.persistCommit i outcome
  | .compactScan => s.compactScan
  | .compactMerge => s.compactMerge
  | .compactSlot known => s.compactSlot known
  | .compactCopy => s.compactCopy
  | .compactWrite outcome => s.compactWrite outcome
  | .otherWrite => some { s with store := s.store.batchWrite [] }
  | .trim floor => some { s with store := s.store.trim floor }
  | .corruptSnapshot => some { s with
      store := { s.store with zoneValue := s.store.zoneValue.map fun value =>
        { value with crcOk := false } } }

/-! ## The busy-block records -/

theorem freeRecords_offsets (freeTsSource : ℕ) (segments : List (Segment × ℕ)) :
    (freeRecords freeTsSource segments).1.map Prod.fst = segments.map fun segment =>
      segment.1.unitOffset := by
  induction segments generalizing freeTsSource with
  | nil => rfl
  | cons segment _ ih => exact congrArg (segment.1.unitOffset :: ·) (ih _)

variable {s}

theorem busy_step {unitCapacity : ℕ} {e : ZoneEvent} {s' : ZoneState} (he : e.writesBlocks = false)
    (hs : s.step unitCapacity e = some s') : s'.store.busy = s.store.busy := by
  cases e with
  | persistBusy | persistFree | persistCommit => cases he
  | load =>
    simp only [step, load] at hs
    split at hs
    · cases hs
    · cases hs
      exact ZoneStore.loadZone_busy ..
  | crash | abandon | otherWrite | trim | corruptSnapshot =>
    cases hs
    rfl
  | allocate =>
    obtain ⟨z, -, hz⟩ := Option.bind_eq_some_iff.mp hs
    obtain ⟨p, -, rfl⟩ := Option.map_eq_some_iff.mp hz
    rfl
  | freeBlocks =>
    simp only [step, freeBlocks] at hs
    split at hs
    · cases hs
    · cases hs
      rfl
  | commitBlocks =>
    obtain ⟨records, -, rfl⟩ := Option.map_eq_some_iff.mp hs
    rfl
  | compactScan =>
    simp only [step, compactScan] at hs
    split at hs
    · cases hs
    · split at hs <;> cases hs <;> rfl
  | compactMerge =>
    simp only [step, compactMerge] at hs
    split at hs <;> cases hs
    rfl
  | compactSlot =>
    simp only [step, compactSlot] at hs
    split at hs <;> cases hs
    rfl
  | compactCopy =>
    simp only [step, compactCopy] at hs
    split at hs <;> cases hs
    rfl
  | compactWrite =>
    simp only [step, compactWrite] at hs
    split at hs <;> cases hs
    unfold ZoneStore.write
    split
    · exact ZoneStore.compactZoneBatch_busy ..
    · rfl

end ZoneState

end CrowDB
