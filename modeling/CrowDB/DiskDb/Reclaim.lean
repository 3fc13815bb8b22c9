/-
  What a reload and a compaction make of the bitmap and its counters.

  A load adds the units of every put of the journal to the used count, also of a put that finds its
  units set, as that of a commit does.

  A compaction deletes every free-block record that it has scanned, and clears the units of those
  above the watermark only.  A free takes its timestamp before it writes its record, so a record may
  appear when the watermark is above it.
-/
import CrowDB.DiskDb.Allocator

namespace CrowDB

open Lib Option Finset

/-! ## The used count of a reload -/

/-- The units of the busy-block puts. -/
def putUnits (ops : List JournalOp) : List (Finset ℕ) := ops.filterMap fun op => match op with
  | .putBusy offset value => some (units offset value.unitCount)
  | _ => none

theorem foldl_count (ops : List JournalOp) (n : ℕ) : ops.foldl (fun n op => match op with
    | .putBusy _ value => n + value.unitCount
    | _ => n) n = n + replayCount ops := by
  induction ops generalizing n with
  | nil => rfl
  | cons op ops ih =>
    cases op with
    | putBusy offset value =>
      have hput : replayCount (.putBusy offset value :: ops) = 0 + value.unitCount +
        replayCount ops :=
        ih _
      rw [hput, Nat.zero_add, ← Nat.add_assoc]
      exact ih _
    | deleteBusy | putFree | deleteFree => exact ih n

theorem replayCount_putBusy (offset : ℕ) (value : BusyBlockValue) (ops : List JournalOp) :
    replayCount (.putBusy offset value :: ops) = value.unitCount + replayCount ops := by
  have hput : replayCount (.putBusy offset value :: ops) = 0 + value.unitCount + replayCount ops :=
    foldl_count ops _
  rw [hput, Nat.zero_add]

theorem card_replayBits_le (ops : List JournalOp) (b : UsageBitmap) :
    (replayBits ops b).card ≤ b.card + replayCount ops := by
  induction ops generalizing b with
  | nil => exact Nat.le_refl _
  | cons op ops ih =>
    cases op with
    | putBusy offset value =>
      have hset : (b.rangeSet offset value.unitCount).1.card ≤ b.card + value.unitCount := by
        rw [UsageBitmap.rangeSet_eq]
        split
        · refine (card_union_le ..).trans_eq ?_
          rw [units, Nat.card_Ico, Nat.add_sub_cancel_left]
        · exact Nat.le_add_right ..
      rw [replayCount_putBusy]
      have := ih (b.rangeSet offset value.unitCount).1
      exact this.trans (by omega)
    | deleteBusy | putFree | deleteFree => exact ih b

/-- **A replay counts its bits** exactly if no unit is put twice. -/
theorem card_replayBits_iff (ops : List JournalOp) (b : UsageBitmap) :
    (replayBits ops b).card = b.card + replayCount ops ↔ (b :: putUnits ops).Pairwise Disjoint := by
  induction ops generalizing b with
  | nil => simp [replayBits, replayCount, putUnits]
  | cons op ops ih =>
    cases op with
    | putBusy offset value =>
      have hbits : replayBits (.putBusy offset value :: ops) b =
          replayBits ops (b.rangeSet offset value.unitCount).1 := rfl
      have hunits : putUnits (.putBusy offset value :: ops) =
          units offset value.unitCount :: putUnits ops := rfl
      have hcount : (units offset value.unitCount).card = value.unitCount := by
        rw [units, Nat.card_Ico, Nat.add_sub_cancel_left]
      rw [hbits, hunits, replayCount_putBusy]
      by_cases hclear : Disjoint (units offset value.unitCount) b
      · have hunion : (b ∪ units offset value.unitCount).card = b.card + value.unitCount := by
          rw [card_union_of_disjoint hclear.symm, hcount]
        rw [UsageBitmap.rangeSet_of_disjoint hclear, ← Nat.add_assoc, ← hunion, ih]
        simp only [List.pairwise_cons, List.forall_mem_cons, disjoint_union_left]
        exact ⟨fun h => ⟨⟨hclear.symm, fun c hc => (h.1 c hc).1⟩, fun c hc => (h.1 c hc).2, h.2⟩,
          fun h => ⟨fun c hc => ⟨h.1.2 c hc, h.2.1 c hc⟩, h.2.2⟩⟩
      · -- the put is refused, and its units are counted
        have hpos : 0 < value.unitCount := Nat.pos_of_ne_zero fun h0 => hclear (by rw [h0]; simp)
        have hle := card_replayBits_le ops b
        rw [UsageBitmap.rangeSet_eq, if_neg hclear]
        refine iff_of_false (fun h => ?_) fun h => hclear ?_
        · dsimp only at h
          omega
        · exact ((List.pairwise_cons.1 h).1 _ List.mem_cons_self).symm
    | deleteBusy | putFree | deleteFree => exact ih b

namespace ZoneStore

variable (s : ZoneStore) (reads : LoadReads) (unitCapacity : ℕ)

/-- A load from snapshot and journal counts the bits that it sets. -/
def CountsUsed : Prop :=
  ∀ r ∈ (s.loadZoneInner reads unitCapacity).toOption, r.1.usedCount = r.1.usageBits.countSet
deriving Decidable

/-- The snapshot and the puts behind its slot have units of the zone only. -/
def InZone : Prop := ∀ base ∈ s.snapshotBase, ∀ ops ∈ s.journalScan (base.2.1 + 1),
  ∀ us ∈ base.1 :: putUnits ops, us ⊆ Finset.range unitCapacity
deriving Decidable

/-- No put behind the snapshot's slot has a unit of the snapshot or of another such put. -/
def FreshJournal : Prop := ∀ base ∈ s.snapshotBase, ∀ ops ∈ s.journalScan (base.2.1 + 1),
  (base.1 :: putUnits ops).Pairwise Disjoint
deriving Decidable

theorem replayBits_subset {ops : List JournalOp} {b t : UsageBitmap}
    (h : ∀ us ∈ b :: putUnits ops, us ⊆ t) : replayBits ops b ⊆ t := by
  induction ops generalizing b with
  | nil => exact h b List.mem_cons_self
  | cons op ops ih =>
    cases op with
    | putBusy offset value =>
      obtain ⟨hb, hput, hrest⟩ := by simpa only [putUnits, List.filterMap_cons,
        List.forall_mem_cons] using h
      have hset : (b.rangeSet offset value.unitCount).1 ⊆ t := by
        rw [UsageBitmap.rangeSet_eq]
        split
        · exact union_subset hb hput
        · exact hb
      exact ih (List.forall_mem_cons.2 ⟨hset, hrest⟩)
    | deleteBusy | putFree | deleteFree => exact ih h

/-- **Reload accounting**: the used count of a loaded zone is the number of set bits, exactly if no
    unit is put twice. -/
theorem countsUsed_iff (hcap : unitCapacity < 2 ^ 32 - 1) (hzone : s.InZone unitCapacity) :
    s.CountsUsed reads unitCapacity ↔
      (reads.zoneValue = true → reads.journalBusy = true →
        reads.journalFree = true → s.FreshJournal) := by
  by_cases hreads : reads.zoneValue = true ∧ reads.journalBusy = true ∧ reads.journalFree = true
  · obtain ⟨hz, hb, hf⟩ := hreads
    simp only [hz, hb, hf, forall_const]
    rw [CountsUsed, loadZoneInner, FreshJournal]
    cases hbase : s.snapshotBase with
    | none => simp [hz, Except.toOption]
    | some base =>
      obtain ⟨bits, slot, compactTs⟩ := base
      cases hops : s.journalScan (slot + 1) with
      | none => simp [hz, hb, hops, Except.toOption]
      | some ops =>
        have hle := card_le_card (replayBits_subset (hzone _ hbase ops hops))
        rw [card_range] at hle
        have hsum := card_replayBits_le ops bits
        simp only [hz, hb, hf, hops, Except.toOption, Option.mem_def, some_inj, forall_eq', not_true,
          if_false, UsageBitmap.countSet]
        rw [← card_replayBits_iff, saturate32]
        dsimp only at hle
        omega
  · refine iff_of_true ?_ fun hz hb hf => absurd ⟨hz, hb, hf⟩ hreads
    intro r hr
    exfalso
    revert hr
    rw [loadZoneInner]
    split_ifs <;> simp_all [Except.toOption] <;> grind

/-- A block is freed and compacted away, and another one is allocated behind the snapshot. -/
theorem countsUsed_behind_snapshot :
    ∃ s, Reach (ZoneState.step 64) anyStep {} s ∧ (s.store.InZone 64 ∧ s.store.FreshJournal) ∧
      s.store.CountsUsed {} 64 :=
  Reach.exists_and_of_run [.load {} 0 .ok, .allocate 1 2 7, .persistBusy 1 .ok,
      .freeBlocks [(⟨0, 2, 7⟩, 0)] true, .persistFree 0 .ok, .compactScan, .compactMerge,
      .compactSlot true, .compactCopy, .compactWrite .ok, .allocate 2 1 7, .persistBusy 2 .ok]
    (by decide +kernel)
    fun s _ hp => (countsUsed_iff s.store {} 64 (by decide) hp.1).2 fun _ _ _ => hp.2

end ZoneStore

/-- A block is allocated and committed; the load counts it twice. -/
theorem counts_committed_twice :
    ∃ s, Reach (ZoneState.step 64) anyStep {} s ∧ ¬ s.store.CountsUsed {} 64 :=
  Reach.exists_of_run [.load {} 0 .ok, .allocate 1 1 7, .persistBusy 1 .ok, .commitBlocks [⟨0, 1, 7⟩],
    .persistCommit 0 .ok] (by decide +kernel)

/-! ## Freed space -/

/-- The units of a free-block record. -/
def freeUnits (free : ℕ × FreeBlockValue) : Finset ℕ := units free.1 free.2.unitCount

/-- The keys that a running compaction is going to delete. -/
def ZoneCompaction.keys : ZoneCompaction → List ℕ
  | scanned free => free.map Prod.fst
  | merged freeKeys | slotRead freeKeys _ | copied freeKeys _ => freeKeys

namespace ZoneState

variable (s : ZoneState)

/-- The bitmap in memory. -/
def bits : UsageBitmap := s.zone.elim ∅ DdbZone.usageBits

/-- What a compaction has scanned and is about to merge. -/
def scannedRecords : List (ℕ × FreeBlockValue) :=
  match s.compaction with
  | some (.scanned free) => free
  | _ => []

/-- The free-block records that the event writes. -/
def freesOf : ZoneEvent → List (ℕ × FreeBlockValue)
  | .persistFree i write => if write.applies then s.freeing[i]?.getD [] else []
  | _ => []

/-- The greater of the watermarks in memory and in the snapshot. -/
def watermark : ℕ := max (s.zone.elim 0 DdbZone.compactTs)
      (s.store.snapshotBase.elim 0 fun base => base.2.2)

/-- The zone that the event loads. -/
def loadedBy (unitCapacity : ℕ) : ZoneEvent → Option DdbZone
  | .load reads _ put => some (s.store.loadZone reads unitCapacity put).2.1
  | _ => none

end ZoneState

/-- A zone, and the units that were allocated since a free-block record of them was written. -/
structure ReclaimState where
  zone : ZoneState := {}
  reallocated : Finset ℕ := ∅

namespace ReclaimState

/-- A step of the zone; allocations and frees are noted. -/
def step (unitCapacity : ℕ) (r : ReclaimState) (e : ZoneEvent) : Option ReclaimState :=
  (r.zone.step unitCapacity e).map fun s => ⟨s, match e with
    | .allocate _ _ _ => r.reallocated ∪ s.bits \ r.zone.bits
    | .persistFree _ _ => r.reallocated.filter fun u => ∀ free ∈ r.zone.freesOf e, u ∉ freeUnits free
    | _ => r.reallocated⟩

/-- The free-block record can be written: its timestamp is above the watermarks and those of the
    scanned records, it is at no key that a compaction is going to delete, and its units are set in
    the loaded zone and those of no claim or other record. -/
def Timely (r : ReclaimState) (written : List (ℕ × FreeBlockValue)) (free : ℕ × FreeBlockValue) :
    Prop :=
  r.zone.watermark < free.2.freedTs ∧
    (∀ other ∈ r.zone.scannedRecords, other.2.freedTs < free.2.freedTs) ∧
  (∀ c ∈ r.zone.compaction, free.1 ∉ c.keys) ∧
  (∀ z ∈ r.zone.zone, freeUnits free ⊆ z.usageBits) ∧
    (∀ c ∈ r.zone.claims, Disjoint (freeUnits free) c.range) ∧
  ∀ other ∈ r.zone.store.free.records ++ (r.zone.scannedRecords ++ written),
    other.1 ≠ free.1 → Disjoint (freeUnits other) (freeUnits free)
deriving Decidable

/-- What a load sets of the units of a free-block record is all of them, and of no other record, or
    only what was allocated again. -/
def LoadsWhole (r : ReclaimState) (z : DdbZone) (free : ℕ × FreeBlockValue) : Prop :=
  (∀ u ∈ freeUnits free, u ∈ z.usageBits → u ∈ r.reallocated) ∨
  freeUnits free ⊆ z.usageBits ∧
    ∀ other ∈ r.zone.store.free.records, other.1 ≠ free.1 →
      Disjoint (freeUnits other) (freeUnits free)
deriving Decidable

/-- Free-block records are written when they are `Timely`, and a load finds their units whole. -/
def TimelyFrees (unitCapacity : ℕ) (r : ReclaimState) (e : ZoneEvent) : Prop :=
  (∀ free ∈ r.zone.freesOf e, r.Timely (r.zone.freesOf e) free) ∧
  ∀ z ∈ r.zone.loadedBy unitCapacity e, ∀ free ∈ r.zone.store.free.records, r.LoadsWhole z free
deriving Decidable

/-- The units of the record are clear, or allocated again. -/
def Gone (r : ReclaimState) (free : ℕ × FreeBlockValue) : Prop :=
  ∀ u ∈ freeUnits free, u ∈ r.zone.bits → u ∈ r.reallocated

/-- The next compaction will clear the units of the record. -/
structure Ripe (r : ReclaimState) (free : ℕ × FreeBlockValue) : Prop where
  set : freeUnits free ⊆ r.zone.bits
  unclaimed : ∀ c ∈ r.zone.claims, Disjoint (freeUnits free) c.range
  unshared : ∀ other ∈ r.zone.store.free.records ++ r.zone.scannedRecords,
    other.1 ≠ free.1 → Disjoint (freeUnits other) (freeUnits free)
  above : ∀ z ∈ r.zone.zone, z.compactTs < free.2.freedTs

/-- What the free-block records stand for. -/
structure ReclaimInv (r : ReclaimState) : Prop where
  idle : r.zone.zone = none → r.zone.compaction = none ∧ r.zone.claims = []
  /-- a load finds the records above the watermark of the snapshot -/
  stored : ∀ free ∈ r.zone.store.free.records,
    0 < free.2.freedTs ∧ ∀ base ∈ r.zone.store.snapshotBase, base.2.2 < free.2.freedTs
  ready : r.zone.zone.isSome → ∀ free ∈ r.zone.store.free.records, r.Gone free ∨ r.Ripe free
  scanned : (∀ a ∈ r.zone.scannedRecords, ∀ b ∈ r.zone.scannedRecords, a.1 = b.1 → a = b) ∧
    ∀ free ∈ r.zone.store.free.records, free.1 ∈ r.zone.scannedRecords.map Prod.fst →
      free ∈ r.zone.scannedRecords
  /-- records that were written since the scan -/
  late : ∀ c ∈ r.zone.compaction, ∀ free ∈ r.zone.store.free.records, free.1 ∉ c.keys →
    (∀ z ∈ r.zone.zone, z.compactTs < free.2.freedTs) ∧
      ∀ other ∈ r.zone.scannedRecords, other.2.freedTs < free.2.freedTs
  cleared : ∀ c ∈ r.zone.compaction, (∀ free, c ≠ .scanned free) →
    ∀ free ∈ r.zone.store.free.records, free.1 ∈ c.keys → r.Gone free
  copied : ∀ freeKeys value, r.zone.compaction = some (.copied freeKeys value) →
    ∀ z ∈ r.zone.zone, value.compactTs = z.compactTs

theorem foldl_rangeClear_le (new : List (ℕ × FreeBlockValue)) (b : UsageBitmap) :
    new.foldl (fun b free => (UsageBitmap.rangeClear b free.1 free.2.unitCount).1) b ⊆ b := by
  induction new generalizing b with
  | nil => exact Subset.refl b
  | cons free _ ih =>
    have hclear : (b.rangeClear free.1 free.2.unitCount).1 ⊆ b := by
      rw [UsageBitmap.rangeClear_eq]
      split
      · exact sdiff_subset
      · exact Subset.refl b
    exact (ih _).trans hclear

/-- A record whose units are set and those of no other one is cleared. -/
theorem clears_of_unshared {new : List (ℕ × FreeBlockValue)} {b : UsageBitmap}
    {free : ℕ × FreeBlockValue}
    (hmem : free ∈ new) (hset : freeUnits free ⊆ b)
    (hother : ∀ other ∈ new, other = free ∨ Disjoint (freeUnits other) (freeUnits free)) :
    Disjoint (freeUnits free)
      (new.foldl (fun b free => (UsageBitmap.rangeClear b free.1 free.2.unitCount).1) b) := by
  induction new generalizing b with
  | nil => cases hmem
  | cons first rest ih =>
    obtain ⟨hfirst, hrest⟩ := List.forall_mem_cons.1 hother
    rw [List.foldl_cons, UsageBitmap.rangeClear_eq]
    by_cases heq : first = free
    · subst heq
      rw [if_pos (show units first.1 first.2.unitCount ⊆ b from hset)]
      exact disjoint_sdiff.mono_right (foldl_rangeClear_le rest _)
    · have hd := hfirst.resolve_left heq
      refine ih ((List.mem_cons.1 hmem).resolve_left (Ne.symm heq)) ?_ hrest
      split
      · exact subset_sdiff.2 ⟨hset, hd.symm⟩
      · exact hset

theorem mem_free_compactZoneBatch {s : ZoneStore} {value : ZoneValue} {freeKeys : List ℕ}
    {free : ℕ × FreeBlockValue} :
    free ∈ (s.compactZoneBatch value freeKeys).free.records ↔ free ∈ s.free.records ∧
      free.1 ∉ freeKeys := by
  have hfold : ∀ (keys : List ℕ) (s : ZoneStore),
      free ∈ ((keys.map JournalOp.deleteFree).foldl ZoneStore.applyOp s).free.records ↔
        free ∈ s.free.records ∧ free.1 ∉ keys := by
    intro keys
    induction keys with
    | nil => simp
    | cons key _ ih =>
      intro s
      have hdelete : free ∈ (s.applyOp (.deleteFree key)).free.records ↔
          free ∈ s.free.records ∧ free.1 ≠ key := RecordStore.mem_delete
      rw [List.map_cons, List.foldl_cons, ih, hdelete, List.mem_cons, not_or, and_assoc]
  exact hfold freeKeys s

section

variable {s : ZoneStore} {outcome : WriteOutcome}

theorem mem_free_write_persistBusyBatch {records : List (ℕ × BusyBlockValue)}
    {free : ℕ × FreeBlockValue}
    (h : free ∈ (s.write outcome (s.persistBusyBatch records)).free.records) :
    free ∈ s.free.records := by
  rw [ZoneStore.write] at h
  split at h
  · exact ZoneStore.mem_free_persistBusyBatch h
  · exact h

theorem write_snapshotBase {ops : List JournalOp} :
    (s.write outcome (s.batchWrite ops)).snapshotBase = s.snapshotBase := by
  rw [ZoneStore.write]
  split
  · exact ZoneStore.batchWrite_snapshotBase
  · rfl

end

namespace ReclaimInv

variable {r r' : ReclaimState} {unitCapacity : ℕ}

/-- **No compaction runs**: nothing is scanned, and all rests on the stored records. -/
theorem of_uncompacted (hc : r.zone.compaction = none)
    (hclaims : r.zone.zone = none → r.zone.claims = [])
    (hstored : ∀ free ∈ r.zone.store.free.records,
      0 < free.2.freedTs ∧ ∀ base ∈ r.zone.store.snapshotBase, base.2.2 < free.2.freedTs)
    (hready : r.zone.zone.isSome → ∀ free ∈ r.zone.store.free.records, r.Gone free ∨ r.Ripe free) :
    ReclaimInv r := by
  refine ⟨fun hz => ⟨hc, hclaims hz⟩, hstored, hready, ?_, ?_, ?_, ?_⟩
  · simp [ZoneState.scannedRecords, hc]
  · simp [hc]
  · simp [hc]
  · simp [hc]

variable (h : ReclaimInv r)
include h

theorem of_other (hcomp : r'.zone.compaction = r.zone.compaction)
    (hfree : ∀ free ∈ r'.zone.store.free.records, free ∈ r.zone.store.free.records)
    (hbase : ∀ base ∈ r'.zone.store.snapshotBase, base ∈ r.zone.store.snapshotBase)
    (hzone : r'.zone.zone.map DdbZone.compactTs = r.zone.zone.map DdbZone.compactTs)
    (hclaims : r.zone.zone = none → r.zone.claims = [] → r'.zone.claims = [])
    (hgone : ∀ free, r.Gone free → r'.Gone free)
    (hripe : ∀ free, r.Ripe free →
      freeUnits free ⊆ r'.zone.bits ∧ ∀ c ∈ r'.zone.claims, Disjoint (freeUnits free) c.range) :
    ReclaimInv r' := by
  have hscan : r'.zone.scannedRecords = r.zone.scannedRecords := by
    rw [ZoneState.scannedRecords, hcomp]
    rfl
  have hts (free : ℕ × FreeBlockValue) (hz : ∀ z ∈ r.zone.zone, z.compactTs < free.2.freedTs) :
      ∀ z ∈ r'.zone.zone, z.compactTs < free.2.freedTs := by
    intro z' hz'
    have := (map_eq_some_iff.2 ⟨z', hz', rfl⟩ : r'.zone.zone.map DdbZone.compactTs =
      some z'.compactTs)
    obtain ⟨z, hmem, heq⟩ := map_eq_some_iff.1 (hzone.symm.trans this)
    rw [← heq]
    exact hz z hmem
  have hnone : r'.zone.zone = none ↔ r.zone.zone = none := by
    rw [← map_eq_none_iff (f := DdbZone.compactTs), hzone, map_eq_none_iff]
  refine ⟨fun hz => ?_, fun free hmem => ?_, fun hz free hmem => ?_, ?_, ?_, ?_, ?_⟩
  · obtain ⟨hc, hcl⟩ := h.idle (hnone.1 hz)
    exact ⟨hcomp.trans hc, hclaims (hnone.1 hz) hcl⟩
  · obtain ⟨hpos, hb⟩ := h.stored free (hfree free hmem)
    exact ⟨hpos, fun base hmem => hb base (hbase base hmem)⟩
  · have hz : r.zone.zone.isSome := by
      rw [isSome_iff_ne_none] at hz ⊢
      exact mt hnone.2 hz
    refine (h.ready hz free (hfree free hmem)).imp (hgone free) fun hr => ?_
    refine ⟨(hripe free hr).1, (hripe free hr).2, fun other hother => hr.unshared other ?_,
      hts free hr.above⟩
    rw [hscan] at hother
    exact (List.mem_append.1 hother).elim (fun ho => List.mem_append_left _ (hfree other ho))
      fun ho => List.mem_append_right _ ho
  · rw [hscan]
    exact ⟨h.scanned.1, fun free hmem => h.scanned.2 free (hfree free hmem)⟩
  · rw [hcomp, hscan]
    exact fun c hc free hmem hkey => (h.late c hc free (hfree free hmem) hkey).imp_left (hts free)
  · rw [hcomp]
    exact fun c hc hne free hmem hkey => hgone free (h.cleared c hc hne free (hfree free hmem) hkey)
  · intro freeKeys value hc z' hz'
    obtain ⟨z, hmem, heq⟩ := map_eq_some_iff.1 (hzone.symm.trans (map_eq_some_iff.2 ⟨z', hz', rfl⟩))
    rw [← heq]
    exact h.copied freeKeys value (hcomp.symm.trans hc) z hmem

/-- Steps that leave the bitmap, and add no claim or record. -/
theorem of_store (hcomp : r'.zone.compaction = r.zone.compaction)
    (hfree : ∀ free ∈ r'.zone.store.free.records, free ∈ r.zone.store.free.records)
    (hbase : ∀ base ∈ r'.zone.store.snapshotBase, base ∈ r.zone.store.snapshotBase)
    (hzone : r'.zone.zone = r.zone.zone) (hclaims : r'.zone.claims ⊆ r.zone.claims)
    (hre : r'.reallocated = r.reallocated) : ReclaimInv r' := by
  have hbits : r'.zone.bits = r.zone.bits := by rw [ZoneState.bits, hzone, ZoneState.bits]
  refine h.of_other hcomp hfree hbase (by rw [hzone]) (fun _ hnil => ?_)
    (fun free hgone => ?_) fun free hripe => ?_
  · rw [hnil] at hclaims
    exact List.subset_nil.1 hclaims
  · rw [Gone, hbits, hre]
    exact hgone
  · rw [hbits]
    exact ⟨hripe.set, fun c hc => hripe.unclaimed c (hclaims hc)⟩

/-- A step of the compaction behind the merge. -/
theorem of_phase {c c' : ZoneCompaction} (hc : r.zone.compaction = some c)
    (hne : ∀ free, c ≠ .scanned free) (hc' : r'.zone.compaction = some c')
    (hne' : ∀ free, c' ≠ .scanned free)
    (hkeys : c'.keys = c.keys) (hstore : r'.zone.store = r.zone.store)
    (hclaims : r'.zone.claims = r.zone.claims)
    (hzone : r'.zone.zone.map DdbZone.compactTs = r.zone.zone.map DdbZone.compactTs)
    (hbits : r'.zone.bits = r.zone.bits) (hre : r'.reallocated = r.reallocated)
    (hcopied : ∀ freeKeys value, c' = .copied freeKeys value →
      ∀ z ∈ r'.zone.zone, value.compactTs = z.compactTs) :
    ReclaimInv r' := by
  have hnone {s : ZoneState} {c : ZoneCompaction} (hc : s.compaction = some c)
    (hne : ∀ free, c ≠ .scanned free) :
      s.scannedRecords = [] := by
    rw [ZoneState.scannedRecords, hc]
    cases c <;> simp_all
  -- all but the phase is as before
  have hother : ReclaimInv ⟨{ r'.zone with compaction := r.zone.compaction }, r'.reallocated⟩ := by
    refine h.of_other rfl (fun free hmem => hstore ▸ hmem) (fun base hmem => hstore ▸ hmem) hzone
      (fun _ hnil => hclaims.trans hnil) (fun free hgone => ?_) fun free hripe => ?_
    · rw [Gone, hre]
      exact fun u hu hbit => hgone u hu (hbits ▸ hbit)
    · exact ⟨hbits.symm ▸ hripe.set, fun c hc => hripe.unclaimed c (hclaims ▸ hc)⟩
  have hscan := hnone hc' hne'
  have hscan' : (⟨{ r'.zone with compaction := r.zone.compaction }, r'.reallocated⟩ :
    ReclaimState).zone.scannedRecords =
      [] := hnone hc hne
  refine ⟨fun hz => ?_, hother.stored, fun hz free hmem => ?_, ?_, ?_, ?_, ?_⟩
  · exact absurd (hother.idle hz).1 (by simp [hc])
  · refine (hother.ready hz free hmem).imp id fun hripe =>
      ⟨hripe.set, hripe.unclaimed, ?_, hripe.above⟩
    have := hripe.unshared
    rw [hscan'] at this
    rw [hscan]
    exact this
  · rw [hscan]
    exact ⟨nofun, nofun⟩
  · intro c'' hc'' free hmem hkey
    cases hc'.symm.trans hc''
    rw [hkeys] at hkey
    rw [hscan]
    exact ⟨(hother.late c hc free hmem hkey).1, nofun⟩
  · intro c'' hc'' _ free hmem hkey
    cases hc'.symm.trans hc''
    rw [hkeys] at hkey
    exact hother.cleared c hc hne free hmem hkey
  · intro freeKeys value hcopy
    exact hcopied freeKeys value (some_inj.1 (hc'.symm.trans hcopy))

theorem compactScan (hz : r.zone.zone.isNone ≠ true) :
    ReclaimInv ⟨{ r.zone with compaction := some (.scanned r.zone.store.free.records) },
      r.reallocated⟩ := by
  refine ⟨fun hnone => absurd hnone (by simpa using hz), h.stored, fun hsome free hmem => ?_,
    ⟨fun a ha b hb => RecordStore.eq_of_mem ha hb, fun free hmem _ => hmem⟩, ?_, ?_, nofun⟩
  · refine (h.ready hsome free hmem).imp id fun hripe =>
      ⟨hripe.set, hripe.unclaimed, fun other ho => hripe.unshared other ?_, hripe.above⟩
    exact List.mem_append_left _ ((List.mem_append.1 ho).elim id id)
  · rintro _ ⟨⟩ free hmem hkey
    exact absurd (List.mem_map_of_mem hmem) hkey
  · rintro _ ⟨⟩ hne
    exact absurd rfl (hne _)

/-- **A merge clears what was ripe**, and leaves what was written since the scan. -/
theorem compactMerge {s : ZoneState} (hs : r.zone.compactMerge = some s) :
    ReclaimInv ⟨s, r.reallocated⟩ := by
  unfold ZoneState.compactMerge at hs
  split at hs
  · rename_i scanned z hc hz
    cases hs
    set z' := z.compactZoneInner scanned
    set r' : ReclaimState :=
      ⟨{ r.zone with zone := some z', compaction := some (.merged (scanned.map Prod.fst)) },
        r.reallocated⟩
    have hscan : r.zone.scannedRecords = scanned := by rw [ZoneState.scannedRecords, hc]
    have hbits : r.zone.bits = z.usageBits := by rw [ZoneState.bits, hz, elim_some]
    have hle : z'.usageBits ⊆ z.usageBits := foldl_rangeClear_le _ _
    have hgone {free : ℕ × FreeBlockValue} (hg : r.Gone free) : r'.Gone free := by
      intro u hu hbit
      exact hg u hu (hbits ▸ hle hbit)
    have hcleared : ∀ free ∈ r.zone.store.free.records, free.1 ∈ scanned.map Prod.fst →
      r'.Gone free := by
      intro free hmem hkey
      refine (h.ready (by rw [hz]; rfl) free hmem).elim hgone fun hripe => ?_
      have hin : free ∈ scanned := hscan ▸ h.scanned.2 free hmem (hscan.symm ▸ hkey)
      have hnew : free ∈ z.newRecords scanned :=
        List.mem_filter.2 ⟨hin, decide_eq_true (hripe.above z hz)⟩
      refine fun u hu hbit => absurd hbit
        (disjoint_left.1 (clears_of_unshared hnew ?_ fun other ho => ?_) hu)
      · exact hbits ▸ hripe.set
      · have ho : other ∈ scanned := List.mem_of_mem_filter ho
        by_cases heq : other.1 = free.1
        · exact .inl (h.scanned.1 other (hscan ▸ ho) free (hscan ▸ hin) heq)
        · exact .inr (hripe.unshared other (List.mem_append_right _ (hscan ▸ ho)) heq)
    have hlate : ∀ free ∈ r.zone.store.free.records, free.1 ∉ scanned.map Prod.fst →
        z'.compactTs < free.2.freedTs := by
      intro free hmem hkey
      obtain ⟨hwm, hothers⟩ := h.late _ hc free hmem hkey
      rw [hscan] at hothers
      refine max_lt (hwm z hz) ?_
      have hfold : ∀ (l : List ℕ) (n : ℕ), n < free.2.freedTs → (∀ ts ∈ l, ts < free.2.freedTs) →
          l.foldl max n < free.2.freedTs := by
        intro l
        induction l with
        | nil => exact fun n hn _ => hn
        | cons ts l ih =>
          intro n hn hl
          exact ih _ (max_lt hn (hl ts List.mem_cons_self)) fun ts hts =>
            hl ts (List.mem_cons_of_mem _ hts)
      refine hfold _ 0 (h.stored free hmem).1 fun ts hts => ?_
      obtain ⟨other, ho, rfl⟩ := List.mem_map.1 hts
      exact hothers other (List.mem_of_mem_filter ho)
    refine ⟨nofun, h.stored, fun _ free hmem => ?_, ⟨nofun, nofun⟩, ?_, ?_, nofun⟩
    · by_cases hkey : free.1 ∈ scanned.map Prod.fst
      · exact .inl (hcleared free hmem hkey)
      refine (h.ready (by rw [hz]; rfl) free hmem).imp hgone fun hripe =>
        ⟨?_, hripe.unclaimed, ?_, ?_⟩
      · refine DdbZone.compactZoneInner_bits (hbits ▸ hripe.set) fun other ho => ?_
        refine hripe.unshared other (List.mem_append_right _ (hscan ▸ ho)) fun heq => hkey ?_
        exact heq ▸ List.mem_map_of_mem ho
      · intro other ho
        rw [show r'.zone.scannedRecords = [] from rfl, List.append_nil] at ho
        exact hripe.unshared other (List.mem_append_left _ ho)
      · rintro _ ⟨⟩
        exact hlate free hmem hkey
    · rintro _ ⟨⟩ free hmem hkey
      refine ⟨?_, nofun⟩
      rintro _ ⟨⟩
      exact hlate free hmem hkey
    · rintro _ ⟨⟩ - free hmem hkey
      exact hcleared free hmem hkey
  · cases hs

theorem allocate {s : ZoneState} {request unitCount ownerChunk : ℕ}
    (hs : r.zone.allocate request unitCount ownerChunk = some s) :
    ReclaimInv ⟨s, r.reallocated ∪ s.bits \ r.zone.bits⟩ := by
  obtain ⟨z, hz, hs⟩ := bind_eq_some_iff.mp hs
  obtain ⟨⟨z', offset⟩, hclaim, rfl⟩ := map_eq_some_iff.mp hs
  obtain ⟨-, -, hclear, hset⟩ := DdbZone.allocate_spec hclaim
  have hbits : r.zone.bits = z.usageBits := by rw [ZoneState.bits, hz, elim_some]
  refine h.of_other rfl (fun _ => id) (fun _ => id) ?_ (fun hnone => ?_)
    (fun free hgone => ?_)
    fun free hripe => ⟨?_, List.forall_mem_cons.2 ⟨?_, hripe.unclaimed⟩⟩
  · rw [hz, map_some, map_some, DdbZone.allocate_compactTs hclaim]
  · rw [hz] at hnone
    cases hnone
  · intro u hu hbit
    by_cases hold : u ∈ r.zone.bits
    · exact mem_union_left _ (hgone u hu hold)
    · exact mem_union_right _ (mem_sdiff.2 ⟨hbit, hold⟩)
  · have hgrown : z.usageBits ⊆ z'.usageBits := by
      rw [hset]
      exact subset_union_left
    exact (hbits ▸ hripe.set).trans hgrown
  · exact (hclear.mono_right (hbits ▸ hripe.set)).symm

omit h in
theorem rollback_bits (claims : List AllocClaim) (z : DdbZone) :
    (claims.foldl (fun z c => (z.rollbackAllocate c.unitOffset c.unitCount).1) z).usageBits
      ⊆ z.usageBits ∧
      (claims.foldl (fun z c => (z.rollbackAllocate c.unitOffset c.unitCount).1) z).compactTs =
        z.compactTs ∧
      ∀ us ⊆ z.usageBits, (∀ c ∈ claims, Disjoint us c.range) →
        us ⊆ (claims.foldl (fun z c =>
          (z.rollbackAllocate c.unitOffset c.unitCount).1) z).usageBits := by
  induction claims generalizing z with
  | nil => exact ⟨Subset.refl _, rfl, fun us hus _ => hus⟩
  | cons c _ ih =>
    obtain ⟨hle, hts, hkeep⟩ := ih (z.rollbackAllocate c.unitOffset c.unitCount).1
    refine ⟨hle.trans ?_, hts.trans (DdbZone.rollbackAllocate_compactTs ..), fun us hus hd => ?_⟩
    · dsimp only [DdbZone.rollbackAllocate]
      split
      · exact Subset.refl _
      split
      · rw [foldl_erase_eq]
        exact sdiff_subset
      · exact Subset.refl _
    · obtain ⟨hc, hrest⟩ := List.forall_mem_cons.1 hd
      exact hkeep us ((subset_sdiff.2 ⟨hus, hc⟩).trans (DdbZone.rollbackAllocate_bits ..)) hrest

theorem persistBusy (request : ℕ) (write : WriteOutcome) :
    ReclaimInv ⟨r.zone.persistBusy request write, r.reallocated⟩ := by
  have hclaims : ∀ c ∈ r.zone.claimsOf request, c ∈ r.zone.claims :=
    fun c hc => List.mem_of_mem_filter hc
  -- the bitmap is kept, or the claims of the request are undone in it
  have hzone : (r.zone.persistBusy request write).zone.map DdbZone.compactTs =
    r.zone.zone.map DdbZone.compactTs ∧
      (r.zone.persistBusy request write).bits ⊆ r.zone.bits ∧
      ∀ us ⊆ r.zone.bits, (∀ c ∈ r.zone.claims, Disjoint us c.range) →
        us ⊆ (r.zone.persistBusy request write).bits := by
    simp only [ZoneState.persistBusy, ZoneState.bits]
    split
    · exact ⟨rfl, Subset.refl _, fun us hus _ => hus⟩
    · unfold ZoneState.rollback
      cases r.zone.zone with
      | none => exact ⟨rfl, Subset.refl _, fun us hus _ => hus⟩
      | some z =>
        obtain ⟨hle, hts, hkeep⟩ := rollback_bits (r.zone.claimsOf request) z
        exact ⟨congrArg some hts, hle, fun us hus hd => hkeep us hus fun c hc => hd c (hclaims c hc)⟩
  obtain ⟨hts, hle, hkeep⟩ := hzone
  refine h.of_other rfl (fun free hmem => mem_free_write_persistBusyBatch hmem)
    (fun base hmem => write_snapshotBase.symm.trans hmem) hts (fun _ hnil => ?_)
    (fun free hgone u hu hbit => hgone u hu (hle hbit))
    fun free hripe => ⟨hkeep _ hripe.set hripe.unclaimed, fun c hc =>
      hripe.unclaimed c (List.mem_of_mem_filter hc)⟩
  simp [ZoneState.persistBusy, ZoneState.claimsNotOf, hnil]

theorem persistFree {s : ZoneState} {i : ℕ} {write : WriteOutcome}
    (hok : r.TimelyFrees unitCapacity (.persistFree i write))
    (hs : r.zone.persistFree i write = some s) :
    ReclaimInv ⟨s, r.reallocated.filter fun u => ∀ free ∈ r.zone.freesOf (.persistFree i write),
      u ∉ freeUnits free⟩ := by
  obtain ⟨records, hrecords, rfl⟩ := map_eq_some_iff.mp hs
  obtain ⟨hok, -⟩ := hok
  generalize hwritten : r.zone.freesOf (.persistFree i write) = written at hok ⊢
  -- a record is new, or an old one at another key
  have hfree : ∀ free ∈ (r.zone.store.write write
    (r.zone.store.persistFreeBatch records)).free.records,
      (free ∈ r.zone.store.free.records ∧ ∀ other ∈ written, other.1 ≠ free.1) ∨ free ∈ written := by
    intro free hmem
    rw [ZoneStore.write] at hmem
    simp only [ZoneState.freesOf, hrecords, getD_some] at hwritten
    split at hmem
    · rw [if_pos ‹_›] at hwritten
      exact hwritten ▸ ZoneStore.mem_free_persistFreeBatch hmem
    · rw [if_neg ‹_›] at hwritten
      exact .inl ⟨hmem, hwritten ▸ nofun⟩
  have hbase : (r.zone.store.write write (r.zone.store.persistFreeBatch records)).snapshotBase =
      r.zone.store.snapshotBase := write_snapshotBase
  set r' : ReclaimState := ⟨{ r.zone with
      store := r.zone.store.write write (r.zone.store.persistFreeBatch records)
      freeing := r.zone.freeing.eraseIdx i },
    r.reallocated.filter fun u => ∀ free ∈ written, u ∉ freeUnits free⟩
  have hshared {free other : ℕ × FreeBlockValue} (hmem : free ∈ r.zone.store.free.records ++
      (r.zone.scannedRecords ++ written)) (ho : other ∈ written) (hne : free.1 ≠ other.1) :
      Disjoint (freeUnits free) (freeUnits other) :=
    (hok other ho).2.2.2.2.2 free hmem hne
  -- an old record shares no unit with a new one, so it stays gone
  have hgone {free : ℕ × FreeBlockValue} (hmem : free ∈ r.zone.store.free.records)
      (hne : ∀ other ∈ written, other.1 ≠ free.1) (hg : r.Gone free) : r'.Gone free := by
    intro u hu hbit
    refine mem_filter.2 ⟨hg u hu hbit, fun other ho => ?_⟩
    exact disjoint_left.1 (hshared (List.mem_append_left _ hmem) ho (hne other ho).symm) hu
  have hold {free : ℕ × FreeBlockValue} (hmem : free ∈ r'.zone.store.free.records)
      {c : ZoneCompaction} (hc : r.zone.compaction = some c) (hkey : free.1 ∈ c.keys) :
      free ∈ r.zone.store.free.records ∧ ∀ other ∈ written, other.1 ≠ free.1 :=
    (hfree free hmem).resolve_right fun hnew => (hok free hnew).2.2.1 c hc hkey
  have habove {free : ℕ × FreeBlockValue} (hnew : free ∈ written) :
      ∀ z ∈ r.zone.zone, z.compactTs < free.2.freedTs := by
    intro z hz
    have hwm := (max_lt_iff.1 (hok free hnew).1).1
    rwa [hz, elim_some] at hwm
  have hscan : r'.zone.scannedRecords = r.zone.scannedRecords := rfl
  refine ⟨h.idle, fun free hmem => ?_, fun hz free hmem =>
    ?_, ⟨h.scanned.1, fun free hmem hkey => ?_⟩,
    fun c hc free hmem hkey => ?_, fun c hc hne free hmem hkey => ?_, h.copied⟩
  · obtain ⟨hmem, -⟩ | hnew := hfree free hmem
    · exact hbase.symm ▸ h.stored free hmem
    · obtain ⟨-, hwm⟩ := max_lt_iff.1 (hok free hnew).1
      refine ⟨(Nat.zero_le _).trans_lt (hok free hnew).1, fun base hb => ?_⟩
      rw [← hbase, hb] at hwm
      exact hwm
  · obtain ⟨hmem, hne⟩ | hnew := hfree free hmem
    · refine (h.ready hz free hmem).imp (hgone hmem hne) fun hripe =>
        ⟨hripe.set, hripe.unclaimed, fun other ho hkey => ?_, hripe.above⟩
      obtain ho | ho := List.mem_append.1 ho
      · obtain ⟨ho, -⟩ | hnew := hfree other ho
        · exact hripe.unshared other (List.mem_append_left _ ho) hkey
        · exact (hshared (List.mem_append_left _ hmem) hnew hkey.symm).symm
      · exact hripe.unshared other (List.mem_append_right _ ho) hkey
    · obtain ⟨-, -, -, hset, hclaims, hothers⟩ := hok free hnew
      refine .inr ⟨?_, hclaims, fun other ho hkey => hothers other ?_ hkey, habove hnew⟩
      · obtain ⟨z, hz⟩ := isSome_iff_exists.1 hz
        rw [ZoneState.bits, hz]
        exact hset z hz
      · obtain ho | ho := List.mem_append.1 ho
        · obtain ⟨ho, -⟩ | hnew := hfree other ho
          · exact List.mem_append_left _ ho
          · exact List.mem_append_right _ (List.mem_append_right _ hnew)
        · exact List.mem_append_right _ (List.mem_append_left _ ho)
  · cases hc : r.zone.compaction with
    | none =>
      rw [hscan, ZoneState.scannedRecords, hc] at hkey
      cases hkey
    | some c =>
      cases c with
      | scanned l =>
        have hl : r.zone.scannedRecords = l := by rw [ZoneState.scannedRecords, hc]
        rw [hscan, hl] at hkey
        exact h.scanned.2 free (hold hmem hc hkey).1 (hl.symm ▸ hkey)
      | _ =>
        rw [hscan, ZoneState.scannedRecords, hc] at hkey
        cases hkey
  · obtain ⟨hmem, -⟩ | hnew := hfree free hmem
    · exact h.late c hc free hmem hkey
    · exact ⟨habove hnew, (hok free hnew).2.1⟩
  · obtain ⟨hmem, hne'⟩ := hold hmem hc hkey
    exact hgone hmem hne' (h.cleared c hc hne free hmem hkey)

theorem load {s : ZoneState} {reads : LoadReads} {now : ℕ} {put : WriteOutcome}
    (hok : r.TimelyFrees unitCapacity (.load reads now put))
    (hs : r.zone.load unitCapacity reads now put = some s) : ReclaimInv ⟨s, r.reallocated⟩ := by
  obtain ⟨hfree, hbase, hts⟩ := r.zone.store.loadZone_watermark reads unitCapacity put
  have hwhole := hok.2 _ rfl
  unfold ZoneState.load at hs
  generalize r.zone.store.loadZone reads unitCapacity put = loaded at hs hfree hbase hts hwhole
  split at hs
  · cases hs
  rename_i hnone
  cases hs
  obtain ⟨hcomp, hclaims⟩ := h.idle (by simpa using hnone)
  refine of_uncompacted hcomp (fun _ => hclaims) (fun free hmem => ?_) fun _ free hmem => ?_
  · obtain ⟨hpos, hstored⟩ := h.stored free (hfree ▸ hmem)
    refine ⟨hpos, fun base hb => ?_⟩
    obtain hold | hzero := hbase base hb
    · exact hstored base hold
    · rwa [hzero]
  · have hmem : free ∈ r.zone.store.free.records := hfree ▸ hmem
    refine (hwhole free hmem).imp id fun ⟨hset, hothers⟩ =>
      ⟨hset, ?_, fun other ho => hothers other ?_, ?_⟩
    · exact hclaims.symm ▸ nofun
    · simpa [ZoneState.scannedRecords, hcomp, hfree] using ho
    · rintro _ ⟨⟩
      obtain hzero | ⟨base, hb, heq⟩ := hts
      · exact hzero ▸ (h.stored free hmem).1
      · exact heq ▸ (h.stored free hmem).2 base hb

theorem compactWrite {s : ZoneState} {write : WriteOutcome}
    (hs : r.zone.compactWrite write = some s) : ReclaimInv ⟨s, r.reallocated⟩ := by
  unfold ZoneState.compactWrite at hs
  split at hs
  · rename_i freeKeys value hc
    cases hs
    obtain ⟨z, hz⟩ : ∃ z, r.zone.zone = some z := by
      refine ne_none_iff_exists'.1 fun hz => ?_
      rw [(h.idle hz).1] at hc
      cases hc
    have hfree : ∀ free ∈ (r.zone.store.write write
      (r.zone.store.compactZoneBatch value freeKeys)).free.records,
        free ∈ r.zone.store.free.records ∧ ∀ base ∈
          (r.zone.store.write write (r.zone.store.compactZoneBatch value freeKeys)).snapshotBase,
          base.2.2 < free.2.freedTs := by
      intro free hmem
      rw [ZoneStore.write] at hmem ⊢
      split
      · rw [if_pos ‹_›] at hmem
        obtain ⟨hmem, hkey⟩ := mem_free_compactZoneBatch.1 hmem
        refine ⟨hmem, fun base hb => ?_⟩
        have hlate := (h.late _ hc free hmem hkey).1 z hz
        rw [← h.copied freeKeys value hc z hz] at hlate
        simp only [ZoneStore.snapshotBase, ZoneStore.compactZoneBatch] at hb
        split at hb
        · cases hb
          exact hlate
        · cases hb
      · rw [if_neg ‹_›] at hmem
        exact ⟨hmem, (h.stored free hmem).2⟩
    refine of_uncompacted rfl (fun hnone => ?_) (fun free hmem =>
      ⟨(h.stored free (hfree free hmem).1).1, (hfree free hmem).2⟩) fun hsome free hmem => ?_
    · rw [hz] at hnone
      cases hnone
    · refine (h.ready hsome free (hfree free hmem).1).imp id fun hripe =>
        ⟨hripe.set, hripe.unclaimed, fun other ho => hripe.unshared other ?_, hripe.above⟩
      rw [show (ZoneState.scannedRecords _) = [] from rfl, List.append_nil] at ho
      exact List.mem_append_left _ (hfree other ho).1
  · cases hs

theorem step {e : ZoneEvent} (hok : r.TimelyFrees unitCapacity e)
    (hstep : r.step unitCapacity e = some r') : ReclaimInv r' := by
  obtain ⟨s, hs, rfl⟩ := map_eq_some_iff.mp hstep
  cases e with
  | crash =>
    cases hs
    exact of_uncompacted rfl (fun _ => rfl) h.stored (by simp)
  | abandon request =>
    cases hs
    exact h.of_store rfl (fun _ => id) (fun _ => id) rfl
      (fun c hc => List.mem_of_mem_filter hc) rfl
  | otherWrite | trim =>
    cases hs
    exact h.of_store rfl (fun _ => id) (fun _ => id) rfl (List.Subset.refl _) rfl
  | corruptSnapshot =>
    cases hs
    refine h.of_store rfl (fun _ => id) (fun base hmem => ?_) rfl (List.Subset.refl _) rfl
    simp only [ZoneStore.snapshotBase] at hmem ⊢
    cases hv : r.zone.store.zoneValue <;> simp_all
  | load => exact h.load hok hs
  | allocate => exact h.allocate hs
  | persistBusy request write =>
    cases hs
    exact h.persistBusy request write
  | freeBlocks =>
    simp only [ZoneState.step, ZoneState.freeBlocks] at hs
    split at hs
    · cases hs
    · cases hs
      exact h.of_store rfl (fun _ => id) (fun _ => id) rfl (List.Subset.refl _) rfl
  | commitBlocks =>
    obtain ⟨records, -, rfl⟩ := map_eq_some_iff.mp hs
    exact h.of_store rfl (fun _ => id) (fun _ => id) rfl (List.Subset.refl _) rfl
  | persistFree => exact h.persistFree hok hs
  | persistCommit =>
    obtain ⟨records, -, rfl⟩ := map_eq_some_iff.mp hs
    exact h.of_store rfl (fun free hmem => mem_free_write_persistBusyBatch hmem)
      (fun base hmem => write_snapshotBase.symm.trans hmem) rfl (List.Subset.refl _) rfl
  | compactScan =>
    simp only [ZoneState.step, ZoneState.compactScan] at hs
    split at hs
    · cases hs
    · rename_i hno
      push Not at hno
      split at hs
      · cases hs
        exact h
      · cases hs
        exact h.compactScan hno.1
  | compactMerge => exact h.compactMerge hs
  | compactSlot =>
    simp only [ZoneState.step, ZoneState.compactSlot] at hs
    split at hs
    · rename_i freeKeys hc
      cases hs
      exact h.of_phase hc (by simp) rfl (by simp) rfl rfl rfl rfl rfl rfl (by simp)
    · cases hs
  | compactCopy =>
    simp only [ZoneState.step, ZoneState.compactCopy] at hs
    split at hs
    · rename_i freeKeys slot z hc hz
      cases hs
      refine h.of_phase hc (by simp) rfl (by simp) rfl rfl rfl ?_ ?_ rfl ?_
      · simp [hz]
      · simp [ZoneState.bits, hz]
      · rintro _ _ ⟨⟩ _ ⟨⟩
        rfl
    · cases hs
  | compactWrite => exact h.compactWrite hs

end ReclaimInv

variable {unitCapacity : ℕ} {r : ReclaimState}

end ReclaimState

end CrowDB
