/-
  The bitmap of a zone covers the durable busy-block records, and no two of these overlap.

  A claim takes units that the bitmap has clear, so the bitmap must over-estimate the busy-block
  records and the claims that are not persisted yet.  A load starts from snapshot and journal, which
  have to cover the records as well; a compaction clears what the free-block records name, which
  have to be disjoint from the blocks in use.  The code keeps neither when units are allocated that
  a free-block record or the snapshot still names, when a free or a commit is about a block that has
  changed hands, or when an allocation and a compaction of the zone overlap.
-/
import CrowDB.DiskDb.Allocator

namespace CrowDB

open Lib Option Finset

variable {reads : LoadReads} {unitCapacity : ℕ} {st : ZoneStore}

namespace ZoneStore

/-- Every unit of a busy-block record is set. -/
def CoveredBy (s : ZoneStore) (b : UsageBitmap) : Prop :=
  ∀ p ∈ s.busy.records, units p.1 p.2.unitCount ⊆ b
deriving Decidable

/-- No two busy blocks overlap. -/
def BusyDisjoint (s : ZoneStore) : Prop := ∀ p ∈ s.busy.records, ∀ q ∈ s.busy.records, p.1 ≠ q.1 →
    Disjoint (units p.1 p.2.unitCount) (units q.1 q.2.unitCount)
deriving Decidable

/-- The busy blocks of `s'` are blocks of `s`. -/
def BlocksFrom (s' s : ZoneStore) : Prop :=
  ∀ p' ∈ s'.busy.records, ∃ p ∈ s.busy.records, p.1 = p'.1 ∧ p.2.unitCount = p'.2.unitCount

variable {s s' : ZoneStore}

theorem BlocksFrom.of_subset (h : ∀ p ∈ s'.busy.records, p ∈ s.busy.records) : s'.BlocksFrom s :=
  fun p hp => ⟨p, h p hp, rfl, rfl⟩

theorem BlocksFrom.forall {P : ℕ → ℕ → Prop} (h : s'.BlocksFrom s)
    (hP : ∀ p ∈ s.busy.records, P p.1 p.2.unitCount) :
    ∀ p ∈ s'.busy.records, P p.1 p.2.unitCount := by
  intro p' hp'
  obtain ⟨p, hp, h1, h2⟩ := h p' hp'
  rw [← h1, ← h2]
  exact hP p hp

theorem BlocksFrom.coveredBy (h : s'.BlocksFrom s) {b : UsageBitmap} (hb : s.CoveredBy b) :
    s'.CoveredBy b :=
  h.forall (P := fun o n => units o n ⊆ b) hb

theorem BlocksFrom.busyDisjoint (h : s'.BlocksFrom s) (hd : s.BusyDisjoint) : s'.BusyDisjoint := by
  refine h.forall (P := fun o n => ∀ q ∈ s'.busy.records, o ≠ q.1 →
    Disjoint (units o n) (units q.1 q.2.unitCount)) fun p hp => ?_
  exact h.forall (P := fun o n => p.1 ≠ o → Disjoint (units p.1 p.2.unitCount) (units o n)) (hd p hp)

theorem CoveredBy.mono {b b' : UsageBitmap} (h : s.CoveredBy b) (hb : b ⊆ b') : s.CoveredBy b' :=
  fun p hp => (h p hp).trans hb

theorem BusyDisjoint.coveredBy_scan (h : s.BusyDisjoint) : s.CoveredBy (scanBits s.busy.records) := by
  refine subset_scanBits ((List.pairwise_map.mp s.busy.sorted).imp_of_mem ?_)
  intro p q hp hq hlt
  exact h p hp q hq (ne_of_lt hlt)

/-! ## Loading -/

/-- What a load finds: the same blocks, and nothing uncovered. -/
structure Sound (s : ZoneStore) : Prop where
  disjoint : s.BusyDisjoint
  journal : ∀ b ∈ s.journalBits, s.CoveredBy b
  slots : s.SlotsOk

theorem loadZoneInner_bits {ts : ℕ} {z : DdbZone}
    (h : s.loadZoneInner reads unitCapacity = .ok (z, ts)) :
    z.usageBits ∈ s.journalBits := by
  unfold loadZoneInner at h
  split at h
  · cases h
  · split at h
    · cases h
    · rename_i bits slot compactTs hbase
      split at h
      · cases h
      · split at h
        · cases h
        · rename_i ops hops
          split at h
          · cases h
          · cases h
            simp [journalBits, hbase, hops]

theorem Sound.putZone (hs : s.Sound) {value : ZoneValue} (hcov : s.CoveredBy value.usageBitmap)
    (hslot : value.snapshotSlot ≤ s.applied) : (s.putZone value).Sound where
  disjoint := hs.disjoint
  journal b hb p hp := (hcov p hp).trans (subset_journalBits_of_zoneValue rfl hb)
  slots := by
    rintro v ⟨⟩
    exact Nat.le_succ_of_le hslot

/-- **A load** that finds its records gives a zone that covers them, and leaves a sound
    store with the same records. -/
theorem Sound.loadZone (hs : s.Sound) (hne : s.loadsEmpty reads unitCapacity = false)
    (put : WriteOutcome) :
    (s.loadZone reads unitCapacity put).1.Sound ∧
      (s.loadZone reads unitCapacity put).1.busy = s.busy ∧
      (s.loadZone reads unitCapacity put).1.free = s.free ∧
      s.CoveredBy (s.loadZone reads unitCapacity put).2.1.usageBits := by
  simp only [loadsEmpty, Bool.or_eq_false_iff, Bool.and_eq_false_iff, Bool.not_eq_false'] at hne
  obtain ⟨hpanic, hrecords⟩ := hne
  unfold ZoneStore.loadZone
  rw [hpanic, if_neg Bool.false_ne_true]
  cases hl : s.loadZoneInner reads unitCapacity with
  | ok =>
    exact ⟨hs, rfl, rfl, hs.journal _ (loadZoneInner_bits hl)⟩
  | error =>
    have hr : reads.records = true := hrecords.resolve_left (by simp [hl, Except.toBool])
    have hcov := hs.disjoint.coveredBy_scan
    simp only [rebuildZoneBitmapFullScan, hr, not_true_eq_false, ↓reduceIte]
    split
    · rename_i s' z heq
      split at heq
      · cases heq
        split
        · exact ⟨hs.putZone hcov le_rfl, rfl, rfl, hcov⟩
        · exact ⟨hs, rfl, rfl, hcov⟩
      · cases heq
        exact ⟨hs, rfl, rfl, hcov⟩
    · rename_i heq
      split at heq <;> cases heq

end ZoneStore

/-! ## The conditions -/

namespace ZoneState

variable (s : ZoneState)

/-- The freed ranges overlap no other busy block and no claim. -/
def FreesOwn (records : List (ℕ × FreeBlockValue)) : Prop := ∀ f ∈ records,
    (∀ p ∈ s.store.busy.records, p.1 ≠ f.1 → Disjoint (units f.1 f.2.unitCount)
      (units p.1 p.2.unitCount)) ∧
    ∀ c ∈ s.claims, Disjoint (units f.1 f.2.unitCount) c.range
deriving Decidable

/-- The records are still there, over the same units. -/
def CommitsOwn (records : List (ℕ × BusyBlockValue)) : Prop :=
  ∀ r ∈ records, ∃ p ∈ s.store.busy.records, p.1 = r.1 ∧ p.2.unitCount = r.2.unitCount
deriving Decidable

/-- The bitmap has every unit set that a free-block record names or that a load from
    snapshot and journal would set. -/
def OverEstimates (z : DdbZone) : Prop :=
  (∀ f ∈ s.store.free.records, units f.1 f.2.unitCount ⊆ z.usageBits) ∧
    ∀ b ∈ s.store.journalBits, b ⊆ z.usageBits
deriving Decidable

/-- **The conditions**: allocations and compactions do not overlap, claims are made in a bitmap that
    over-estimates, and frees and commits are about blocks as they still are. -/
def Disciplined : ZoneEvent → Prop
  | .allocate .. => s.compaction = none ∧ ∀ z ∈ s.zone, s.OverEstimates z
  | .compactScan => s.claims = []
  | .persistFree i outcome => outcome.applies = true → ∀ records ∈ s.freeing[i]?, s.FreesOwn records
  | .persistCommit i outcome => outcome.applies = true → ∀ records ∈
      s.committing[i]?, s.CommitsOwn records
  | _ => True

/-- A busy-block write that reports an error did not take effect, and a load finds the records. -/
def FaultsSeen (unitCapacity : ℕ) (s : ZoneState) : ZoneEvent → Prop
  | .load reads _ _ => s.store.loadsEmpty reads unitCapacity = false
  | .persistBusy _ outcome => outcome ≠ .lostReply
  | _ => True

/-- Writes fail without taking effect only, and the reads of a load succeed. -/
def WritesFailClean : ZoneEvent → Prop
  | .load reads _ put => reads = {} ∧ put ≠ .lostReply
  | .persistBusy _ outcome | .persistFree _ outcome | .persistCommit _ outcome
  | .compactWrite outcome => outcome ≠ .lostReply
  | _ => True

instance (s : ZoneState) (e : ZoneEvent) : Decidable (s.Disciplined e) := by
  cases e <;> unfold Disciplined <;> infer_instance

instance (unitCapacity : ℕ) (s : ZoneState) (e : ZoneEvent) :
    Decidable (s.FaultsSeen unitCapacity e) := by
  cases e <;> unfold FaultsSeen <;> infer_instance

instance (e : ZoneEvent) : Decidable (WritesFailClean e) := by
  cases e <;> unfold WritesFailClean <;> infer_instance

end ZoneState

/-! ## The invariant -/

/-- What a compaction has read agrees with the store. -/
def ZoneCompaction.Ok (s : ZoneStore) : ZoneCompaction → Prop
  | .scanned free => ∀ f ∈ free, ∀ p ∈ s.busy.records,
      Disjoint (units f.1 f.2.unitCount) (units p.1 p.2.unitCount)
  | .merged _ => True
  | .slotRead _ slot => slot ≤ s.applied
  | .copied _ value => s.CoveredBy value.usageBitmap ∧ value.snapshotSlot ≤ s.applied

theorem ZoneCompaction.Ok.mono {c : ZoneCompaction} {st' : ZoneStore} (h : c.Ok st)
    (hblocks : st'.BlocksFrom st) (happ : st.applied ≤ st'.applied) : c.Ok st' := by
  cases c with
  | scanned =>
    intro f hf
    exact hblocks.forall (P := fun o n => Disjoint (units f.1 f.2.unitCount) (units o n)) (h f hf)
  | merged => trivial
  | slotRead => exact Nat.le_trans h happ
  | copied => exact ⟨hblocks.coveredBy h.1, Nat.le_trans h.2 happ⟩

/-- The bitmap covers the busy blocks and the claims. -/
structure AllocInv (s : ZoneState) : Prop where
  sound : s.store.Sound
  covered : ∀ z ∈ s.zone, s.store.CoveredBy z.usageBits
  claimed : ∀ z ∈ s.zone, ∀ c ∈ s.claims, c.range ⊆ z.usageBits
  claims_disjoint : s.claims.Pairwise fun c d => Disjoint c.range d.range
  claims_busy : ∀ c ∈ s.claims, ∀ p ∈ s.store.busy.records, Disjoint c.range (units p.1 p.2.unitCount)
  claims_journal : ∀ c ∈ s.claims, ∀ b ∈ s.store.journalBits, Disjoint c.range b
  free_busy : ∀ f ∈ s.store.free.records, ∀ p ∈ s.store.busy.records,
    Disjoint (units f.1 f.2.unitCount) (units p.1 p.2.unitCount)
  free_claims : ∀ f ∈ s.store.free.records, ∀ c ∈ s.claims, Disjoint (units f.1 f.2.unitCount) c.range
  idle : s.zone = none → s.claims = [] ∧ s.compaction = none
  compaction : ∀ c ∈ s.compaction, s.claims = [] ∧ c.Ok s.store

namespace AllocInv

variable {s s' : ZoneState}

theorem unloaded (hsound : st.Sound) (hfree : ∀ f ∈ st.free.records, ∀ p ∈ st.busy.records,
    Disjoint (units f.1 f.2.unitCount) (units p.1 p.2.unitCount)) : AllocInv { store := st } where
  sound := hsound
  covered := by simp
  claimed := by simp
  claims_disjoint := List.Pairwise.nil
  claims_busy := by simp
  claims_journal := by simp
  free_busy := hfree
  free_claims := by simp
  idle _ := ⟨rfl, rfl⟩
  compaction := by simp

theorem init : AllocInv {} :=
  unloaded ⟨by simp [ZoneStore.BusyDisjoint, RecordStore.empty],
    by simp [ZoneStore.CoveredBy, RecordStore.empty], by simp [ZoneStore.SlotsOk]⟩
      (by simp [RecordStore.empty])

variable (h : AllocInv s) {c d : AllocClaim} {outcome : WriteOutcome}
include h

theorem write_blocksFrom (hblocks : st.BlocksFrom s.store)
    (hj : ∀ b ∈ st.journalBits, b ∈ s.store.journalBits) (hslots : st.SlotsOk)
    (hfree : ∀ f ∈ st.free.records,
      (∀ p ∈ st.busy.records, Disjoint (units f.1 f.2.unitCount) (units p.1 p.2.unitCount)) ∧
      ∀ c ∈ s.claims, Disjoint (units f.1 f.2.unitCount) c.range)
    (happ : s.store.applied ≤ st.applied) : AllocInv { s with store := st } where
  sound := ⟨hblocks.busyDisjoint h.sound.disjoint, fun b hb =>
    hblocks.coveredBy (h.sound.journal b (hj b hb)), hslots⟩
  covered z hz := hblocks.coveredBy (h.covered z hz)
  claimed := h.claimed
  claims_disjoint := h.claims_disjoint
  claims_busy c hc := hblocks.forall (P := fun o n => Disjoint c.range (units o n))
    (h.claims_busy c hc)
  claims_journal c hc b hb := h.claims_journal c hc b (hj b hb)
  free_busy f hf := (hfree f hf).1
  free_claims f hf := (hfree f hf).2
  idle := h.idle
  compaction c hc := ⟨(h.compaction c hc).1, ZoneCompaction.Ok.mono
    (h.compaction c hc).2 hblocks happ⟩

theorem write_cases
    (happly : outcome.applies = true → AllocInv { s with store := st }) :
    AllocInv { s with store := s.store.write outcome st } := by
  unfold ZoneStore.write
  split
  · exact happly ‹_›
  · exact h

theorem slotsOk_batchWrite (ops : List JournalOp) : (s.store.batchWrite ops).SlotsOk := by
  intro value hv
  rw [ZoneStore.batchWrite_zoneValue] at hv
  exact Nat.le_succ_of_le (h.sound.slots value hv)

theorem free_unused {f : ℕ × FreeBlockValue} (hf : f ∈ s.store.free.records) :
    (∀ p ∈ s.store.busy.records, Disjoint (units f.1 f.2.unitCount) (units p.1 p.2.unitCount)) ∧
      ∀ c ∈ s.claims, Disjoint (units f.1 f.2.unitCount) c.range :=
  ⟨h.free_busy f hf, h.free_claims f hf⟩

/-! ## Free and commit -/

theorem persistFreeBatch {records : List (ℕ × FreeBlockValue)} (hown : s.FreesOwn records) :
    AllocInv { s with store := s.store.persistFreeBatch records } := by
  refine h.write_blocksFrom (.of_subset fun p hp => (ZoneStore.mem_busy_persistFreeBatch hp).1) ?_
    (h.slotsOk_batchWrite _) ?_ (Nat.le_succ _)
  · intro b hb
    rw [ZoneStore.persistFreeBatch, ZoneStore.journalBits_batchWrite h.sound.slots] at hb
    obtain ⟨b', hb', rfl⟩ := map_eq_some_iff.mp hb
    rw [replayBits_eq_self (by simp)]
    exact hb'
  · intro f hf
    rcases ZoneStore.mem_free_persistFreeBatch hf with ⟨hf, -⟩ | hf
    · exact ⟨fun p hp => h.free_busy f hf p (ZoneStore.mem_busy_persistFreeBatch hp).1,
        h.free_claims f hf⟩
    · refine ⟨fun p hp => ?_, (hown f hf).2⟩
      obtain ⟨hp, hne⟩ := ZoneStore.mem_busy_persistFreeBatch hp
      exact (hown f hf).1 p hp (hne f hf).symm

theorem persistCommitBatch {records : List (ℕ × BusyBlockValue)}
    (hown : s.CommitsOwn records) :
    AllocInv { s with store := s.store.persistBusyBatch records } := by
  have hblocks : (s.store.persistBusyBatch records).BlocksFrom s.store := by
    intro p hp
    rcases ZoneStore.mem_busy_persistBusyBatch hp with hp | hp
    · exact ⟨p, hp, rfl, rfl⟩
    · exact hown p hp
  refine h.write_blocksFrom hblocks ?_ (h.slotsOk_batchWrite _) ?_ (Nat.le_succ _)
  · intro b hb
    rw [ZoneStore.persistBusyBatch, ZoneStore.journalBits_batchWrite h.sound.slots] at hb
    obtain ⟨b', hb', rfl⟩ := map_eq_some_iff.mp hb
    rw [replayBits_eq_self]
    · exact hb'
    · intro offset value hm
      simp only [List.mem_flatMap, List.mem_cons, JournalOp.putBusy.injEq, reduceCtorEq,
        List.not_mem_nil, or_false] at hm
      obtain ⟨r, hr, rfl, rfl⟩ := hm
      obtain ⟨p, hp, h1, h2⟩ := hown r hr
      rw [← h1, ← h2]
      exact h.sound.journal b' hb' p hp
  · intro f hf
    have hf := ZoneStore.mem_free_persistBusyBatch hf
    exact ⟨hblocks.forall (P := fun o n => Disjoint (units f.1 f.2.unitCount) (units o n))
      (h.free_busy f hf), h.free_claims f hf⟩

/-! ## Allocation -/

theorem allocate {request unitCount ownerChunk : ℕ}
    (hd : s.Disciplined (.allocate request unitCount ownerChunk))
    (hs : s.allocate request unitCount ownerChunk = some s') : AllocInv s' := by
  obtain ⟨z, hz, hmap⟩ := bind_eq_some_iff.mp hs
  obtain ⟨⟨z', offset⟩, halloc, rfl⟩ := map_eq_some_iff.mp hmap
  obtain ⟨-, -, hclear, hbits⟩ := DdbZone.allocate_spec halloc
  obtain ⟨hcomp, hover⟩ := hd
  obtain ⟨hfree, hjournal⟩ := hover z hz
  have hgrow : z.usageBits ⊆ z'.usageBits := hbits ▸ subset_union_left
  -- whatever the old bitmap covers is disjoint from the new claim
  have hout : ∀ {r : Finset ℕ}, r ⊆ z.usageBits → Disjoint (units offset unitCount) r :=
    fun hr => disjoint_of_subset_right hr hclear
  exact {
    sound := h.sound
    covered := by
      rintro _ ⟨⟩
      exact (h.covered z hz).mono hgrow
    claimed := by
      rintro _ ⟨⟩ c hc
      rcases List.mem_cons.mp hc with rfl | hc
      · rw [hbits]
        exact subset_union_right
      · exact (h.claimed z hz c hc).trans hgrow
    claims_disjoint := List.pairwise_cons.mpr ⟨fun c hc => hout (h.claimed z hz c hc),
      h.claims_disjoint⟩
    claims_busy := by
      intro c hc p hp
      rcases List.mem_cons.mp hc with rfl | hc
      · exact hout (h.covered z hz p hp)
      · exact h.claims_busy c hc p hp
    claims_journal := by
      intro c hc b hb
      rcases List.mem_cons.mp hc with rfl | hc
      · exact hout (hjournal b hb)
      · exact h.claims_journal c hc b hb
    free_busy := h.free_busy
    free_claims := by
      intro f hf c hc
      rcases List.mem_cons.mp hc with rfl | hc
      · exact (hout (hfree f hf)).symm
      · exact h.free_claims f hf c hc
    idle := by rintro ⟨⟩
    compaction := by
      intro c hc
      rw [hcomp] at hc
      cases hc }

theorem disjoint_of_ne (hc : c ∈ s.claims) (hd : d ∈ s.claims) (hne : c ≠ d) :
    Disjoint c.range d.range := by
  exact h.claims_disjoint.forall hc hd hne

variable {request : ℕ}
omit h in
theorem claimsNotOf_subset (hc : c ∈ s.claimsNotOf request) : c ∈ s.claims :=
  List.mem_of_mem_filter hc
omit h in
theorem ne_of_claimsNotOf (hc : c ∈ s.claimsNotOf request) (hd : d.request = request) : c ≠ d := by
  rintro rfl
  exact of_decide_eq_true (List.mem_filter.mp hc).2 hd

/-- Claims that are given up, with the bits left as they are or with these claims' bits
    cleared. -/
theorem dropClaims (request : ℕ) (zone : Option DdbZone)
    (hzone : ∀ z' ∈ zone, ∃ z ∈ s.zone, ∀ u ∈ z.usageBits, (∀ c ∈ s.claimsOf request, u ∉ c.range) →
      u ∈ z'.usageBits)
    (hnone : zone = none → s.zone = none) :
    AllocInv { s with zone := zone, claims := s.claimsNotOf request } where
  sound := h.sound
  covered := by
    intro z' hz' p hp u hu
    obtain ⟨z, hz, hkeep⟩ := hzone z' hz'
    refine hkeep u (h.covered z hz p hp hu) fun c hc hcu => ?_
    exact disjoint_left.mp (h.claims_busy c (List.mem_of_mem_filter hc) p hp) hcu hu
  claimed := by
    intro z' hz' c hc u hu
    obtain ⟨z, hz, hkeep⟩ := hzone z' hz'
    refine hkeep u (h.claimed z hz c (claimsNotOf_subset hc) hu) fun d hd hdu => ?_
    -- the claims of the request are other claims than `c`
    obtain ⟨hd, hr⟩ := List.mem_filter.mp hd
    exact disjoint_left.mp (h.disjoint_of_ne (claimsNotOf_subset hc) hd
      (ne_of_claimsNotOf hc (of_decide_eq_true hr))) hu hdu
  claims_disjoint := h.claims_disjoint.filter _
  claims_busy c hc := h.claims_busy c (claimsNotOf_subset hc)
  claims_journal c hc := h.claims_journal c (claimsNotOf_subset hc)
  free_busy := h.free_busy
  free_claims f hf c hc := h.free_claims f hf c (claimsNotOf_subset hc)
  idle hz := by
    obtain ⟨hc, hcomp⟩ := h.idle (hnone hz)
    exact ⟨by simp [ZoneState.claimsNotOf, hc], hcomp⟩
  compaction c hc := by
    obtain ⟨hnil, hok⟩ := h.compaction c hc
    exact ⟨by simp [ZoneState.claimsNotOf, hnil], hok⟩
omit h in
theorem rollback_bits {z : DdbZone} {claims : List AllocClaim} {u : ℕ} (hu : u ∈ z.usageBits)
    (hout : ∀ c ∈ claims, u ∉ c.range) :
    u ∈ (claims.foldl (fun z c => (z.rollbackAllocate c.unitOffset c.unitCount).1) z).usageBits := by
  induction claims generalizing z with
  | nil => exact hu
  | cons c _ ih =>
    refine ih ?_ fun d hd => hout d (by simp [hd])
    exact DdbZone.rollbackAllocate_bits z _ _ (mem_sdiff.mpr ⟨hu, hout c (by simp)⟩)

theorem persistBusy_failed (request : ℕ) : AllocInv (s.persistBusy request .failed) := by
  refine h.dropClaims request (s.rollback request) ?_ ?_
  · intro z' hz'
    obtain ⟨z, hz, rfl⟩ := map_eq_some_iff.mp hz'
    exact ⟨z, hz, fun u hu hout => rollback_bits hu hout⟩
  · exact fun hnone => map_eq_none_iff.mp hnone
omit h in
theorem mem_busyBlocks {p : ℕ × BusyBlockValue}
    (hp : p ∈ (s.claimsOf request).map AllocClaim.busyBlock) :
    ∃ c ∈ s.claims, c.request = request ∧ c.busyBlock = p := by
  obtain ⟨c, hc, rfl⟩ := List.mem_map.mp hp
  obtain ⟨hc, hr⟩ := List.mem_filter.mp hc
  exact ⟨c, hc, of_decide_eq_true hr, rfl⟩

theorem mem_journalBits_persistBusy {b : UsageBitmap}
    (hb : b ∈ (s.store.persistBusyBatch
      ((s.claimsOf request).map AllocClaim.busyBlock)).journalBits) :
    ∃ b₀ ∈ s.store.journalBits, ∀ u, u ∈ b ↔ u ∈ b₀ ∨ ∃ c ∈ s.claimsOf request, u ∈ c.range := by
  rw [ZoneStore.persistBusyBatch, ZoneStore.journalBits_batchWrite h.sound.slots] at hb
  obtain ⟨b₀, hb₀, rfl⟩ := map_eq_some_iff.mp hb
  refine ⟨b₀, hb₀, fun u => ?_⟩
  rw [replayBits_persistBusy, mem_foldl_rangeSet]
  · simp only [List.mem_map, exists_exists_and_eq_and]
    rfl
  · exact List.pairwise_map.mpr (h.claims_disjoint.filter _)
  · intro p hp
    obtain ⟨c, hc, -, rfl⟩ := mem_busyBlocks hp
    exact h.claims_journal c hc b₀ hb₀

/-- **A busy-block write that succeeds** turns the claims of the request into records. -/
theorem persistBusy_ok (request : ℕ) : AllocInv (s.persistBusy request .ok) := by
  have hbusy : ∀ p ∈ (s.persistBusy request .ok).store.busy.records,
      p ∈ s.store.busy.records ∨ ∃ c ∈ s.claims, c.request = request ∧ c.busyBlock = p := by
    intro p hp
    exact (ZoneStore.mem_busy_persistBusyBatch hp).imp_right mem_busyBlocks
  have hfree : ∀ f ∈ (s.persistBusy request .ok).store.free.records, f ∈ s.store.free.records :=
    fun f hf => ZoneStore.mem_free_persistBusyBatch hf
  have hdrop := h.dropClaims request s.zone (fun z hz => ⟨z, hz, fun u hu _ => hu⟩) id
  exact { hdrop with
    sound := {
      disjoint := by
        intro p hp q hq hne
        rcases hbusy p hp with hp | ⟨c, hc, -, rfl⟩ <;> rcases hbusy q hq with hq | ⟨d, hd, -, rfl⟩
        · exact h.sound.disjoint p hp q hq hne
        · exact (h.claims_busy d hd p hp).symm
        · exact h.claims_busy c hc q hq
        · exact h.disjoint_of_ne hc hd fun hcd => hne (by rw [hcd])
      journal := by
        intro b hb p hp u hu
        obtain ⟨b₀, hb₀, hmem⟩ := h.mem_journalBits_persistBusy hb
        rcases hbusy p hp with hp | ⟨c, hc, hr, rfl⟩
        · exact (hmem u).mpr (.inl (h.sound.journal b₀ hb₀ p hp hu))
        · exact (hmem u).mpr (.inr ⟨c, List.mem_filter.mpr ⟨hc, decide_eq_true hr⟩, hu⟩)
      slots := h.slotsOk_batchWrite _ }
    covered := by
      intro z hz p hp
      rcases hbusy p hp with hp | ⟨c, hc, -, rfl⟩
      · exact h.covered z hz p hp
      · exact h.claimed z hz c hc
    claims_busy := by
      intro c hc p hp
      rcases hbusy p hp with hp | ⟨d, hd, hr, rfl⟩
      · exact hdrop.claims_busy c hc p hp
      · exact h.disjoint_of_ne (claimsNotOf_subset hc) hd (ne_of_claimsNotOf hc hr)
    claims_journal := by
      intro c hc b hb
      obtain ⟨b₀, hb₀, hmem⟩ := h.mem_journalBits_persistBusy hb
      rw [disjoint_left]
      intro u hu hub
      rcases (hmem u).mp hub with hub | ⟨d, hd, hud⟩
      · exact disjoint_left.mp (h.claims_journal c (claimsNotOf_subset hc) b₀ hb₀) hu hub
      · obtain ⟨hd, hr⟩ := List.mem_filter.mp hd
        exact disjoint_left.mp (h.disjoint_of_ne (claimsNotOf_subset hc) hd
          (ne_of_claimsNotOf hc (of_decide_eq_true hr))) hu hud
    free_busy := by
      intro f hf p hp
      rcases hbusy p hp with hp | ⟨c, hc, -, rfl⟩
      · exact h.free_busy f (hfree f hf) p hp
      · exact h.free_claims f (hfree f hf) c hc
    free_claims := fun f hf => hdrop.free_claims f (hfree f hf)
    compaction := by
      -- no claim is in flight while a compaction runs, so nothing is written
      intro c hc
      refine ⟨(hdrop.compaction c hc).1, (hdrop.compaction c hc).2.mono ?_ (Nat.le_succ _)⟩
      refine .of_subset fun p hp => (hbusy p hp).resolve_right ?_
      rw [(h.compaction c hc).1]
      simp }

/-! ## Compaction -/

theorem compactScan (hnil : s.claims = []) (hs : s.compactScan = some s') : AllocInv s' := by
  unfold ZoneState.compactScan at hs
  split at hs
  · cases hs
  · rename_i hz
    split at hs
    · cases hs
      exact h
    · cases hs
      exact { h with
        idle := fun hnone => absurd (.inl (isNone_iff_eq_none.mpr hnone)) hz
        compaction := by
          rintro _ ⟨⟩
          exact ⟨hnil, h.free_busy⟩ }

theorem compactMerge (hs : s.compactMerge = some s') : AllocInv s' := by
  unfold ZoneState.compactMerge at hs
  split at hs
  · rename_i free z hc hz
    cases hs
    obtain ⟨hnil, hok⟩ := h.compaction _ hc
    exact { h with
      covered := by
        rintro _ ⟨⟩ p hp
        exact DdbZone.compactZoneInner_bits (h.covered z hz p hp) fun f hf => hok f hf p hp
      claimed := by
        rintro _ ⟨⟩ c hc
        rw [show s.claims = [] from hnil] at hc
        cases hc
      idle := by rintro ⟨⟩
      compaction := by
        rintro _ ⟨⟩
        exact ⟨hnil, trivial⟩ }
  · cases hs

theorem compactSlot {known : Bool} (hs : s.compactSlot known = some s') : AllocInv s' := by
  unfold ZoneState.compactSlot at hs
  split at hs
  · rename_i freeKeys hc
    cases hs
    exact { h with
      idle := fun hz => absurd hc (by simp [(h.idle hz).2])
      compaction := by
        rintro _ ⟨⟩
        refine ⟨(h.compaction _ hc).1, ?_⟩
        cases known
        · exact Nat.zero_le _
        · exact Nat.le_refl _ }
  · cases hs

theorem compactCopy (hs : s.compactCopy = some s') : AllocInv s' := by
  unfold ZoneState.compactCopy at hs
  split at hs
  · rename_i freeKeys slot z hc hz
    cases hs
    obtain ⟨hnil, hok⟩ := h.compaction _ hc
    exact { h with
      covered := by
        rintro _ ⟨⟩
        exact h.covered z hz
      claimed := by
        rintro _ ⟨⟩
        exact h.claimed z hz
      idle := by rintro ⟨⟩
      compaction := by
        rintro _ ⟨⟩
        exact ⟨hnil, h.covered z hz, hok⟩ }
  · cases hs

theorem compactWrite (hs : s.compactWrite outcome = some s') : AllocInv s' := by
  unfold ZoneState.compactWrite at hs
  split at hs
  · rename_i freeKeys value hc
    cases hs
    obtain ⟨hnil, hcov, hslot⟩ := h.compaction _ hc
    have hdone : AllocInv { s with compaction := none } := { h with
      idle := fun hz => ⟨(h.idle hz).1, rfl⟩
      compaction := by simp }
    refine hdone.write_cases fun _ => ?_
    have hbusy : ∀ p ∈ (s.store.compactZoneBatch value freeKeys).busy.records, p ∈
      s.store.busy.records :=
      fun p hp => (ZoneStore.mem_busy_batchWrite hp).resolve_right (by simp)
    have hfree : ∀ f ∈ (s.store.compactZoneBatch value freeKeys).free.records, f ∈
      s.store.free.records :=
      fun f hf => (ZoneStore.mem_free_batchWrite hf).resolve_right (by simp)
    exact { hdone with
      sound := {
        disjoint := (ZoneStore.BlocksFrom.of_subset hbusy).busyDisjoint h.sound.disjoint
        journal := fun b hb p hp =>
          (hcov p (hbusy p hp)).trans (ZoneStore.subset_journalBits_of_zoneValue rfl hb)
        slots := by
          rintro _ ⟨⟩
          exact Nat.le_succ_of_le hslot }
      covered := fun z hz p hp => h.covered z hz p (hbusy p hp)
      claims_busy := fun c hc p hp => h.claims_busy c hc p (hbusy p hp)
      claims_journal := by simp [hnil]
      free_busy := fun f hf p hp => h.free_busy f (hfree f hf) p (hbusy p hp)
      free_claims := fun f hf => h.free_claims f (hfree f hf)
      compaction := by simp }
  · cases hs

/-! ## Loads, crashes and the rest -/

theorem load {now : ℕ} {put : WriteOutcome}
    (hseen : s.store.loadsEmpty reads unitCapacity = false)
    (hs : s.load unitCapacity reads now put = some s') :
    AllocInv s' := by
  unfold ZoneState.load at hs
  split at hs
  · cases hs
  · rename_i hz
    obtain ⟨hnil, hcomp⟩ := h.idle (by simpa using hz)
    obtain ⟨hsound, hbusy, hfree, hcov⟩ := h.sound.loadZone hseen put
    cases hs
    exact {
      sound := hsound
      covered := by
        rintro _ ⟨⟩ p hp
        exact hcov p (hbusy ▸ hp)
      claimed := by simp [hnil]
      claims_disjoint := h.claims_disjoint
      claims_busy := by simp [hnil]
      claims_journal := by simp [hnil]
      free_busy := fun f hf p hp => h.free_busy f (hfree ▸ hf) p (hbusy ▸ hp)
      free_claims := by simp [hnil]
      idle := by rintro ⟨⟩
      compaction := by simp [hcomp] }

theorem corruptSnapshot : AllocInv { s with
    store := { s.store with zoneValue := s.store.zoneValue.map fun value =>
      { value with crcOk := false } } } := by
  refine h.write_blocksFrom (.of_subset fun p hp => hp) ?_ ?_ (fun f hf => h.free_unused hf) le_rfl
  · intro b hb
    unfold ZoneStore.journalBits ZoneStore.snapshotBase at hb ⊢
    cases hv : s.store.zoneValue with
    | none =>
      rw [hv] at hb
      exact hb
    | some =>
      rw [hv] at hb
      cases hb
  · intro v hv
    obtain ⟨v₀, hv₀, rfl⟩ := map_eq_some_iff.mp hv
    exact h.sound.slots v₀ hv₀

theorem step {e : ZoneEvent} (hd : s.Disciplined e) (hf : s.FaultsSeen unitCapacity e)
    (hs : s.step unitCapacity e = some s') : AllocInv s' := by
  cases e with
  | load => exact h.load hf hs
  | crash =>
    cases hs
    exact unloaded h.sound h.free_busy
  | allocate => exact h.allocate hd hs
  | abandon request =>
    cases hs
    exact h.dropClaims request s.zone (fun z hz => ⟨z, hz, fun u hu _ => hu⟩) id
  | persistBusy request outcome =>
    cases hs
    cases outcome with
    | ok => exact h.persistBusy_ok request
    | failed => exact h.persistBusy_failed request
    | lostReply => exact absurd rfl hf
  | freeBlocks =>
    simp only [ZoneState.step, ZoneState.freeBlocks] at hs
    split at hs
    · cases hs
    · cases hs
      exact { h with }
  | persistFree =>
    obtain ⟨records, hr, rfl⟩ := map_eq_some_iff.mp hs
    have h' := h.write_cases fun ha => h.persistFreeBatch (hd ha records hr)
    exact { h' with }
  | commitBlocks =>
    obtain ⟨records, _, rfl⟩ := map_eq_some_iff.mp hs
    exact { h with }
  | persistCommit =>
    obtain ⟨records, hr, rfl⟩ := map_eq_some_iff.mp hs
    have h' := h.write_cases fun ha => h.persistCommitBatch (hd ha records hr)
    exact { h' with }
  | compactScan => exact h.compactScan hd hs
  | compactMerge => exact h.compactMerge hs
  | compactSlot => exact h.compactSlot hs
  | compactCopy => exact h.compactCopy hs
  | compactWrite => exact h.compactWrite hs
  | otherWrite =>
    cases hs
    refine h.write_blocksFrom (.of_subset fun p hp => hp) ?_ (h.slotsOk_batchWrite _)
      (fun f hf => h.free_unused hf) (Nat.le_succ _)
    intro b hb
    rw [ZoneStore.journalBits_batchWrite h.sound.slots] at hb
    obtain ⟨b₀, hb₀, rfl⟩ := map_eq_some_iff.mp hb
    exact hb₀
  | trim =>
    cases hs
    exact h.write_blocksFrom (.of_subset fun p hp => hp) (fun b hb => ZoneStore.journalBits_trim hb)
      h.sound.slots (fun f hf => h.free_unused hf) le_rfl
  | corruptSnapshot =>
    cases hs
    exact h.corruptSnapshot

end AllocInv

namespace ZoneState

theorem allocInv_of_reach {s : ZoneState}
    (h : Reach (step unitCapacity) (fun s e => s.Disciplined e ∧ s.FaultsSeen unitCapacity e)
      {} s) : AllocInv s :=
  h.invariant AllocInv.init fun hinv hok hs => hinv.step hok.1 hok.2 hs

theorem WritesFailClean.faultsSeen {s : ZoneState} {e : ZoneEvent} (h : WritesFailClean e) :
    s.FaultsSeen unitCapacity e := by
  cases e with
  | load =>
    obtain ⟨rfl, -⟩ := h
    simp [FaultsSeen, ZoneStore.loadsEmpty]
  | persistBusy => exact h
  | _ => trivial

/-- The busy-block records are covered by the bitmap and do not overlap. -/
def NoDoubleAllocation (s : ZoneState) : Prop :=
  (∀ z ∈ s.zone, s.store.CoveredBy z.usageBits) ∧ s.store.BusyDisjoint
deriving Decidable

/-- **No double allocation**: the bits of every busy-block record are set, and no two records
    overlap. -/
theorem no_double_allocation_of_reach {unitCapacity : ℕ} {s : ZoneState}
    (h : Reach (step unitCapacity) (fun s e => WritesFailClean e ∧ s.Disciplined e) {} s) :
    s.NoDoubleAllocation := by
  have hinv : AllocInv s := allocInv_of_reach (h.weaken fun s e hok => ⟨hok.2, hok.1.faultsSeen⟩)
  exact ⟨hinv.covered, hinv.sound.disjoint⟩

/-- A failed write, a free, a compaction with a claim after it, and loads of both kinds. -/
theorem no_double_allocation_reloaded :
    ∃ s, Reach (step 8) (fun s e => WritesFailClean e ∧ s.Disciplined e) {} s ∧
      s.store.busy.records.map Prod.fst = [0, 2] ∧ s.NoDoubleAllocation := by
  exact Reach.exists_and_of_run [.load {} 0 .ok, .allocate 0 2 7, .persistBusy 0 .failed,
    .allocate 1 2 7,
    .allocate 1 1 7,
      .persistBusy 1 .ok, .commitBlocks [⟨0, 2, 7⟩], .persistCommit 0 .ok,
        .freeBlocks [(⟨0, 2, 7⟩, 10)] true,
      .persistFree 0 .ok, .compactScan, .compactMerge, .compactSlot true, .compactCopy,
        .compactWrite .ok,
      .allocate 2 1 9, .persistBusy 2 .ok, .crash, .load {} 20 .ok, .trim 9, .crash,
        .load {} 30 .failed] (by decide +kernel) fun s hs _ => no_double_allocation_of_reach hs

/-- Units are allocated again after a full scan, in other blocks than they were freed in; the
    free-block record that is left clears units of the new blocks. -/
def staleFreeRun : List ZoneEvent :=
  [.load {} 0 .ok, .allocate 0 1 7, .persistBusy 0 .ok, .allocate 1 2 7, .persistBusy 1 .ok,
    .freeBlocks [(⟨1, 2, 7⟩, 10)] true, .persistFree 0 .ok, .freeBlocks [(⟨0, 1, 7⟩, 11)] true,
    .persistFree 0 .ok, .trim 5, .crash, .load {} 20 .ok, .allocate 2 2 9, .persistBusy 2 .ok,
    .allocate 3 1 9, .persistBusy 3 .ok, .compactScan, .compactMerge]

theorem stale_free_record_allocates_twice : (∃ s, Reach (step 8) (fun _ e => WritesFailClean e) {} s ∧
      ¬ ∀ z ∈ s.zone, s.store.CoveredBy z.usageBits) ∧
    ∃ s, Reach (step 8) (fun _ e => WritesFailClean e) {} s ∧ ¬ s.store.BusyDisjoint := by
  constructor
  · exact Reach.exists_of_run staleFreeRun (by decide +kernel)
  · exact Reach.exists_of_run
      (staleFreeRun ++ [.compactSlot true, .compactCopy, .compactWrite .ok, .allocate 4 1 5,
      .persistBusy 4 .ok]) (by decide +kernel)

/-- **Failures make no busy unit allocatable**, under the conditions. -/
theorem busy_never_allocatable_of_reach {unitCapacity : ℕ} {s : ZoneState}
    (h : Reach (step unitCapacity) (fun s e => s.Disciplined e ∧ s.FaultsSeen unitCapacity e) {} s) :
    ∀ z ∈ s.zone, s.store.CoveredBy z.usageBits :=
  (allocInv_of_reach h).covered

/-- A free and a compaction whose writes report errors and take effect, and a load that
    cannot read the snapshot. -/
theorem busy_never_allocatable_lost_replies :
    ∃ s, Reach (step 8) (fun s e => s.Disciplined e ∧ s.FaultsSeen 8 e) {} s ∧
      s.store.busy.records.map Prod.fst = [0, 2] ∧ s.zone.isSome ∧
      ∀ z ∈ s.zone, s.store.CoveredBy z.usageBits := by
  exact Reach.exists_imp_of_run (fun s => s.store.busy.records.map Prod.fst = [0, 2] ∧ s.zone.isSome)
    [.load {} 0 .ok, .allocate 0 2 7, .allocate 0 1 7, .persistBusy 0 .ok,
      .freeBlocks [(⟨0, 2, 7⟩, 10)] true,
      .persistFree 0 .lostReply, .compactScan, .compactMerge, .compactSlot true, .compactCopy,
      .compactWrite .lostReply, .allocate 1 1 9, .persistBusy 1 .ok, .crash,
      .load { zoneValue := false } 20 .lostReply] (by decide +kernel) fun s hs ⟨hb, hz⟩ => ⟨hb,
        hz, busy_never_allocatable_of_reach hs⟩

/-- A busy-block write that took effect is undone because it reports an error, and a zone whose
    reads fail is loaded empty. -/
theorem busy_allocatable_after_failures : (∃ s, Reach (step 8) Disciplined {} s ∧
      s.zone.any (fun z => z.allocatable && !decide (s.store.CoveredBy z.usageBits)) ∧
      s.claims = [] ∧ s.store.busy.records = [(0, ⟨4, 7, .tentative⟩)]) ∧
    ∃ s, Reach (step 8) Disciplined {} s ∧
      s.zone.any (fun z => z.allocatable && !decide (s.store.CoveredBy z.usageBits)) ∧
      s.store.busy.records = [(0, ⟨4, 7, .committed⟩)] := by
  constructor
  · exact Reach.exists_of_run [.load {} 0 .ok, .allocate 0 4 7, .persistBusy 0 .lostReply]
      (by decide +kernel)
  · exact Reach.exists_of_run
      [.load {} 0 .ok, .allocate 0 4 7, .persistBusy 0 .ok, .commitBlocks [⟨0, 4, 7⟩],
        .persistCommit 0 .ok,
        .crash, .load { zoneValue := false, records := false } 9 .ok] (by decide +kernel)

end ZoneState

end CrowDB
