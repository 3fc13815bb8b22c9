/-
  The ghost scan of a zone (`scanner/ghost.rs`): the journal is replayed, the records are read, the
  replayed bitmap is compared with the live one, and after a delay the bits that are set without a
  record are cleared.

  Records are looked up by the offset at which a block starts, and allocations go on meanwhile.  So a
  bit without a record may belong to a block longer than a unit, or to one that was allocated after
  the replay.

  What is only counted and reported is left out.  A load that falls back to the full scan corrects
  nothing, and a compaction holds the zone's lock within one step.
-/
import CrowDB.DiskDb.Reclaim

namespace CrowDB

open Lib List Option Finset

/-- Where the scan of the zone stands.  A bit of `diff` comes with whether it is set in the live
    bitmap only. -/
inductive GhostScan where
  | replayed (bits : UsageBitmap)
  | read (bits : UsageBitmap) (busyOffsets freeOffsets : List ℕ)
  | diffed (diff : List (ℕ × Bool)) (busyOffsets freeOffsets : List ℕ)
  | correcting (diff : List (ℕ × Bool)) (busyOffsets freeOffsets : List ℕ)
      (liveWordsAfterDelay : Option UsageBitmap)
deriving DecidableEq

/-- `diff_bitmaps`. -/
def diffBitmaps (live replayed : UsageBitmap) (unitCapacity : ℕ) : List (ℕ × Bool) :=
  ((List.range unitCapacity).filter fun bit =>
    decide (bit ∈ live) != decide (bit ∈ replayed)).map fun bit =>
    (bit, decide (bit ∈ live))

/-- The zone and its scan. -/
structure GhostState where
  zone : ZoneState := {}
  scan : Option GhostScan := none
deriving DecidableEq

/-- A step of the zone or of the scan. -/
inductive GhostEvent where
  | zone (e : ZoneEvent)
  | replay (reads : LoadReads) (put : WriteOutcome)
  | readRecords (ok : Bool)
  | diff
  | delay (reverify : Bool)
  /-- the next bit; its compare-and-swap may fail -/
  | correct (cas : Bool)
deriving DecidableEq

/-- The write of a busy-block record, or a claim that leads to one. -/
def ZoneEvent.allocates : ZoneEvent → Bool
  | .allocate _ _ _ | .persistBusy _ _ | .persistCommit _ _ => true
  | _ => false

namespace GhostState

variable (unitCapacity : ℕ) (autoCorrect : Bool) (s : GhostState)

/-- Load the zone beside the live one; only a load without fallback goes on to correct. -/
def replay (reads : LoadReads) (put : WriteOutcome) : Option GhostState :=
  if s.zone.zone.isNone ∨ s.scan.isSome then none
  else match s.zone.store.loadZoneInner reads unitCapacity with
  | .ok (zone, _) => some { s with scan := some (.replayed zone.usageBits) }
  | .error .kv => some s
  | .error _ =>
    match s.zone.store.rebuildZoneBitmapFullScan reads unitCapacity put with
    | .ok (store, _) => some { s with zone := { s.zone with store } }
    | .error _ => some s

/-- One bit of `classify_and_correct_diff`. -/
def correctBit (z : DdbZone) (bit : ℕ) (ghostBusy : Bool) (busyOffsets freeOffsets : List ℕ)
    (words : Option UsageBitmap) (cas : Bool) : DdbZone :=
  if ghostBusy then
    if bit ∉ busyOffsets ∧ bit ∉ freeOffsets ∧ words.all (decide <| bit ∈ ·) then
      if autoCorrect ∧ cas ∧ bit ∈ z.usageBits then
        { z with usageBits := z.usageBits.erase bit, usedCount := wrap32 (z.usedCount + 2 ^ 32 - 1) }
      else z
    else z
  else if bit ∈ busyOffsets ∧ words.all (decide <| bit ∉ ·) then
    if autoCorrect ∧ cas ∧ bit ∉ z.usageBits then
      { z with usageBits := insert bit z.usageBits, usedCount := wrap32 (z.usedCount + 1) }
    else z
  else z

/-- One step. -/
def step : GhostEvent → Option GhostState
  | .zone e => (s.zone.step unitCapacity e).map fun zone =>
      ⟨zone, if e = .crash then none else s.scan⟩
  | .replay reads put => s.replay unitCapacity reads put
  | .readRecords ok =>
    match s.scan with
    | some (.replayed bits) =>
      -- a failed read counts as no records
      let offsets := fun keys : List ℕ => if ok then keys else []
      some { s with scan := some (.read bits (offsets (s.zone.store.busy.records.map Prod.fst))
        (offsets (s.zone.store.free.records.map Prod.fst))) }
    | _ => none
  | .diff =>
    match s.scan with
    | some (.read bits busyOffsets freeOffsets) =>
      some { s with scan := some (.diffed
        (diffBitmaps s.zone.bits bits unitCapacity) busyOffsets freeOffsets) }
    | _ => none
  | .delay reverify =>
    match s.scan with
    | some (.diffed diff busyOffsets freeOffsets) =>
      let words := if reverify then some s.zone.bits else none
      some { s with scan := some (.correcting diff busyOffsets freeOffsets words) }
    | _ => none
  | .correct cas =>
    match s.scan with
    | some (.correcting [] _ _ _) => some { s with scan := none }
    | some (.correcting ((bit, ghostBusy) :: diff) busyOffsets freeOffsets words) =>
      let correct := fun z => correctBit autoCorrect z bit ghostBusy busyOffsets freeOffsets words cas
      some ⟨{ s.zone with zone := s.zone.zone.map correct },
        some (.correcting diff busyOffsets freeOffsets words)⟩
    | _ => none

/-- The next correction clears no bit of a busy-block record or of a claim in flight. -/
def Spares (cas : Bool) : Prop :=
  ∀ s' ∈ s.step unitCapacity autoCorrect (.correct cas), ∀ u ∈ s.zone.bits \ s'.zone.bits,
    (∀ p ∈ s.zone.store.busy.records, u ∉ units p.1 p.2.unitCount) ∧ ∀ c ∈ s.zone.claims, u ∉ c.range
deriving Decidable

/-- The zone is quiet while it is scanned: the replay gives the bits of every busy-block record, no
    busy-block record is written until the end, and no claim is in flight when bits are corrected. -/
def Quiet : GhostEvent → Prop
  | .zone e => s.scan.isSome = true → e.allocates = false
  | .replay reads _ => ∀ r ∈ (s.zone.store.loadZoneInner reads unitCapacity).toOption,
    ∀ p ∈ s.zone.store.busy.records, units p.1 p.2.unitCount ⊆ r.1.usageBits
  | .correct _ => s.zone.claims = []
  | _ => True

instance (s : GhostState) (e : GhostEvent) : Decidable (s.Quiet unitCapacity e) :=
  match e with
  | .zone _ => inferInstanceAs (Decidable (_ → _))
  | .replay _ _ => inferInstanceAs (Decidable (∀ _ ∈ _, _))
  | .correct _ => inferInstanceAs (Decidable (_ = _))
  | .readRecords _ | .diff | .delay _ => isTrue trivial

end GhostState

/-- What the scan knows of the units of a busy-block record. -/
def GhostScan.Knows (p : ℕ × BusyBlockValue) : GhostScan → Prop
  | .replayed bits | .read bits _ _ => units p.1 p.2.unitCount ⊆ bits
  | .diffed diff _ _ | .correcting diff _ _ _ => ∀ u ∈ units p.1 p.2.unitCount, (u, true) ∉ diff

namespace GhostState

variable {unitCapacity : ℕ} {autoCorrect : Bool} {s s' : GhostState}

/-- The scan knows every busy block. -/
def ScanInv (s : GhostState) : Prop := ∀ scan ∈ s.scan, ∀ p ∈ s.zone.store.busy.records, scan.Knows p

theorem not_mem_diffBitmaps {live replayed : UsageBitmap} {u : ℕ} (h : u ∈ replayed) :
    (u, true) ∉ diffBitmaps live replayed unitCapacity := by
  intro hmem
  obtain ⟨bit, hbit, heq⟩ := mem_map.mp hmem
  obtain ⟨rfl, hlive⟩ := Prod.mk.inj heq
  have hne := (mem_filter.mp hbit).2
  simp [h, hlive] at hne

theorem busy_subset {e : ZoneEvent} (he : e.allocates = false) {zone zone' : ZoneState}
    (hs : zone.step unitCapacity e = some zone') :
    ∀ p ∈ zone'.store.busy.records, p ∈ zone.store.busy.records := by
  intro p hp
  cases e with
  | persistFree =>
    obtain ⟨records, -, rfl⟩ := map_eq_some_iff.mp hs
    simp only [ZoneStore.write] at hp
    split at hp
    · exact (ZoneStore.mem_busy_persistFreeBatch hp).1
    · exact hp
  | persistBusy | persistCommit => cases he
  | _ => rwa [ZoneState.busy_step rfl hs] at hp

theorem ScanInv.step (h : ScanInv s) {e : GhostEvent} (hok : s.Quiet unitCapacity e)
    (hs : s.step unitCapacity autoCorrect e = some s') : ScanInv s' := by
  cases e with
  | zone e =>
    obtain ⟨zone, hzone, rfl⟩ := map_eq_some_iff.mp hs
    intro scan hscan p hp
    split at hscan
    · cases hscan
    · exact h scan hscan p (busy_subset (hok (isSome_of_mem hscan)) hzone p hp)
  | replay reads put =>
    simp only [GhostState.step, replay] at hs
    split at hs
    · cases hs
    · rename_i hno
      push Not at hno
      have hnone : s.scan = none := by simpa using hno.2
      split at hs
      · rename_i z ts hload
        cases hs
        rintro _ ⟨⟩ p hp
        exact hok (z, ts) (by rw [hload]; rfl) p hp
      · cases hs
        exact h
      · split at hs <;> cases hs <;> simp [ScanInv, hnone]
  | readRecords ok | diff | delay reverify =>
    simp only [GhostState.step] at hs
    split at hs
    · rename_i hscan
      cases hs
      rintro _ ⟨⟩ p hp
      first
        | exact h _ hscan p hp
        | exact fun u hu => not_mem_diffBitmaps (h _ hscan p hp hu)
    · cases hs
  | correct cas =>
    simp only [GhostState.step] at hs
    split at hs
    · cases hs
      exact nofun
    · rename_i hscan
      cases hs
      rintro _ ⟨⟩ p hp u hu hmem
      exact h _ hscan p hp u hu (mem_cons_of_mem _ hmem)
    · cases hs

theorem ghostBusy_of_cleared {z : DdbZone} {bit u : ℕ} {ghostBusy cas : Bool}
    {busyOffsets freeOffsets : List ℕ}
    {words : Option UsageBitmap} (hu : u ∈ z.usageBits)
    (hclear : u ∉ (correctBit autoCorrect z bit ghostBusy busyOffsets
      freeOffsets words cas).usageBits) :
    u = bit ∧ ghostBusy = true := by
  unfold correctBit at hclear
  split at hclear
  · rename_i hghost
    split at hclear
    · split at hclear
      · refine ⟨?_, hghost⟩
        by_contra hne
        exact hclear (mem_erase.mpr ⟨hne, hu⟩)
      · exact absurd hu hclear
    · exact absurd hu hclear
  · split at hclear
    · split at hclear
      · exact absurd (mem_insert_of_mem hu) hclear
      · exact absurd hu hclear
    · exact absurd hu hclear

/-- **Ghost correction frees no live space** in a zone that is quiet while it is scanned. -/
theorem spares_of_reach (hr : Reach (step unitCapacity autoCorrect) (Quiet unitCapacity) {} s)
    {cas : Bool}
    (hok : s.Quiet unitCapacity (.correct cas)) : s.Spares unitCapacity autoCorrect cas := by
  have h : ScanInv s := hr.invariant (by nofun) fun h hok hs => h.step hok hs
  intro s' hs u hu
  obtain ⟨hset, hclear⟩ := mem_sdiff.mp hu
  have hclaims : s.zone.claims = [] := hok
  refine ⟨fun p hp hunit => ?_, by simp [hclaims]⟩
  simp only [GhostState.step] at hs
  split at hs
  · cases hs
    exact hclear hset
  · rename_i bit ghostBusy diff busyOffsets freeOffsets words hscan
    cases hs
    cases hz : s.zone.zone with
    | none => simp [ZoneState.bits, hz] at hset
    | some =>
      simp only [ZoneState.bits, hz, map_some, elim_some] at hset hclear
      obtain ⟨rfl, rfl⟩ := ghostBusy_of_cleared hset hclear
      exact h _ hscan p hp u hunit mem_cons_self
  · cases hs

/-- A leaked unit is corrected beside a block of two units. -/
theorem spares_leaked_unit : ∃ s, Reach (step 64 true) (Quiet 64) {} s ∧
      ((s.step 64 true (.correct true)).any fun s' =>
      decide (s.zone.bits = {0, 1, 2} ∧ s'.zone.bits = {0, 1})) = true ∧ s.Spares 64 true true := by
  refine Reach.exists_imp_of_run (fun s => s.zone.claims = [] ∧
    ((s.step 64 true (.correct true)).any fun s' =>
      decide (s.zone.bits = {0, 1, 2} ∧ s'.zone.bits = {0, 1})) = true)
    [.zone (.load {} 0 .ok), .zone (.allocate 1 2 7), .zone (.persistBusy 1 .ok),
      .zone (.allocate 2 1 7),
      .zone (.abandon 2), .replay {} .ok, .readRecords true, .diff,
        .delay true] (by decide +kernel) fun s hs hp => ?_
  exact ⟨hp.2, spares_of_reach hs hp.1⟩

/-- A unit that is allocated after the replay is cleared although its record is written; and one in
    the middle of a block is, with nothing beside the scan: the snapshot's slot could not be read,
    and in the whole journal the block meets a unit that was freed. -/
theorem live_units_cleared :
    (∃ s, Reach (step 64 true) anyStep {} s ∧ s.zone.store.busy.get 0 = some ⟨1, 7, .tentative⟩ ∧
      s.zone.bits = ∅ ∧ s.zone.zone.isSome = true) ∧
      ∃ s, Reach (step 64 true) anyStep {} s ∧ s.zone.claims = [] ∧ ¬ s.Spares 64 true true :=
  ⟨Reach.exists_of_run [.zone (.load {} 0 .ok), .replay {} .ok, .readRecords true,
    .zone (.allocate 1 1 7), .diff,
      .delay true, .correct true, .zone (.persistBusy 1 .ok)] (by decide +kernel),
    Reach.exists_of_run [.zone (.load {} 0 .ok), .zone (.allocate 1 1 7), .zone (.persistBusy 1 .ok),
      .zone (.freeBlocks [(⟨0, 1, 7⟩, 0)] true), .zone (.persistFree 0 .ok), .zone .compactScan,
      .zone .compactMerge, .zone (.compactSlot false), .zone .compactCopy, .zone (.compactWrite .ok),
      .zone (.allocate 2 2 7), .zone (.persistBusy 2 .ok), .replay {} .ok, .readRecords true,
        .diff, .delay true]
      (by decide +kernel)⟩

end GhostState

end CrowDB
