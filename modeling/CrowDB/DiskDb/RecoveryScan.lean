/-
  The recovery scan of a bad disk (`recovery/disk_recovery.rs`): the zones are scanned one after
  another, and the progress is persisted behind each of them, so that a restart goes on where the scan
  was interrupted.  A zone whose scan fails is left behind, and the progress of the next zone covers
  it.
-/
import CrowDB.Lib.Runs
import Mathlib.Algebra.Order.Ring.Nat

namespace CrowDB

open Lib List Option

/-- `RecoveryScanStatus`. -/
inductive RecoveryScanStatus where
  | inProgress
  | stopped
  | complete
deriving DecidableEq

/-- The persisted progress, without its times. -/
structure RecoveryScanProgressValue where
  status : RecoveryScanStatus
  lastCompletedZone : ℕ
  impactedBlocksCount : ℕ
deriving DecidableEq

/-- `NO_ZONE_COMPLETED`, the greatest number of 32 bits. -/
def noZoneCompleted : ℕ := 0xFFFFFFFF

/-- The zone to go on with. -/
def lastCompletedToStart (lastCompletedZone : ℕ) : ℕ :=
  if lastCompletedZone = noZoneCompleted then 0 else min (lastCompletedZone + 1) 0xFFFFFFFF

/-- The progress when zone `zi` is cancelled. -/
def lastCompletedOnCancel (zi : ℕ) : ℕ := if zi = 0 then noZoneCompleted else zi - 1

/-- The task in front of zone `zi`; `failed` says that the scan of a zone has failed since it
    started. -/
structure RecoveryScanTask where
  zi : ℕ
  impactedTotal : ℕ
  failed : Bool := false
deriving DecidableEq

/-- `scans` are the zones that were scanned successfully, with what was found there. -/
structure RecoveryScan where
  progress : Option RecoveryScanProgressValue := none
  task : Option RecoveryScanTask := none
  scans : List (ℕ × ℕ) := []
deriving DecidableEq

/-- `put` says whether the progress could be persisted. -/
inductive RecoveryScanEvent where
  | start (read : Bool)
  | scanZone (result : Option ℕ) (put : Bool)
  | cancel (put : Bool)
  | finish (put : Bool)
  | crash
deriving DecidableEq

namespace RecoveryScan

variable (zoneCount : ℕ) (s : RecoveryScan)

/-- The progress in the store after it was persisted, or not. -/
def persistProgress (put : Bool) (lastCompletedZone impactedTotal : ℕ)
    (status : RecoveryScanStatus) : Option RecoveryScanProgressValue :=
  if put then some ⟨status, lastCompletedZone, impactedTotal⟩ else s.progress

/-- `read_resume_state`: the task, or none when the scan is complete. -/
def readResumeState (read : Bool) : Option RecoveryScanTask :=
  match if read then s.progress else none with
  | none => some ⟨0, 0, false⟩
  | some p =>
    if p.status = .complete then none else some ⟨lastCompletedToStart p.lastCompletedZone,
      p.impactedBlocksCount, false⟩

/-- One step. -/
def step : RecoveryScanEvent → Option RecoveryScan
  | .start read => if s.task.isSome then none else some { s with task := s.readResumeState read }
  | .crash => some { s with task := none }
  | .scanZone result put => s.task.bind fun t =>
    if t.zi < zoneCount then
      some <| match result with
        | some impacted =>
          { progress := s.persistProgress put t.zi (t.impactedTotal + impacted) .inProgress
            task := some { t with zi := t.zi + 1, impactedTotal := t.impactedTotal + impacted }
            scans := (t.zi, impacted) :: s.scans }
        | none =>
          { s with
            progress := s.persistProgress put (lastCompletedOnCancel t.zi) t.impactedTotal .inProgress
            task := some { t with zi := t.zi + 1, failed := true } }
    else none
  | .cancel put => s.task.bind fun t =>
    if t.zi < zoneCount then
      some ⟨s.persistProgress put (lastCompletedOnCancel t.zi) t.impactedTotal .stopped,
        none, s.scans⟩
    else none
  | .finish put => s.task.bind fun t =>
    if zoneCount ≤ t.zi then
      some ⟨s.persistProgress put (zoneCount - 1) t.impactedTotal .complete, none, s.scans⟩
    else none

/-- The number of zones that the progress says are completed. -/
def completed (p : RecoveryScanProgressValue) : ℕ :=
  if p.status = .complete then zoneCount else lastCompletedToStart p.lastCompletedZone

/-- The first `n` zones were scanned successfully, and `total` is the sum of what was found, each zone
    counted once. -/
def Counted (n total : ℕ) : Prop :=
  ∃ counts : List ℕ, counts.length = n ∧ counts.sum = total ∧ ∀ z k, counts[z]? = some k →
    (z, k) ∈ s.scans

/-- The zones that the progress calls completed were scanned, and its count is theirs. -/
def Truthful : Prop := ∀ p ∈ s.progress, s.Counted (completed zoneCount p) p.impactedBlocksCount

/-- When the scan of a zone has failed, the task does nothing more before it is restarted. -/
def StopsOnFailure (e : RecoveryScanEvent) : Prop := e ≠ .crash → ∀ t ∈ s.task, t.failed = false
deriving Decidable

variable {zoneCount} {s s' : RecoveryScan} {n total zi : ℕ}

theorem counted_zero : s.Counted 0 0 := ⟨[], rfl, rfl, nofun⟩

theorem Counted.mono (h : s.Counted n total) (hs : s.scans ⊆ s'.scans) : s'.Counted n total := by
  obtain ⟨counts, hlen, hsum, hscans⟩ := h
  exact ⟨counts, hlen, hsum, fun z k hk => hs (hscans z k hk)⟩

theorem Counted.scanned {impacted : ℕ} (h : s.Counted n total)
    (hs : s'.scans = (n, impacted) :: s.scans) : s'.Counted (n + 1) (total + impacted) := by
  obtain ⟨counts, rfl, rfl, hscans⟩ := h
  refine ⟨counts ++ [impacted], by simp, by simp, fun z k hk => ?_⟩
  rw [hs, mem_cons]
  rcases lt_or_ge z counts.length with hz | hz
  · rw [getElem?_append_left hz] at hk
    exact .inr (hscans z k hk)
  · rw [getElem?_append_right hz, getElem?_singleton] at hk
    split at hk
    · cases hk
      exact .inl (by rw [show z = counts.length by omega])
    · cases hk

theorem lastCompletedToStart_onCancel (h : zi < 0xFFFFFFFF) :
    lastCompletedToStart (lastCompletedOnCancel zi) = zi := by
  unfold lastCompletedToStart lastCompletedOnCancel noZoneCompleted
  split_ifs <;> omega

theorem lastCompletedToStart_of_lt (h : zi < 0xFFFFFFFF) : lastCompletedToStart zi = zi + 1 := by
  unfold lastCompletedToStart noZoneCompleted
  split_ifs <;> omega

/-- Progress and task count the zones before them. -/
structure ScanInv (zoneCount : ℕ) (s : RecoveryScan) : Prop where
  progress : ∀ p ∈ s.progress, completed zoneCount p ≤ zoneCount ∧
    s.Counted (completed zoneCount p) p.impactedBlocksCount
  task : ∀ t ∈ s.task, t.failed = false → t.zi ≤ zoneCount ∧ s.Counted t.zi t.impactedTotal

theorem ScanInv.persist (h : ScanInv zoneCount s) {put : Bool} {last : ℕ}
    {status : RecoveryScanStatus}
    {task : Option RecoveryScanTask} {scans : List (ℕ × ℕ)} (hscans : s.scans ⊆ scans)
    (hn : completed zoneCount ⟨status, last, total⟩ = n) (hle : n ≤ zoneCount)
    (hcount : Counted { s with scans } n total)
    (htask : ∀ t ∈ task, t.failed = false → t.zi = n ∧ t.impactedTotal = total) :
    ScanInv zoneCount ⟨s.persistProgress put last total status, task, scans⟩ := by
  refine ⟨?_, fun t ht hf => ?_⟩
  · unfold persistProgress
    split
    · rintro _ ⟨⟩
      exact ⟨hn.trans_le hle, hn.symm ▸ hcount⟩
    · exact fun p hp => (h.progress p hp).imp_right fun hc => hc.mono hscans
  · obtain ⟨rfl, rfl⟩ := htask t ht hf
    exact ⟨hle, hcount.mono (Subset.refl _)⟩

theorem ScanInv.step (h : ScanInv zoneCount s) (hcap : zoneCount ≤ 0xFFFFFFFF) {e : RecoveryScanEvent}
    (hok : s.StopsOnFailure e) (hs : s.step zoneCount e = some s') : ScanInv zoneCount s' := by
  cases e with
  | crash =>
    cases hs
    exact ⟨h.progress, nofun⟩
  | start =>
    simp only [RecoveryScan.step] at hs
    split at hs
    · cases hs
    cases hs
    refine ⟨h.progress, fun t ht _ => ?_⟩
    simp only [readResumeState] at ht
    split at ht
    · cases ht
      exact ⟨Nat.zero_le _, s.counted_zero⟩
    · rename_i p hp
      split at ht
      · cases ht
      · rename_i hstatus
        cases ht
        have hprogress := h.progress p (by split at hp <;> simp_all)
        rwa [completed, if_neg hstatus] at hprogress
  | scanZone result =>
    obtain ⟨t, ht, hs⟩ := bind_eq_some_iff.mp hs
    obtain ⟨hlt, hs⟩ := ite_none_right_eq_some.mp hs
    obtain ⟨hle, hcount⟩ := h.task t ht (hok nofun t ht)
    cases hs
    cases result with
    | some =>
      refine h.persist (subset_cons_self _ _) (lastCompletedToStart_of_lt (hlt.trans_le hcap)) hlt
        (hcount.scanned rfl) ?_
      rintro _ ⟨⟩ -
      exact ⟨rfl, rfl⟩
    | none =>
      refine h.persist (Subset.refl _)
        (lastCompletedToStart_onCancel (hlt.trans_le hcap)) hle hcount ?_
      rintro _ ⟨⟩ ⟨⟩
  | cancel =>
    obtain ⟨t, ht, hs⟩ := bind_eq_some_iff.mp hs
    obtain ⟨hlt, hs⟩ := ite_none_right_eq_some.mp hs
    obtain ⟨hle, hcount⟩ := h.task t ht (hok nofun t ht)
    cases hs
    exact h.persist (Subset.refl _) (lastCompletedToStart_onCancel (hlt.trans_le hcap))
      hle hcount nofun
  | finish =>
    obtain ⟨t, ht, hs⟩ := bind_eq_some_iff.mp hs
    obtain ⟨hge, hs⟩ := ite_none_right_eq_some.mp hs
    obtain ⟨hle, hcount⟩ := h.task t ht (hok nofun t ht)
    cases hs
    exact h.persist (Subset.refl _) (if_pos rfl) le_rfl (Nat.le_antisymm hle hge ▸ hcount) nofun

/-- **The progress is truthful**: in every run of tasks that stop at a zone whose scan fails, the
    zones that the progress calls completed were scanned, and its count is the sum over them. -/
theorem truthful_of_reach (hcap : zoneCount ≤ 0xFFFFFFFF)
    (hr : Reach (step zoneCount) StopsOnFailure {} s) :
    s.Truthful zoneCount := by
  have h : ScanInv zoneCount s := hr.invariant ⟨by nofun, by nofun⟩ fun h hok hs => h.step hcap hok hs
  exact fun p hp => (h.progress p hp).2

/-- Two zones; the scan is cancelled before the first one, and the second one fails once. -/
theorem truthful_after_failure :
    ∃ s, Reach (step 2) StopsOnFailure {} s ∧ s.progress = some ⟨.complete, 1, 7⟩ ∧ s.Truthful 2 := by
  exact Reach.exists_and_of_run [.start true, .cancel true, .start true, .scanZone (some 3) true,
    .scanZone none true, .crash,
      .start true, .scanZone (some 4) true,
        .finish true] (by decide +kernel) fun s hs _ => truthful_of_reach (by decide) hs

/-- The scan of the first of two zones fails, and the task goes on: the progress says that the first
    zone is completed, and at the end that all are. -/
theorem progress_covers_failed_zone : ∃ s, Reach (step 2) anyStep {} s ∧ ¬ s.Truthful 2 := by
  refine Reach.exists_imp_of_run (fun s => s.progress = some ⟨.complete, 1, 4⟩ ∧ s.scans = [(1, 4)])
    [.start true, .scanZone none true, .scanZone (some 4) true, .finish true] (by decide +kernel)
      fun s _ ⟨hprogress, hscans⟩ => ?_
  refine fun h => ?_
  obtain ⟨counts, hlen, -, hcounts⟩ := h _ hprogress
  have hfirst := hcounts 0 _ (getElem?_eq_getElem (by rw [hlen]; decide))
  simp [hscans] at hfirst

end RecoveryScan

end CrowDB
