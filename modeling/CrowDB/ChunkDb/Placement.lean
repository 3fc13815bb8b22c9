/-
  Placement of erasure-coded strips (`selector.rs`, `selector/ec.rs`): the blocks of a strip are
  distributed over racks in turn, and in a rack to the first disk group whose node has room.
-/
import Mathlib.Data.List.Nodup

namespace CrowDB

open List Function

/-- A disk group of the topology. -/
structure DiskGroupEntry where
  rackId : ℕ
  nodeId : ℕ
  dgId : ℕ
  up : Bool
deriving DecidableEq

/-- `TopologySnapshot`. -/
structure TopologySnapshot where
  diskGroups : List DiskGroupEntry
  nodeUp : ℕ → ℕ → Bool
  rackUp : ℕ → Bool

/-- `PlacementConstraints`. -/
structure PlacementConstraints where
  excludeNodes : List ℕ := []
  excludeRacks : List ℕ := []
  excludeDiskGroups : List ℕ := []

/-- `PlacementEntry`. -/
structure PlacementEntry where
  rackId : ℕ
  nodeId : ℕ
  diskGroupId : ℕ
  blockCount : ℕ
deriving DecidableEq

/-- `PlacementPlan`. -/
structure PlacementPlan where
  entries : List PlacementEntry
  safeMode : Bool
deriving DecidableEq

/-- `PlacementError`. -/
inductive PlacementError where
  | insufficientNodes (needed available : ℕ)
  | noHealthyDiskGroups
deriving DecidableEq

/-- `healthy_dgs`: disk group, node and rack are up, and none of them is excluded. -/
def healthyDgs (snap : TopologySnapshot) (constraints : PlacementConstraints) : List DiskGroupEntry :=
  snap.diskGroups.filter fun dg =>
    dg.up && snap.nodeUp dg.rackId dg.nodeId && snap.rackUp dg.rackId &&
      decide (dg.rackId ∉ constraints.excludeRacks ∧ dg.nodeId ∉ constraints.excludeNodes ∧
        dg.dgId ∉ constraints.excludeDiskGroups)

section

variable (dgs : List DiskGroupEntry) (maxPerNode : ℕ)

/-- The first disk group of a rack whose node has room. -/
def candidate (nodeLoad : ℕ → ℕ) (rack : ℕ) : Option DiskGroupEntry :=
  dgs.find? fun dg => decide (dg.rackId = rack ∧ nodeLoad dg.nodeId < maxPerNode)

/-- The loop of `try_distribute`; `racks` are the racks from `rack_index` on, round and round. -/
def distribute : ℕ → List ℕ → (ℕ → ℕ) → Option (List PlacementEntry)
  | 0, _, _ => some []
  -- there is a rack, as there is a disk group
  | _ + 1, [], _ => none
  | left + 1, rack :: racks, nodeLoad =>
    match hnone : candidate dgs maxPerNode nodeLoad rack with
    | some dg =>
      (distribute left (racks ++ [rack])
        (Function.update nodeLoad dg.nodeId (nodeLoad dg.nodeId + 1))).map
        (⟨dg.rackId, dg.nodeId, dg.dgId, 1⟩ :: ·)
    | none =>
      -- no rack has room
      if (rack :: racks).all fun r => (candidate dgs maxPerNode nodeLoad r).isNone then none
      else distribute (left + 1) (racks ++ [rack]) nodeLoad
termination_by left racks nodeLoad =>
    (left, racks.findIdx fun r => (candidate dgs maxPerNode nodeLoad r).isSome)
decreasing_by
  · exact Prod.Lex.left _ _ (Nat.lt_succ_self left)
  · -- the next rack with room is one step closer
    rename_i hroom
    refine Prod.Lex.right _ ?_
    have hhead : (candidate dgs maxPerNode nodeLoad rack).isSome = false := by rw [hnone]; rfl
    have hlt : racks.findIdx (fun r => (candidate dgs maxPerNode nodeLoad r).isSome) <
      racks.length := by
      rw [List.findIdx_lt_length]
      rw [List.all_cons, hnone, Option.isNone_none, Bool.true_and, List.all_eq_true] at hroom
      push Not at hroom
      obtain ⟨r, hr, hsome⟩ := hroom
      refine ⟨r, hr, ?_⟩
      cases hc : candidate dgs maxPerNode nodeLoad r with
      | none => simp [hc] at hsome
      | some dg => rfl
    rw [List.findIdx_cons, hhead, List.findIdx_append, if_pos hlt]
    exact Nat.lt_succ_self _

/-- `try_distribute`; `racks` is the shuffled list of racks. -/
def tryDistribute (racks : List ℕ) (totalBlocks : ℕ) : Option (List PlacementEntry) :=
  distribute dgs maxPerNode totalBlocks racks fun _ => 0

end

/-- `EcPlacement::select`; the racks are shuffled once for each mode. -/
def EcPlacement.select (snap : TopologySnapshot) (safeRacks unsafeRacks : List ℕ)
    (dataNum codeNum : ℕ)
    (constraints : PlacementConstraints) : Except PlacementError PlacementPlan :=
  let dgs := healthyDgs snap constraints
  if dgs = [] then .error .noHealthyDiskGroups
  else match tryDistribute dgs codeNum safeRacks (dataNum + codeNum) with
  | some entries => .ok ⟨entries, true⟩
  | none => match tryDistribute dgs (dataNum + codeNum) unsafeRacks (dataNum + codeNum) with
    | some entries => .ok ⟨entries, false⟩
    | none => .error (.insufficientNodes (dataNum + codeNum)
        (dgs.map DiskGroupEntry.nodeId).dedup.length)

/-! ## What a plan is -/

variable {dgs : List DiskGroupEntry} {maxPerNode : ℕ}

variable {nodeLoad : ℕ → ℕ} {racks : List ℕ} {entries : List PlacementEntry} {rack left : ℕ}
  {dg : DiskGroupEntry}

theorem candidate_spec (h : candidate dgs maxPerNode nodeLoad rack = some dg) :
    dg ∈ dgs ∧ dg.rackId = rack ∧ nodeLoad dg.nodeId < maxPerNode := by
  have hfound := find?_some h
  exact ⟨mem_of_find?_eq_some h, of_decide_eq_true hfound⟩

theorem distribute_of_candidate
    (h : candidate dgs maxPerNode nodeLoad rack = some dg) :
    distribute dgs maxPerNode (left + 1) (rack :: racks) nodeLoad =
      (distribute dgs maxPerNode left (racks ++ [rack])
        (update nodeLoad dg.nodeId (nodeLoad dg.nodeId + 1))).map (⟨dg.rackId, dg.nodeId,
          dg.dgId, 1⟩ :: ·) := by
  rw [distribute]
  split
  · rename_i d hd
    cases h.symm.trans hd
    rfl
  · rename_i hd
    cases h.symm.trans hd

theorem distribute_spec
    (h : distribute dgs maxPerNode left racks nodeLoad = some entries) :
    entries.length = left ∧ (∀ e ∈ entries, e.blockCount = 1 ∧ ∃ dg ∈ dgs, dg.dgId = e.diskGroupId) ∧
      ∀ node, nodeLoad node ≤ maxPerNode →
        nodeLoad node + (entries.filter fun e => decide (e.nodeId = node)).length ≤ maxPerNode := by
  fun_induction distribute dgs maxPerNode left racks nodeLoad generalizing entries with
  | case1 =>
    cases h
    exact ⟨rfl, by simp, by simp⟩
  | case2 => cases h
  | case3 _ _ _ _ dg hcand ih =>
    obtain ⟨rest, hrest, rfl⟩ := Option.map_eq_some_iff.mp h
    obtain ⟨hlen, hone, hload⟩ := ih hrest
    obtain ⟨hmem, -, hlt⟩ := candidate_spec hcand
    refine ⟨by simp [hlen], ?_, ?_⟩
    · intro e he
      rcases mem_cons.mp he with rfl | he
      · exact ⟨rfl, dg, hmem, rfl⟩
      · exact hone e he
    · intro node hnode
      by_cases heq : node = dg.nodeId
      · subst heq
        have := hload dg.nodeId (by rw [update_self]; omega)
        rw [update_self] at this
        simp only [filter_cons, decide_true, if_true, length_cons]
        omega
      · have := hload node (by rwa [update_of_ne heq])
        rw [update_of_ne heq] at this
        have hne : dg.nodeId ≠ node := fun h => heq h.symm
        simpa [filter_cons, hne] using this
  | case4 => cases h
  | case5 _ _ _ _ _ _ ih => exact ih h

/-- **A distribution** has an entry for each block, and respects the limit of every node. -/
theorem tryDistribute_spec {totalBlocks : ℕ}
    (h : tryDistribute dgs maxPerNode racks totalBlocks = some entries) :
    entries.length = totalBlocks ∧
      (∀ e ∈ entries, e.blockCount = 1 ∧ ∃ dg ∈ dgs, dg.dgId = e.diskGroupId) ∧
      ∀ node, (entries.filter fun e => decide (e.nodeId = node)).length ≤ maxPerNode := by
  obtain ⟨hlen, hone, hload⟩ := distribute_spec h
  exact ⟨hlen, hone, fun node => by simpa using hload node (Nat.zero_le _)⟩

/-- **A plan** has one block an entry and as many entries as blocks; in safe mode no node has more
    than `codeNum`. -/
theorem EcPlacement.select_blocks {snap : TopologySnapshot} {safeRacks unsafeRacks : List ℕ}
    {dataNum codeNum : ℕ}
    {constraints : PlacementConstraints} {plan : PlacementPlan}
    (h : EcPlacement.select snap safeRacks unsafeRacks dataNum codeNum constraints = .ok plan) :
    plan.entries.length = dataNum + codeNum ∧ (∀ e ∈ plan.entries, e.blockCount = 1) ∧
      (plan.safeMode = true → ∀ node, (plan.entries.filter fun e => decide (e.nodeId = node)).length
        ≤ codeNum) := by
  unfold EcPlacement.select at h
  dsimp only at h
  split at h
  · cases h
  · split at h
    · rename_i entries hsafe
      cases h
      obtain ⟨hlen, hone, hload⟩ := tryDistribute_spec hsafe
      exact ⟨hlen, fun e he => (hone e he).1, fun _ => hload⟩
    · split at h
      · rename_i entries hunsafe
        cases h
        obtain ⟨hlen, hone, -⟩ := tryDistribute_spec hunsafe
        exact ⟨hlen, fun e he => (hone e he).1, nofun⟩
      · cases h

end CrowDB
