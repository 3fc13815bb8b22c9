/-
  Requests to free and to commit blocks (`free_block`, `free_blocks` and `commit_blocks` of
  `model/alloc.rs`), one KV operation a step, beside the allocations and compactions of the zone.

  A free reads the busy-block record of each segment and compares the owner; a commit reads the
  records that it is going to write.  Both write in one batch afterwards, without looking again.
-/
import CrowDB.Lib.Lists
import CrowDB.DiskDb.Allocator

namespace CrowDB

open Lib List Option

/-! ## Requests -/

/-- A busy-block record as a commit has read it; `born` counts the allocations of its offset. -/
structure BusyRead where
  unitOffset : ℕ
  value : BusyBlockValue
  born : ℕ
deriving DecidableEq

/-- A free or a commit under way. -/
inductive BlockRequest where
  /-- `done` are the segments whose owner is checked; each with the time of its free -/
  | free (todo done : List (Segment × ℕ))
  | commit (todo : List Segment) (reads : List BusyRead)
deriving DecidableEq

/-- The offsets whose records the request has read. -/
def BlockRequest.readOffsets : BlockRequest → List ℕ
  | .free _ done => done.map fun segment => segment.1.unitOffset
  | .commit _ reads => reads.map BusyRead.unitOffset

/-- The zone and its requests. -/
structure RequestState where
  zone : ZoneState := {}
  requests : RecordStore ℕ BlockRequest := .empty
  /-- how often a block was allocated at an offset -/
  born : ℕ → ℕ := fun _ => 0
  /-- the allocations that were freed: an offset, and which of its allocations -/
  freed : List (ℕ × ℕ) := []

/-- A step of the zone or of a request. -/
inductive RequestEvent where
  | zone (e : ZoneEvent)
  | freeBlocks (i : ℕ) (segments : List (Segment × ℕ))
  | commitBlocks (i : ℕ) (segments : List Segment)
  /-- `get_busy` of the next segment; `known`: the read succeeds -/
  | getBusy (i : ℕ) (known : Bool)
  /-- the batch of a request whose reads are done -/
  | persist (i : ℕ) (write : WriteOutcome)

namespace RequestState

variable (s : RequestState)

/-- The busy block at an offset. -/
def busyAt (unitOffset : ℕ) : Option BusyBlockValue := s.zone.store.busy.get unitOffset

variable (i : ℕ)

/-- Request `i` goes on. -/
def goto (request : BlockRequest) : RequestState := { s with requests := s.requests.put i request }

/-- Request `i` ends. -/
def drop : RequestState := { s with requests := s.requests.delete i }

/-- Allocations, compactions, loads and crashes; a crash ends all requests. -/
def zoneStep (unitCapacity : ℕ) (e : ZoneEvent) : Option RequestState :=
  match e with
  -- frees and commits are the requests below
  | .freeBlocks _ _ | .persistFree _ _ | .commitBlocks _ | .persistCommit _ _ => none
  | .crash => some { s with zone := { store := s.zone.store }, requests := .empty }
  | .persistBusy request outcome =>
    some { s with
      zone := s.zone.persistBusy request outcome
      born := if outcome.applies then fun o =>
          s.born o + ((s.zone.claimsOf request).filter fun c => decide (c.unitOffset = o)).length
        else s.born }
  | e => (s.zone.step unitCapacity e).map fun zone => { s with zone := zone }

/-- The owner of the next segment is checked, or the next record is read. -/
def getBusy (known : Bool) : Option RequestState :=
  match s.requests.get i with
  | some (.free (segment :: todo) done) =>
    if known && s.zone.store.ownedBy segment.1 then some (s.goto i (.free todo (done ++ [segment])))
    else some (s.drop i)
  | some (.commit (segment :: todo) reads) =>
    match s.busyAt segment.unitOffset with
    | some value =>
      if known then
        some (s.goto i (.commit todo
          (reads ++ [⟨segment.unitOffset, value, s.born segment.unitOffset⟩])))
      else some (s.drop i)
    | none => some (s.drop i)
  | _ => none

/-- One batch: the busy-block records are deleted and free-block records put. -/
def persistFree (done : List (Segment × ℕ)) (outcome : WriteOutcome) : RequestState :=
  let records := ZoneState.freeRecords s.zone.freeTsSource done
  { s.drop i with
    zone := { s.zone with
      store := s.zone.store.write outcome (s.zone.store.persistFreeBatch records.1)
      freeTsSource := records.2 }
    freed := if outcome.applies then s.freed ++ done.map fun segment =>
        (segment.1.unitOffset, s.born segment.1.unitOffset)
      else s.freed }

/-- One batch: the records that were read, committed. -/
def persistCommit (reads : List BusyRead) (outcome : WriteOutcome) : RequestState := { s.drop i with
    zone := { s.zone with
      store := s.zone.store.write outcome (s.zone.store.persistBusyBatch
        (reads.map fun r => (r.unitOffset, { r.value with commitState := .committed }))) } }

/-- A request without segments writes nothing. -/
def persist (outcome : WriteOutcome) : Option RequestState :=
  match s.requests.get i with
  | some (.free [] []) | some (.commit [] []) => some (s.drop i)
  | some (.free [] done) => some (s.persistFree i done outcome)
  | some (.commit [] reads) => some (s.persistCommit i reads outcome)
  | _ => none

/-- One step. -/
def step (unitCapacity : ℕ) (s : RequestState) : RequestEvent → Option RequestState
  | .zone e => s.zoneStep unitCapacity e
  | .freeBlocks i segments => if (s.requests.get i).isSome then none else some
      (s.goto i (.free segments []))
  | .commitBlocks i segments => if (s.requests.get i).isSome then none else some
      (s.goto i (.commit segments []))
  | .getBusy i known => s.getBusy i known
  | .persist i outcome => s.persist i outcome

end RequestState

/-! ## Specification and conditions -/

namespace BlockRequest

variable (s : RequestState)

/-- A free deletes no record of another owner, a commit writes none of a freed allocation. -/
def Respects : BlockRequest → Prop
  | .free _ done => ∀ segment ∈ done, ∀ value ∈ s.busyAt segment.1.unitOffset,
      value.ownerChunk = segment.1.ownerChunk
  | .commit _ reads => ∀ r ∈ reads, (r.unitOffset, r.born) ∉ s.freed

/-- No other request has read a record that this free deletes. -/
def Apart (i : ℕ) : BlockRequest → Prop
  | .free _ done => ∀ p ∈ s.requests.records, p.1 ≠ i → ∀ segment ∈ done,
      segment.1.unitOffset ∉ p.2.readOffsets
  | .commit _ _ => True

instance (request : BlockRequest) : Decidable (request.Respects s) :=
  match request with
  | .free _ _ => inferInstanceAs (Decidable (∀ _ ∈ _, _))
  | .commit _ _ => inferInstanceAs (Decidable (∀ _ ∈ _, _))

instance (i : ℕ) (request : BlockRequest) : Decidable (request.Apart s i) :=
  match request with
  | .free _ _ => inferInstanceAs (Decidable (∀ _ ∈ _, _))
  | .commit _ _ => isTrue trivial

end BlockRequest

namespace RequestState

/-- A free takes effect only when no other request is to write one of its records, an allocation
    only where there is no record. -/
def Exclusive (s : RequestState) : RequestEvent → Prop
  | .persist i outcome => outcome.applies = true → ∀ request ∈ s.requests.get i, request.Apart s i
  | .zone (.persistBusy request outcome) => outcome.applies = true → ∀ c ∈ s.zone.claimsOf request,
      s.busyAt c.unitOffset = none
  | _ => True

instance (s : RequestState) (e : RequestEvent) : Decidable (s.Exclusive e) :=
  match e with
  | .persist _ _ => inferInstanceAs (Decidable (_ → _))
  | .zone (.persistBusy _ _) => inferInstanceAs (Decidable (_ → _))
  | .zone (.load _ _ _) | .zone .crash | .zone (.allocate _ _ _) | .zone (.abandon _) | .zone
      (.freeBlocks _ _)
  | .zone (.persistFree _ _) | .zone (.commitBlocks _) | .zone
      (.persistCommit _ _) | .zone .compactScan
  | .zone .compactMerge | .zone (.compactSlot _) | .zone .compactCopy | .zone
      (.compactWrite _) | .zone .otherWrite
  | .zone (.trim _) | .zone .corruptSnapshot | .freeBlocks _ _ | .commitBlocks _ _ | .getBusy _ _ =>
      isTrue trivial

end RequestState

/-! ## The invariant -/

/-- What the request has read is still there, of the same owner and the same allocation. -/
def BlockRequest.Intact (s : RequestState) : BlockRequest → Prop
  | .free _ done => ∀ segment ∈ done, ∃ value, s.busyAt segment.1.unitOffset = some value ∧
      value.ownerChunk = segment.1.ownerChunk
  | .commit _ reads => ∀ r ∈ reads, r.born = s.born r.unitOffset ∧
      ∃ value, s.busyAt r.unitOffset = some value ∧ value.ownerChunk = r.value.ownerChunk

/-- What a request has read is still there. -/
structure OwnerInv (s : RequestState) : Prop where
  unfreed : ∀ o value, s.busyAt o = some value → (o, s.born o) ∉ s.freed
  bound : ∀ p ∈ s.freed, p.2 ≤ s.born p.1
  intact : ∀ i request, s.requests.get i = some request → request.Intact s

namespace OwnerInv

variable {s s' : RequestState}

theorem init : OwnerInv {} where
  unfreed := by simp [RequestState.busyAt, RecordStore.get, RecordStore.empty]
  bound := by simp
  intact := by simp [RecordStore.get, RecordStore.empty]

variable {request : BlockRequest} {i : ℕ} {outcome : WriteOutcome}

theorem intact_mono (h : request.Intact s) (hborn : ∀ o ∈ request.readOffsets, s'.born o = s.born o)
    (hbusy : ∀ o ∈ request.readOffsets, ∀ value, s.busyAt o = some value →
      ∃ value', s'.busyAt o = some value' ∧ value'.ownerChunk =
        value.ownerChunk) : request.Intact s' := by
  cases request with
  | free =>
    intro segment hmem
    obtain ⟨value, hvalue, howner⟩ := h segment hmem
    obtain ⟨value', hvalue', howner'⟩ := hbusy _ (mem_map_of_mem hmem) value hvalue
    exact ⟨value', hvalue', howner'.trans howner⟩
  | commit =>
    intro r hmem
    obtain ⟨hr, value, hvalue, howner⟩ := h r hmem
    obtain ⟨value', hvalue', howner'⟩ := hbusy _ (mem_map_of_mem hmem) value hvalue
    exact ⟨hr.trans (hborn _ (mem_map_of_mem hmem)).symm, value', hvalue', howner'.trans howner⟩

variable (h : OwnerInv s) {unitCapacity : ℕ}
include h

/-- **A step that writes no busy-block record** and adds only requests that have what they read. -/
theorem of_same_busy (hbusy : s'.zone.store.busy = s.zone.store.busy) (hborn : s'.born = s.born)
    (hfreed : s'.freed = s.freed)
    (hrequests : ∀ j request, s'.requests.get j = some request → s.requests.get j = some request ∨
      request.Intact s) :
    OwnerInv s' := by
  have hat : ∀ o, s'.busyAt o = s.busyAt o := fun o => by rw [RequestState.busyAt, hbusy]; rfl
  refine ⟨?_, ?_, ?_⟩
  · intro o value hvalue
    rw [hborn, hfreed]
    exact h.unfreed o value (hat o ▸ hvalue)
  · rw [hborn, hfreed]
    exact h.bound
  · intro j request hget
    have hintact : request.Intact s := by
      rcases hrequests j request hget with hget | hi
      · exact h.intact j request hget
      · exact hi
    refine intact_mono hintact (fun o _ => by rw [hborn]) fun o _ value hvalue => ?_
    exact ⟨value, (hat o).trans hvalue, rfl⟩

theorem goto (i : ℕ) (hi : request.Intact s) : OwnerInv (s.goto i request) := by
  refine h.of_same_busy rfl rfl rfl fun j r hget => ?_
  rw [show (s.goto i request).requests.get j = _ from RecordStore.get_put j] at hget
  split at hget
  · cases hget
    exact .inr hi
  · exact .inl hget
omit h in
theorem get_of_drop {j : ℕ} (h : (s.drop i).requests.get j = some request) :
    j ≠ i ∧ s.requests.get j = some request := by
  rw [show (s.drop i).requests.get j = _ from RecordStore.get_delete j] at h
  split at h
  · cases h
  · exact ⟨‹_›, h⟩

theorem drop (i : ℕ) : OwnerInv (s.drop i) :=
  h.of_same_busy rfl rfl rfl fun _ _ hget => .inl (get_of_drop hget).2

theorem getBusy {known : Bool} (hs : s.getBusy i known = some s') : OwnerInv s' := by
  unfold RequestState.getBusy at hs
  split at hs
  · rename_i segment todo done hget
    split at hs
    · rename_i hcond
      cases hs
      refine h.goto i (forall_mem_concat (h.intact i _ hget) ?_)
      obtain ⟨value, hvalue, howner⟩ := (any_eq_true _ _).mp (Bool.and_eq_true_iff.mp hcond).2
      exact ⟨value, hvalue, of_decide_eq_true howner⟩
    · cases hs
      exact h.drop i
  · rename_i segment todo reads hget
    split at hs
    · rename_i value hvalue
      split at hs
      · cases hs
        exact h.goto i (forall_mem_concat (h.intact i _ hget) ⟨rfl, value, hvalue, rfl⟩)
      · cases hs
        exact h.drop i
    · cases hs
      exact h.drop i
  · cases hs

/-- **A free takes effect**; what the others have read is elsewhere. -/
theorem persistFree {done : List (Segment × ℕ)}
    (hapart : outcome.applies = true → (BlockRequest.free [] done).Apart s i) :
    OwnerInv (s.persistFree i done outcome) := by
  by_cases happ : outcome.applies = true
  · have hat : ∀ o, (s.persistFree i done outcome).busyAt o =
        if o ∈ done.map (fun segment => segment.1.unitOffset) then none else s.busyAt o := by
      intro o
      simp only [RequestState.busyAt, RequestState.persistFree, ZoneStore.write, happ, if_true]
      rw [ZoneStore.get_busy_persistFreeBatch, ZoneState.freeRecords_offsets]
    have hfreed : (s.persistFree i done outcome).freed = s.freed ++ done.map fun segment =>
        (segment.1.unitOffset, s.born segment.1.unitOffset) := if_pos happ
    refine ⟨?_, ?_, ?_⟩
    · intro o value hvalue
      rw [hat] at hvalue
      split at hvalue
      · cases hvalue
      · rename_i hnot
        rw [hfreed, mem_append, not_or]
        refine ⟨h.unfreed o value hvalue, fun hmem => ?_⟩
        obtain ⟨segment, hseg, heq⟩ := mem_map.mp hmem
        cases heq
        exact hnot (mem_map_of_mem hseg)
    · intro p hp
      rw [hfreed] at hp
      rcases mem_append.mp hp with hp | hp
      · exact h.bound p hp
      · obtain ⟨segment, -, rfl⟩ := mem_map.mp hp
        exact le_rfl
    · intro j request hget
      obtain ⟨hj, hget⟩ := get_of_drop hget
      refine intact_mono (h.intact j request hget) (fun _ _ => rfl) fun o ho value hvalue =>
        ⟨value, ?_, rfl⟩
      rw [hat, if_neg, hvalue]
      intro hmem
      obtain ⟨segment, hseg, rfl⟩ := mem_map.mp hmem
      exact hapart happ (j, request) (RecordStore.get_eq_some_iff.mp hget) hj segment hseg ho
  · refine h.of_same_busy ?_ rfl (if_neg happ) fun _ _ hget => .inl (get_of_drop hget).2
    simp [RequestState.persistFree, ZoneStore.write, happ]

/-- **A commit takes effect**: it writes records that are there. -/
theorem persistCommit {todo : List Segment} {reads : List BusyRead} (outcome : WriteOutcome)
    (hget : s.requests.get i = some (.commit todo reads)) :
    OwnerInv (s.persistCommit i reads outcome) := by
  have hreads := h.intact i _ hget
  by_cases happ : outcome.applies = true
  · -- every record keeps its owner
    have hat : ∀ o, (s.persistCommit i reads outcome).busyAt o = s.busyAt o ∨ ∃ value value',
        s.busyAt o = some value ∧ (s.persistCommit i reads outcome).busyAt o = some value' ∧
          value'.ownerChunk = value.ownerChunk := by
      intro o
      have hcases := s.zone.store.get_busy_persistBusyBatch
        (reads.map fun r => (r.unitOffset, { r.value with commitState := .committed })) o
      have heq : (s.persistCommit i reads outcome).busyAt o = (s.zone.store.persistBusyBatch
          (reads.map fun r => (r.unitOffset,
            { r.value with commitState := .committed }))).busy.get o := by
        simp [RequestState.busyAt, RequestState.persistCommit, ZoneStore.write, happ]
      rcases hcases with ⟨-, hsame⟩ | ⟨value', hmem, hvalue'⟩
      · exact .inl (heq.trans hsame)
      · obtain ⟨r, hr, hpair⟩ := mem_map.mp hmem
        cases hpair
        obtain ⟨-, value, hvalue, howner⟩ := hreads r hr
        exact .inr ⟨value, _, hvalue, heq.trans hvalue', howner.symm⟩
    refine ⟨?_, h.bound, ?_⟩
    · intro o value hvalue
      rcases hat o with hsame | ⟨old, new, hold, -⟩
      · exact h.unfreed o value (hsame ▸ hvalue)
      · exact h.unfreed o old hold
    · intro j request hj
      refine intact_mono (h.intact j request (get_of_drop hj).2) (fun _ _ => rfl) fun o _
        value hvalue => ?_
      rcases hat o with hsame | ⟨old, new, hold, hnew, howner⟩
      · exact ⟨value, hsame.trans hvalue, rfl⟩
      · cases hold.symm.trans hvalue
        exact ⟨new, hnew, howner⟩
  · refine h.of_same_busy ?_ rfl rfl fun _ _ hget => .inl (get_of_drop hget).2
    simp [RequestState.persistCommit, ZoneStore.write, happ]

theorem persist (hex : s.Exclusive (.persist i outcome)) (hs : s.persist i outcome = some s') :
    OwnerInv s' := by
  unfold RequestState.persist at hs
  split at hs
  · cases hs
    exact h.drop i
  · cases hs
    exact h.drop i
  · cases hs
    exact h.persistFree fun happ => hex happ _ ‹_›
  · cases hs
    exact h.persistCommit outcome ‹_›
  · cases hs

/-- **An allocation takes effect** where no busy-block record is. -/
theorem persistBusy {request : ℕ}
    (hex : s.Exclusive (.zone (.persistBusy request outcome)))
    (hs : s.zoneStep unitCapacity (.persistBusy request outcome) = some s') : OwnerInv s' := by
  cases hs
  by_cases happ : outcome.applies = true
  · simp only [happ, if_true]
    have hcases := s.zone.store.get_busy_persistBusyBatch
      ((s.zone.claimsOf request).map AllocClaim.busyBlock)
    have hstore : (s.zone.persistBusy request outcome).store =
        s.zone.store.persistBusyBatch ((s.zone.claimsOf request).map AllocClaim.busyBlock) := by
      simp [ZoneState.persistBusy, ZoneStore.write, happ]
    -- nothing is claimed at an offset with a record
    have hclaim : ∀ o value, s.busyAt o = some value →
        (s.zone.claimsOf request).filter (fun c => decide (c.unitOffset = o)) = [] := by
      intro o value hvalue
      refine filter_eq_nil_iff.mpr fun c hc heq => ?_
      have hnone := hex happ c hc
      rw [of_decide_eq_true heq, hvalue] at hnone
      cases hnone
    refine ⟨?_, ?_, ?_⟩
    · intro o value hvalue hmem
      rw [RequestState.busyAt, hstore] at hvalue
      dsimp only at hvalue hmem
      rcases hcases o with ⟨-, hsame⟩ | ⟨value', hblock, -⟩
      · have hold : s.busyAt o = some value := hsame.symm.trans hvalue
        rw [hclaim o value hold] at hmem
        exact h.unfreed o value hold hmem
      · obtain ⟨c, hc, hpair⟩ := mem_map.mp hblock
        have hlen : 0 < ((s.zone.claimsOf request).filter fun c =>
          decide (c.unitOffset = o)).length := by
          refine length_pos_of_mem (mem_filter.mpr ⟨hc, ?_⟩)
          exact decide_eq_true (congrArg Prod.fst hpair)
        have := h.bound _ hmem
        dsimp only at this
        omega
    · intro p hp
      exact (h.bound p hp).trans (Nat.le_add_right _ _)
    · intro j r hget
      have hintact := h.intact j r hget
      have hread : ∀ o ∈ r.readOffsets, ∃ value, s.busyAt o = some value := by
        intro o ho
        cases r with
        | free =>
          obtain ⟨segment, hseg, rfl⟩ := mem_map.mp ho
          obtain ⟨value, hvalue, -⟩ := hintact segment hseg
          exact ⟨value, hvalue⟩
        | commit =>
          obtain ⟨r, hr, rfl⟩ := mem_map.mp ho
          obtain ⟨-, value, hvalue, -⟩ := hintact r hr
          exact ⟨value, hvalue⟩
      refine intact_mono hintact (fun o ho => ?_) fun o _ value hvalue => ⟨value, ?_, rfl⟩
      · obtain ⟨value, hvalue⟩ := hread o ho
        dsimp only
        rw [hclaim o value hvalue]
        rfl
      · rw [RequestState.busyAt, hstore]
        rcases hcases o with ⟨-, hsame⟩ | ⟨value', hblock, -⟩
        · exact hsame.trans hvalue
        · obtain ⟨c, hc, hpair⟩ := mem_map.mp hblock
          have hmem : c ∈ (s.zone.claimsOf request).filter fun c => decide (c.unitOffset = o) :=
            mem_filter.mpr ⟨hc, decide_eq_true (congrArg Prod.fst hpair)⟩
          rw [hclaim o value hvalue] at hmem
          cases hmem
  · simp only [happ]
    refine h.of_same_busy ?_ rfl rfl fun _ _ hget => .inl hget
    simp [ZoneState.persistBusy, ZoneStore.write, happ]

theorem zoneStep {e : ZoneEvent} (hex : s.Exclusive (.zone e))
    (hs : s.zoneStep unitCapacity e = some s') : OwnerInv s' := by
  by_cases hbusy : ∃ request outcome, e = .persistBusy request outcome
  · obtain ⟨request, outcome, rfl⟩ := hbusy
    exact h.persistBusy hex hs
  · unfold RequestState.zoneStep at hs
    split at hs
    case h_5 =>
      cases hs
      refine h.of_same_busy rfl rfl rfl fun j request hget => ?_
      simp [RecordStore.get, RecordStore.empty] at hget
    case h_6 => exact (hbusy ⟨_, _, rfl⟩).elim
    case h_7 =>
      obtain ⟨z', hz', rfl⟩ := map_eq_some_iff.mp hs
      refine h.of_same_busy (ZoneState.busy_step ?_ hz') rfl rfl fun _ _ hget => .inl hget
      unfold ZoneEvent.writesBlocks
      split <;> simp_all
    all_goals cases hs

theorem step {e : RequestEvent} (hex : s.Exclusive e) (hs : s.step unitCapacity e = some s') :
    OwnerInv s' := by
  cases e with
  | zone => exact h.zoneStep hex hs
  | freeBlocks i segments | commitBlocks i segments =>
    simp only [RequestState.step] at hs
    split at hs
    · cases hs
    · cases hs
      exact h.goto i nofun
  | getBusy => exact h.getBusy hs
  | persist => exact h.persist hex hs

theorem respects (hget : s.requests.get i = some request) : request.Respects s := by
  have hintact := h.intact i request hget
  cases request with
  | free =>
    intro segment hseg value hvalue
    obtain ⟨value', hvalue', howner⟩ := hintact segment hseg
    cases hvalue'.symm.trans hvalue
    exact howner
  | commit =>
    intro r hr
    obtain ⟨hborn, value, hvalue, -⟩ := hintact r hr
    rw [hborn]
    exact h.unfreed _ value hvalue

end OwnerInv

namespace RequestState

/-- **Free and commit act on their own allocation**, at every moment. -/
theorem respects_of_reach {unitCapacity : ℕ} {s : RequestState}
    (h : Reach (step unitCapacity) Exclusive {} s)
    {i : ℕ} {request : BlockRequest} (hget : s.requests.get i = some request) : request.Respects s :=
  (h.invariant OwnerInv.init fun hinv hex hs => hinv.step hex hs).respects hget

/-- A zone of one unit: committed and freed by owner 7, allocated to owner 9; a second free of owner
    7 is refused. -/
theorem respects_reallocated : ∃ s : RequestState, Reach (step 1) Exclusive {} s ∧
      s.requests.get 1 = none ∧
      s.requests.get 2 = some (.free [] [(⟨0, 1, 9⟩, 0)]) ∧
        (s.busyAt 0).map BusyBlockValue.ownerChunk = some 9 ∧
      s.freed = [(0, 1)] ∧ (BlockRequest.free [] [(⟨0, 1, 9⟩, 0)]).Respects s := by
  exact Reach.exists_imp_of_run
    (fun s => s.requests.get 1 = none ∧ s.requests.get 2 = some (.free [] [(⟨0, 1, 9⟩,
      0)]) ∧ (s.busyAt 0).map BusyBlockValue.ownerChunk = some 9 ∧ s.freed = [(0, 1)])
    [.zone (.load {} 0 .ok), .zone (.allocate 0 1 7), .zone (.persistBusy 0 .ok),
      .commitBlocks 0 [⟨0, 1, 7⟩],
      .getBusy 0 true, .persist 0 .ok, .freeBlocks 0 [(⟨0, 1, 7⟩, 0)],
        .freeBlocks 1 [(⟨0, 1, 7⟩, 0)], .getBusy 0 true,
      .persist 0 .ok, .zone .compactScan, .zone .compactMerge, .zone (.compactSlot true),
        .zone .compactCopy,
      .zone (.compactWrite .ok), .zone (.allocate 0 1 9), .zone (.persistBusy 0 .ok), .getBusy 1 true,
      .freeBlocks 2 [(⟨0, 1, 9⟩, 0)], .getBusy 2 true]
        (by decide +kernel) fun s hs ⟨h1, h2, h3, h4⟩ => ⟨h1, h2, h3, h4, respects_of_reach hs h2⟩

/-- Two frees of owner 7 pass their check, and the second deletes the record of owner 9. And a
    commit writes back the record of a block that was freed after it was read. -/
theorem frees_and_recreates_foreign :
    (∃ s s' : RequestState, Reach (step 1) anyStep {} s ∧ step 1 s (.persist 1 .ok) = some s' ∧
      s.requests.get 1 = some (.free [] [(⟨0, 1, 7⟩, 0)]) ∧
        (s.busyAt 0).map BusyBlockValue.ownerChunk = some 9 ∧
      s'.busyAt 0 = none) ∧
    ∃ s s' : RequestState, Reach (step 1) anyStep {} s ∧ step 1 s (.persist 1 .ok) = some s' ∧
      s.freed = [(0, 1)] ∧ s.busyAt 0 = none ∧ s.born 0 = 1 ∧
      (s'.busyAt 0).map BusyBlockValue.ownerChunk = some 7 := by
  constructor
  · obtain ⟨s, hs, hp⟩ : ∃ s, Reach (step 1) anyStep {} s ∧ s.requests.get 1 =
      some (.free [] [(⟨0, 1, 7⟩, 0)]) ∧
          (s.busyAt 0).map BusyBlockValue.ownerChunk = some 9 ∧
          (step 1 s (.persist 1 .ok)).map (busyAt · 0) = some none :=
      Reach.exists_of_run
        [.zone (.load {} 0 .ok), .zone (.allocate 0 1 7), .zone (.persistBusy 0 .ok),
          .freeBlocks 0 [(⟨0, 1, 7⟩, 0)],
        .freeBlocks 1 [(⟨0, 1, 7⟩, 0)], .getBusy 0 true, .getBusy 1 true, .persist 0 .ok,
          .zone .compactScan,
        .zone .compactMerge, .zone (.compactSlot true), .zone .compactCopy, .zone (.compactWrite .ok),
        .zone (.allocate 0 1 9), .zone (.persistBusy 0 .ok)] (by decide +kernel)
    obtain ⟨h1, h2, h3⟩ := hp
    obtain ⟨s', hs', h3⟩ := map_eq_some_iff.mp h3
    exact ⟨s, s', hs, hs', h1, h2, h3⟩
  · obtain ⟨s, hs, hp⟩ : ∃ s, Reach (step 1) anyStep {} s ∧ s.freed = [(0, 1)] ∧ s.busyAt 0 = none ∧
      s.born 0 = 1 ∧
          (step 1 s (.persist 1 .ok)).map (fun s' => (s'.busyAt 0).map BusyBlockValue.ownerChunk) =
            some (some 7) :=
      Reach.exists_of_run
        [.zone (.load {} 0 .ok), .zone (.allocate 0 1 7), .zone (.persistBusy 0 .ok),
          .freeBlocks 0 [(⟨0, 1, 7⟩, 0)],
        .commitBlocks 1 [⟨0, 1, 7⟩], .getBusy 0 true, .getBusy 1 true,
          .persist 0 .ok] (by decide +kernel)
    obtain ⟨h1, h2, h3, h4⟩ := hp
    obtain ⟨s', hs', h4⟩ := map_eq_some_iff.mp h4
    exact ⟨s, s', hs, hs', h1, h2, h3, h4⟩

end RequestState

end CrowDB
