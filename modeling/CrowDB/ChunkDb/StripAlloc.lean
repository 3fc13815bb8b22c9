/-
  Allocating the blocks of a strip (`allocate_blocks_parallel` of `allocator.rs`, `allocate_blocks`
  of `allocator/pool.rs` and of diskdb's `model/alloc.rs`).

  Every entry of the plan is a request of its own to the diskdb of its disk group, the requests of
  a round run at once, and none of them excludes a disk.  So two blocks of a strip on one disk
  group are on different disks only as far as the round robin of the group keeps them apart.
-/
import Mathlib.Data.Finset.Card
import CrowDB.Lib.Lists
import CrowDB.Lib.Runs
import CrowDB.ChunkDb.Placement
import CrowDB.DiskDb.DiskGroup

namespace CrowDB

open Lib List Option

/-! ## Requests -/

/-- How far a request is. -/
inductive BlockCallState (D : Type*) where
  | requested
  /-- diskdb found no space and has compacted, to try once more -/
  | compacted
  | answered (segments : List D)
  | failed
deriving DecidableEq

/-- A request for `count` blocks; `retries` counts the transient failures so far. -/
structure BlockCall (D : Type*) where
  diskGroupId : ℕ
  count : ℕ
  retries : ℕ
  state : BlockCallState D
deriving DecidableEq

variable {D : Type*}

/-- A request for `count` blocks. -/
def BlockCall.new (diskGroupId count : ℕ) : BlockCall D := ⟨diskGroupId, count, 0, .requested⟩

variable (call : BlockCall D)

/-- What the request got. -/
def BlockCall.segments : List D :=
  match call.state with
  | .answered segments => segments
  | _ => []

/-- The request is under way. -/
def BlockCall.waits : Bool :=
  match call.state with
  | .requested | .compacted => true
  | _ => false

/-- The request failed. -/
def BlockCall.isFailed : Bool :=
  match call.state with
  | .failed => true
  | _ => false

/-- `Unreachable`: another attempt, of three at most. -/
def BlockCall.retry : BlockCall D :=
  if call.retries < 2 then { call with retries := call.retries + 1, state := .requested }
  else { call with state := .failed }

/-- How diskdb serves a request. -/
inductive ServeOutcome where
  | delivered
  /-- the busy-block records cannot be written; the claims are undone -/
  | persistFailed
  /-- the blocks are allocated and the reply is lost -/
  | lost
deriving DecidableEq

/-- When and where a block of the strip was placed. -/
structure Turn (D : Type*) where
  diskGroupId : ℕ
  disks : List D
  pos : ℕ
  disk : D

/-! ## The system -/

/-- The disk groups and the requests of a round. -/
structure StripAlloc (D : Type*) where
  groups : ℕ → DiskGroup D
  calls : List (BlockCall D)
  attempt : ℕ := 0
  allSegments : List D := []
  /-- the strip, or `none` for an error -/
  result : Option (Option (List D)) := none
  /-- history: the blocks that were delivered -/
  turns : List (Turn D) := []

/-- A step of a request, or the next round. -/
inductive StripEvent (D : Type*) where
  | serve (i : ℕ) (rnd : ℕ → ℕ) (outcome : ServeOutcome)
  /-- the request does not get to diskdb, or times out -/
  | unreachable (i : ℕ)
  /-- diskdb refuses the request (not the owner, not ready) -/
  | refuse (i : ℕ)
  /-- all requests of the round have returned -/
  | join
  /-- a request of somebody else -/
  | other (diskGroupId : ℕ) (rnd : ℕ → ℕ) (count : ℕ) (exclude : List D)
  /-- frees, compactions, other sizes: the room on the disks changes -/
  | space (diskGroupId : ℕ) (space : D → ℕ)
  /-- the allocatable disks of a group change -/
  | disks (diskGroupId : ℕ) (up : Bool) (disks : List D)

namespace StripAlloc

variable [DecidableEq D]

/-- `MAX_ALLOC_RETRIES`. -/
def maxAllocRetries : ℕ := 3

/-- The first round. -/
def start (groups : ℕ → DiskGroup D) (entries : List PlacementEntry) : StripAlloc D :=
  { groups := groups, calls := entries.map fun e => .new e.diskGroupId e.blockCount }

variable (s : StripAlloc D)

/-- Disk group `diskGroupId` is now `g`. -/
def setGroup (diskGroupId : ℕ) (g : DiskGroup D) : StripAlloc D :=
  { s with groups := Function.update s.groups diskGroupId g }

/-- Request `i` is now `call`. -/
def setCall (i : ℕ) (call : BlockCall D) : StripAlloc D := { s with calls := s.calls.set i call }

/-- Diskdb handles a request: no disk is excluded, one retry after a compaction, then the records. -/
def serve (i : ℕ) (call : BlockCall D) (rnd : ℕ → ℕ) (outcome : ServeOutcome) : StripAlloc D :=
  let g := s.groups call.diskGroupId
  let claimed := g.allocateBlocks rnd call.count []
  let s' := s.setGroup call.diskGroupId claimed.1
  match claimed.2, outcome with
  | some disks, .delivered =>
    { s'.setCall i { call with state := .answered disks } with
      turns := s.turns ++ disks.map fun d => ⟨call.diskGroupId, g.allocatingDisks, g.pos, d⟩ }
  | some disks, .persistFailed =>
    (s'.setGroup call.diskGroupId
      { claimed.1 with space := fun d => claimed.1.space d + disks.count d }).setCall i {
        call with state := .failed }
  | _, .lost => s'.setCall i call.retry
  | none, _ =>
    match call.state with
    | .requested => s'.setCall i { call with state := .compacted }
    | _ => s'.setCall i { call with state := .failed }

/-- The requests for what is missing in the answers. -/
def missing : List (BlockCall D) :=
  (s.calls.filter fun call => decide (call.segments.length < call.count)).map fun call =>
    .new call.diskGroupId (call.count - call.segments.length)

/-- The end of a round: an error frees everything; missing blocks are asked for again. -/
def join : StripAlloc D :=
  if s.calls.any BlockCall.isFailed then { s with result := some none }
  else
    let allSegments := s.allSegments ++ s.calls.flatMap BlockCall.segments
    match s.missing with
    | [] => { s with calls := [], allSegments := allSegments, result := some (some allSegments) }
    | calls =>
      if s.attempt < maxAllocRetries then
        { s with calls := calls, allSegments := allSegments, attempt := s.attempt + 1 }
      else { s with allSegments := allSegments, result := some none }

/-- A disk belongs to one disk group, `home`. -/
def step (home : D → ℕ) (s : StripAlloc D) : StripEvent D → Option (StripAlloc D)
  | .serve i rnd outcome => (s.calls[i]?).bind fun call =>
    if call.waits ∧ s.result = none then some (s.serve i call rnd outcome) else none
  | .unreachable i => (s.calls[i]?).bind fun call =>
    if call.waits ∧ s.result = none then some (s.setCall i call.retry) else none
  | .refuse i => (s.calls[i]?).bind fun call =>
    if call.waits ∧ s.result = none then some (s.setCall i { call with state := .failed }) else none
  | .join => if (s.calls.any BlockCall.waits) = false ∧ s.result = none then some s.join else none
  | .other diskGroupId rnd count exclude =>
    some (s.setGroup diskGroupId ((s.groups diskGroupId).allocateBlocks rnd count exclude).1)
  | .space diskGroupId space =>
      some (s.setGroup diskGroupId { s.groups diskGroupId with space := space })
  | .disks diskGroupId up disks =>
    if disks.Nodup ∧ ∀ d ∈ disks, home d = diskGroupId then
      some (s.setGroup diskGroupId { s.groups diskGroupId with up := up, allocatingDisks := disks })
    else none

end StripAlloc

/-! ## The condition -/

section

variable [DecidableEq D]

/-- The block went to the disk in turn, the group has the same disks, less than a round has passed,
    and the disk in turn has room. -/
def Turn.Recent (t : Turn D) (g : DiskGroup D) : Prop :=
  g.up = true ∧ t.disks = g.allocatingDisks ∧ t.disks[t.pos % t.disks.length]? = some t.disk ∧
    t.pos < g.pos ∧ g.pos < t.pos + t.disks.length ∧
      g.turn.any (fun d => decide (0 < g.space d)) = true

instance (t : Turn D) (g : DiskGroup D) : Decidable (t.Recent g) :=
  inferInstanceAs (Decidable (_ ∧ _))

namespace StripAlloc

/-- The first request of the strip on its group, or one in the same round as those before it. -/
def InTurn (s : StripAlloc D) : StripEvent D → Prop
  | .serve i _ .delivered => ∀ call ∈ s.calls[i]?, ∀ t ∈ s.turns, t.diskGroupId = call.diskGroupId →
      t.Recent (s.groups call.diskGroupId)
  | _ => True

instance (s : StripAlloc D) (e : StripEvent D) : Decidable (s.InTurn e) :=
  match e with
  | .serve _ _ .delivered => inferInstanceAs (Decidable (∀ _ ∈ _, _))
  | .serve _ _ .persistFailed | .serve _ _ .lost | .unreachable _ | .refuse _ | .join | .other
      _ _ _ _ | .space _ _
  | .disks _ _ _ => isTrue trivial

end StripAlloc

/-! ## The invariant -/

/-- The blocks so far. -/
def StripAlloc.collected (s : StripAlloc D) : List D :=
  s.allSegments ++ s.calls.flatMap BlockCall.segments

/-- The blocks so far are on different disks. -/
structure StripInv (home : D → ℕ) (blocks : ℕ) (s : StripAlloc D) : Prop where
  groups : ∀ g, (s.groups g).allocatingDisks.Nodup ∧ ∀ d ∈ (s.groups g).allocatingDisks, home d = g
  single : ∀ call ∈ s.calls, call.count = 1 ∧ ∀ segments, call.state = .answered segments →
    segments.length = 1
  nodup : s.collected.Nodup
  placed : ∀ d ∈ s.collected, ∃ t ∈ s.turns, t.disk = d ∧ home d = t.diskGroupId
  running : s.result = none → s.allSegments.length + s.calls.length = blocks
  result : ∀ segments, s.result = some (some segments) → segments.length = blocks ∧ segments.Nodup

namespace StripInv

variable {home : D → ℕ} {blocks : ℕ} {s : StripAlloc D}

omit [DecidableEq D] in
theorem start {groups : ℕ → DiskGroup D} {entries : List PlacementEntry}
    (hgroups : ∀ g, (groups g).allocatingDisks.Nodup ∧ ∀ d ∈ (groups g).allocatingDisks, home d = g)
    (hone : ∀ e ∈ entries, e.blockCount = 1) :
    StripInv home entries.length (StripAlloc.start groups entries) := by
  have hnil : (StripAlloc.start groups entries).collected = [] := by
    refine flatMap_eq_nil_iff.mpr fun call hcall => ?_
    obtain ⟨e, -, rfl⟩ := mem_map.mp hcall
    rfl
  refine ⟨hgroups, ?_, ?_, ?_, ?_, nofun⟩
  · intro call hcall
    obtain ⟨e, he, rfl⟩ := mem_map.mp hcall
    exact ⟨hone e he, nofun⟩
  · rw [hnil]
    exact nodup_nil
  · rw [hnil]
    nofun
  · intro _
    simp [StripAlloc.start]

variable (h : StripInv home blocks s) {call call' : BlockCall D} {i : ℕ} {g : DiskGroup D}
include h

omit [DecidableEq D] in
theorem setGroup (i : ℕ)
    (hg : g.allocatingDisks.Nodup ∧ ∀ d ∈ g.allocatingDisks, home d = i) :
    StripInv home blocks (s.setGroup i g) := by
  refine { h with groups := fun j => ?_ }
  by_cases hj : j = i
  · subst hj
    rw [show (s.setGroup j g).groups j = g from Function.update_self ..]
    exact hg
  · rw [show (s.setGroup i g).groups j = s.groups j from Function.update_of_ne hj ..]
    exact h.groups j

omit [DecidableEq D] in
/-- **A request moves on**: to a state without segments, or it gets a disk that the strip does not
    have. -/
theorem setCall (hcall : s.calls[i]? = some call)
    (hnone : call.segments = []) (hcount : call'.count = 1)
    (hnew : ∀ segments, call'.state = .answered segments → segments.length = 1)
    (hfresh : ∀ d ∈ call'.segments, d ∉ s.collected) {turns : List (Turn D)}
    (hsub : ∀ t ∈ s.turns, t ∈ turns)
    (hturn : ∀ d ∈ call'.segments, ∃ t ∈ turns, t.disk = d ∧ home d = t.diskGroupId) :
    StripInv home blocks { s.setCall i call' with turns := turns } := by
  obtain ⟨rest, hold, hset⟩ := flatMap_set_perm hcall BlockCall.segments
  rw [hnone, nil_append] at hold
  have hperm : ({ s.setCall i call' with turns := turns } : StripAlloc D).collected.Perm
    (call'.segments ++ s.collected) := by
    have hflat : ((s.calls.set i call').flatMap BlockCall.segments).Perm
        (call'.segments ++ s.calls.flatMap BlockCall.segments) :=
      (hset call').trans (hold.symm.append_left call'.segments)
    exact (hflat.append_left s.allSegments).trans (perm_append_comm_assoc ..)
  refine ⟨h.groups, ?_, ?_, ?_, ?_, h.result⟩
  · exact forall_mem_set h.single ⟨hcount, hnew⟩
  · refine hperm.nodup_iff.mpr (nodup_append.mpr ⟨?_, h.nodup, ?_⟩)
    · -- at most one segment
      cases hstate : call'.state with
      | answered segments =>
        have hlen := hnew segments hstate
        obtain ⟨d, rfl⟩ := length_eq_one_iff.mp hlen
        simp [BlockCall.segments, hstate]
      | requested | compacted | failed => simp [BlockCall.segments, hstate]
    · rintro d hd _ hd' rfl
      exact hfresh d hd hd'
  · intro d hd
    rcases mem_append.mp (hperm.mem_iff.mp hd) with hd | hd
    · exact hturn d hd
    · obtain ⟨t, ht, heq⟩ := h.placed d hd
      exact ⟨t, hsub t ht, heq⟩
  · intro hres
    have := h.running hres
    simpa [StripAlloc.setCall] using this

omit [DecidableEq D] in
theorem setCall_empty (hcall : s.calls[i]? = some call)
    (hwaits : call.waits = true) (hcount : call'.count = call.count)
    (hnone : ∀ segments, call'.state ≠ .answered segments) :
    StripInv home blocks (s.setCall i call') := by
  have hmem := mem_of_getElem? hcall
  have hsegments : call'.segments = [] := by
    unfold BlockCall.segments
    split
    · exact absurd ‹_› (hnone _)
    · rfl
  refine h.setCall hcall ?_ (hcount.trans (h.single call hmem).1) (fun segments hs =>
    absurd hs (hnone segments)) ?_
    (fun t ht => ht) ?_
  · unfold BlockCall.waits at hwaits
    unfold BlockCall.segments
    split <;> simp_all
  · rw [hsegments]
    nofun
  · rw [hsegments]
    nofun
omit h in
omit [DecidableEq D] in
theorem ne_of_recent {t : Turn D} (hnodup : g.allocatingDisks.Nodup) (h : t.Recent g) {d : D}
    (hd : g.turn = some d) : t.disk ≠ d := by
  obtain ⟨-, hdisks, hplace, hlt, hround, -⟩ := h
  rintro rfl
  rw [hdisks] at hplace hround
  obtain ⟨h1, hget1⟩ := List.getElem?_eq_some_iff.mp hplace
  obtain ⟨h2, hget2⟩ := List.getElem?_eq_some_iff.mp hd
  have hmod : t.pos % g.allocatingDisks.length = g.pos % g.allocatingDisks.length :=
    hnodup.getElem_inj_iff.mp (hget1.trans hget2.symm)
  have hsub := Nat.sub_mod_eq_zero_of_mod_eq hmod.symm
  rw [Nat.mod_eq_of_lt (by omega)] at hsub
  omega

theorem serve (hcall : s.calls[i]? = some call)
    (hwaits : call.waits = true) {rnd : ℕ → ℕ} {outcome : ServeOutcome}
    (hturn : s.InTurn (.serve i rnd outcome)) :
    StripInv home blocks (s.serve i call rnd outcome) := by
  have hmem := mem_of_getElem? hcall
  have hcount := (h.single call hmem).1
  obtain ⟨hdisks, hpicks⟩ := (s.groups call.diskGroupId).allocateBlocks_spec rnd call.count []
  obtain ⟨hnodup, hhome⟩ := h.groups call.diskGroupId
  have hset : ∀ g : DiskGroup D, g.allocatingDisks = (s.groups call.diskGroupId).allocatingDisks →
      StripInv home blocks (s.setGroup call.diskGroupId g) := by
    intro g hg
    refine h.setGroup _ ?_
    rw [hg]
    exact ⟨hnodup, hhome⟩
  have hempty : ∀ {s' : StripAlloc D} {call' : BlockCall D}, StripInv home blocks s' →
    s'.calls = s.calls →
      call'.count = call.count → (∀ segments, call'.state ≠ .answered segments) →
      StripInv home blocks (s'.setCall i call') := by
    intro s' call' hs' hcalls
    exact hs'.setCall_empty (by rw [hcalls, hcall]) hwaits
  unfold StripAlloc.serve
  dsimp only
  split
  · rename_i disks heq
    obtain ⟨hlen, hpick⟩ := hpicks disks heq
    rw [hcount] at hlen
    obtain ⟨d, rfl⟩ := length_eq_one_iff.mp hlen
    have hd : home d = call.diskGroupId := hhome d (hpick.listed d mem_cons_self)
    refine (hset _ hdisks).setCall hcall ?_ ?_ ?_ ?_ (fun t ht => mem_append_left _ ht) ?_
    · unfold BlockCall.waits at hwaits
      unfold BlockCall.segments
      split <;> simp_all
    · exact hcount
    · rintro _ ⟨⟩
      rfl
    · -- a disk of the strip is in another group, or had an earlier turn of this round
      intro x hx hmem
      obtain rfl := mem_singleton.mp hx
      obtain ⟨t, ht, hdisk, hthome⟩ := h.placed x hmem
      have hrecent := hturn call hcall t ht (hthome.symm.trans hd)
      obtain ⟨y, hy, hspace⟩ := (any_eq_true _ _).mp hrecent.2.2.2.2.2
      have hfirst := DiskGroup.allocateBlocks_turn hrecent.1 hy (of_decide_eq_true hspace) rnd
      rw [← hcount, heq] at hfirst
      cases hfirst
      exact ne_of_recent hnodup hrecent hy hdisk
    · intro x hx
      obtain rfl := mem_singleton.mp hx
      exact ⟨_, mem_concat_self, rfl, hd⟩
  · refine hempty ((hset _ hdisks).setGroup call.diskGroupId ?_) rfl rfl nofun
    rw [hdisks]
    exact ⟨hnodup, hhome⟩
  · refine hempty (hset _ hdisks) rfl ?_ ?_
    · unfold BlockCall.retry
      split <;> rfl
    · unfold BlockCall.retry
      split <;> nofun
  · split
    · exact hempty (hset _ hdisks) rfl rfl nofun
    · exact hempty (hset _ hdisks) rfl rfl nofun

omit [DecidableEq D] in
theorem join (hdone : (s.calls.any BlockCall.waits) = false) (hres : s.result = none) :
    StripInv home blocks s.join := by
  unfold StripAlloc.join
  split
  · exact { h with running := nofun, result := nofun }
  · rename_i hfailed
    -- every request is answered, with the one block it asked for
    have hanswered : ∀ call ∈ s.calls, call.segments.length = 1 := by
      intro call hcall
      have hwaits := any_eq_false.mp hdone call hcall
      have hfail := any_eq_false.mp (by simpa using hfailed) call hcall
      cases hstate : call.state with
      | answered segments =>
        rw [show call.segments = segments by simp [BlockCall.segments, hstate]]
        exact (h.single call hcall).2 segments hstate
      | requested | compacted => simp [BlockCall.waits, hstate] at hwaits
      | failed => simp [BlockCall.isFailed, hstate] at hfail
    have hmissing : s.missing = [] := by
      unfold StripAlloc.missing
      rw [map_eq_nil_iff, filter_eq_nil_iff]
      intro call hcall
      simp [hanswered call hcall, (h.single call hcall).1]
    have hlen : (s.calls.flatMap BlockCall.segments).length = s.calls.length := by
      rw [length_flatMap, map_congr_left hanswered]
      simp
    rw [hmissing]
    refine ⟨h.groups, nofun, ?_, ?_, nofun, ?_⟩
    · simpa [StripAlloc.collected] using h.nodup
    · intro d hd
      exact h.placed d (by simpa [StripAlloc.collected] using hd)
    · rintro _ ⟨⟩
      refine ⟨?_, h.nodup⟩
      rw [length_append, hlen]
      exact h.running hres

theorem step {s' : StripAlloc D} {e : StripEvent D} (hturn : s.InTurn e)
    (hs : s.step home e = some s') : StripInv home blocks s' := by
  cases e with
  | serve =>
    obtain ⟨call, hcall, hs⟩ := bind_eq_some_iff.mp hs
    split at hs
    · rename_i hcond
      cases hs
      exact h.serve hcall hcond.1 hturn
    · cases hs
  | unreachable =>
    obtain ⟨call, hcall, hs⟩ := bind_eq_some_iff.mp hs
    split at hs
    · rename_i hcond
      cases hs
      refine h.setCall_empty hcall hcond.1 ?_ ?_
      · unfold BlockCall.retry
        split <;> rfl
      · unfold BlockCall.retry
        split <;> nofun
    · cases hs
  | refuse =>
    obtain ⟨call, hcall, hs⟩ := bind_eq_some_iff.mp hs
    split at hs
    · rename_i hcond
      cases hs
      exact h.setCall_empty hcall hcond.1 rfl nofun
    · cases hs
  | join =>
    simp only [StripAlloc.step] at hs
    split at hs
    · rename_i hcond
      cases hs
      exact h.join hcond.1 hcond.2
    · cases hs
  | other g rnd count exclude =>
    cases hs
    obtain ⟨hdisks, -⟩ := (s.groups g).allocateBlocks_spec rnd count exclude
    refine h.setGroup g ?_
    rw [hdisks]
    exact h.groups g
  | space g =>
    cases hs
    exact h.setGroup g (h.groups g)
  | disks g =>
    simp only [StripAlloc.step] at hs
    split at hs
    · rename_i hcond
      cases hs
      exact h.setGroup g hcond
    · cases hs

end StripInv

namespace StripAlloc

theorem survivors_of_nodup {segments : List D} {dataNum codeNum : ℕ}
    (hlen : segments.length = dataNum + codeNum)
    (hnodup : segments.Nodup) {lost : Finset D} (hlost : lost.card ≤ codeNum) :
    dataNum ≤ (segments.filter fun d => decide (d ∉ lost)).length := by
  have hsplit := length_eq_length_filter_add (fun d => decide (d ∈ lost)) (l := segments)
  have hgone : (segments.filter fun d => decide (d ∈ lost)).length ≤ lost.card := by
    rw [← toFinset_card_of_nodup (hnodup.filter _)]
    refine Finset.card_le_card fun d hd => ?_
    exact of_decide_eq_true (mem_filter.mp (mem_toFinset.mp hd)).2
  simp only [← decide_not] at hsplit
  omega

/-- **An erasure-coded strip survives** the loss of any `codeNum` disks: its segments lie on
    different ones. -/
theorem ec_strip_survives_of_reach {snap : TopologySnapshot} {safeRacks unsafeRacks : List ℕ}
    {dataNum codeNum : ℕ}
    {constraints : PlacementConstraints} {plan : PlacementPlan}
    (hplan : EcPlacement.select snap safeRacks unsafeRacks dataNum codeNum constraints = .ok plan)
    {home : D → ℕ} {groups : ℕ → DiskGroup D}
    (hgroups : ∀ g, (groups g).allocatingDisks.Nodup ∧ ∀ d ∈ (groups g).allocatingDisks, home d = g)
    {s : StripAlloc D} (h : Reach (step home) InTurn (start groups plan.entries) s)
    {segments : List D}
    (hres : s.result = some (some segments)) :
    segments.length = dataNum + codeNum ∧ segments.Nodup ∧
      ∀ lost : Finset D, lost.card ≤ codeNum → dataNum ≤
        (segments.filter fun d => decide (d ∉ lost)).length := by
  obtain ⟨hblocks, hone, -⟩ := EcPlacement.select_blocks hplan
  have hinv : StripInv home plan.entries.length s :=
    h.invariant (StripInv.start hgroups hone) fun hinv hturn hs => hinv.step hturn hs
  obtain ⟨hlen, hnodup⟩ := hinv.result segments hres
  rw [hblocks] at hlen
  exact ⟨hlen, hnodup, fun lost hlost => survivors_of_nodup hlen hnodup hlost⟩

end StripAlloc

end

/-! ## A cluster of two nodes -/

/-- One rack with two nodes, each with one disk group. -/
def twoNodes : TopologySnapshot :=
  { diskGroups := [⟨0, 1, 1, true⟩, ⟨0, 2, 2, true⟩], nodeUp := fun _ _ =>
    true, rackUp := fun _ => true }

/-- The first node gets two blocks, as many as it may have. -/
def twoNodesEntries : List PlacementEntry := [⟨0, 1, 1, 1⟩, ⟨0, 1, 1, 1⟩, ⟨0, 2, 2, 1⟩]

theorem select_twoNodes : EcPlacement.select twoNodes [0] [0] 1 2 {} =
      .ok ⟨twoNodesEntries, true⟩ := by
  have hplan : tryDistribute (healthyDgs twoNodes {}) 2 [0] (1 + 2) = some twoNodesEntries := by
    unfold tryDistribute
    rw [distribute_of_candidate rfl, nil_append, distribute_of_candidate rfl, nil_append,
      distribute_of_candidate rfl, distribute]
    rfl
  simp only [EcPlacement.select, hplan]
  rfl

namespace StripAlloc

/-- Disk groups `1` and `2`. -/
def twoGroups (disks : List ℕ) (pos : ℕ) (space : ℕ → ℕ) (dgId : ℕ) : DiskGroup ℕ :=
  { up := true
    allocatingDisks := if dgId = 1 then disks else if dgId = 2 then [20, 21] else []
    pos := pos
    space := space }

/-- One data and two code blocks; a lost reply and a foreign request before the blocks of the first
    group. -/
theorem ec_strip_survives_twoNodes :
    ∃ s : StripAlloc ℕ, Reach (step fun d => d / 10) InTurn
        (start (twoGroups [10, 11] 0 fun _ => 5) twoNodesEntries) s ∧
      s.result = some (some [10, 11, 20]) ∧
      ∀ lost : Finset ℕ, lost.card ≤ 2 →
        1 ≤ ([10, 11, 20].filter fun d => decide (d ∉ lost)).length := by
  refine Reach.exists_imp_of_run (fun s => s.result = some (some [10, 11, 20]))
    [.other 1 id 1 [], .serve 1 id .lost, .serve 0 id .delivered, .serve 2 id .delivered,
      .serve 1 id .delivered,
      .join] (by decide +kernel) fun s hs hres => ?_
  refine ⟨hres, (ec_strip_survives_of_reach select_twoNodes ?_ hs hres).2.2⟩
  intro g
  by_cases h1 : g = 1
  · subst h1
    decide
  · by_cases h2 : g = 2
    · subst h2
      decide
    · simp [twoGroups, h1, h2]

/-- No disk group has more blocks of the plan than disks with room. -/
def Fits {D : Type*} (groups : ℕ → DiskGroup D) (entries : List PlacementEntry) : Prop :=
  ∀ g, (entries.filter fun e => decide (e.diskGroupId = g)).length ≤
    ((groups g).allocatingDisks.filter fun d => decide (0 < (groups g).space d)).length

theorem fits_twoNodes {groups : ℕ → DiskGroup ℕ}
    (h1 : 2 ≤ ((groups 1).allocatingDisks.filter fun d => decide (0 < (groups 1).space d)).length)
    (h2 : 1 ≤ ((groups 2).allocatingDisks.filter fun d => decide (0 < (groups 2).space d)).length) :
    Fits groups twoNodesEntries := by
  intro g
  by_cases hg1 : g = 1
  · subst hg1
    exact h1
  · by_cases hg2 : g = 2
    · subst hg2
      exact h2
    · have hnone : (twoNodesEntries.filter fun e => decide (e.diskGroupId = g)) = [] := by
        have h1' : ¬ (1 = g) := fun h => hg1 h.symm
        have h2' : ¬ (2 = g) := fun h => hg2 h.symm
        simp [twoNodesEntries, h1', h2']
      rw [hnone]
      exact Nat.zero_le _

/-- Two blocks of a group come to the same disk: because of a request between them, or because the
    disk between them in the round is full. -/
theorem ec_strip_lost :
    EcPlacement.select twoNodes [0] [0] 1 2 {} = .ok ⟨twoNodesEntries, true⟩ ∧
    (Fits (twoGroups [10, 11] 0 fun _ => 5) twoNodesEntries ∧ ∃ s : StripAlloc ℕ,
      Reach (step fun d => d / 10) anyStep
        (start (twoGroups [10, 11] 0 fun _ => 5) twoNodesEntries) s ∧
      s.result = some (some [10, 10, 20]) ∧
        ([10, 10, 20].filter fun d => decide (d ∉ [10, 20])).length = 0) ∧
    (Fits (twoGroups [10, 11, 12] 1 fun d => if d = 11 then 0 else 5) twoNodesEntries ∧
      ∃ s : StripAlloc ℕ, Reach (step fun d => d / 10) anyStep
        (start (twoGroups [10, 11, 12] 1 fun d => if d = 11 then 0 else 5) twoNodesEntries) s ∧
      s.result = some (some [12, 12, 21]) ∧
        ([12, 12, 21].filter fun d => decide (d ∉ [12, 21])).length = 0) := by
  refine ⟨select_twoNodes, ⟨fits_twoNodes (by decide) (by decide), ?_⟩,
    fits_twoNodes (by decide) (by decide), ?_⟩
  · exact Reach.exists_and_of_run [.serve 0 id .delivered, .other 1 id 1 [], .serve 1 id .delivered,
      .serve 2 id .delivered, .join] (by decide +kernel) fun s _ _ => by decide
  · exact Reach.exists_and_of_run [.serve 0 id .delivered, .serve 1 id .delivered,
      .serve 2 id .delivered,
      .join] (by decide +kernel) fun s _ _ => by decide

end StripAlloc

end CrowDB
