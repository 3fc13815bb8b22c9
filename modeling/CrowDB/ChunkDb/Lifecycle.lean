/-
  The lifecycle of chunks (`lifecycle.rs`): allocate, append, seal, delete, delete a range and
  update a strip, each a read, a check and a write of the chunk record under the lock of the
  chunk, with a cache of the records.

  Every access to the store, to the cache or to diskdb is a step of its own; any number of
  calls run at once.  What the environment decides is the outcome of a step: whether a call to
  diskdb or a record write fails, which segments are allocated and which are really freed.
-/
import CrowDB.Lib.RecordStore
import CrowDB.Lib.Runs

namespace CrowDB

open Lib

/-! ## Chunk records -/

/-- `ChunkState`. -/
inductive ChunkState where
  | init | active | sealed | deleted
deriving DecidableEq

/-- `check_can_append`, `check_can_seal` -/
def ChunkState.canAppend (state : ChunkState) : Bool := decide (state = .active)

/-- `check_can_delete`, and what a strip update asks for -/
def ChunkState.isLive (state : ChunkState) : Bool := decide (state = .active ∨ state = .sealed)

/-- `ChunkStrip`. -/
structure ChunkStrip (Seg : Type*) where
  chunkOffset : ℕ
  capacity : ℕ
  segments : List Seg
deriving DecidableEq

/-- The chunk record. -/
structure Chunk (Seg : Type*) where
  state : ChunkState
  createTsMs : ℕ
  sealedTsMs : ℕ
  capacity : ℕ
  sealedLength : ℕ
  strips : List (ChunkStrip Seg)
deriving DecidableEq

namespace Chunk

variable {Seg : Type*}

/-- The segments of all strips. -/
def segments (c : Chunk Seg) : List Seg := c.strips.flatMap ChunkStrip.segments

/-- Other strips, with the capacity they add up to. -/
def withStrips (c : Chunk Seg) (strips : List (ChunkStrip Seg)) : Chunk Seg :=
  { c with strips := strips, capacity := strips.foldl (fun n s => n + s.capacity) 0 }

/-- The record of a new chunk. -/
def fresh (now : ℕ) : Chunk Seg :=
  { state := .active, createTsMs := now, sealedTsMs := 0, capacity := 0
    sealedLength := 0, strips := [] }

end Chunk

/-- `u32::saturating_add`. -/
def saturatingAdd (a b : ℕ) : ℕ := min (a + b) 0xFFFFFFFF

/-- The strip overlaps the range that is deleted. -/
def ChunkStrip.overlaps {Seg : Type*} (offset size : ℕ) (strip : ChunkStrip Seg) : Bool :=
  decide (strip.chunkOffset < saturatingAdd offset size ∧
    offset < saturatingAdd strip.chunkOffset strip.capacity)

/-! ## Calls -/

/-- A request to `ChunkLifecycle`. -/
inductive LifecycleCall (Id Seg : Type*) where
  /-- `generated`: the id is not given by the caller, and no lock is taken -/
  | allocateChunk (id : Id) (generated : Bool) (stripCount now : ℕ)
  | appendChunk (id : Id) (stripCount : ℕ)
  | sealChunk (id : Id) (sealLength now : ℕ)
  | deleteChunk (id : Id)
  | deleteChunkRange (id : Id) (offset size : ℕ)
  | updateChunkStrip (id : Id) (index : ℕ) (strip : ChunkStrip Seg)

/-- Where a call stands, named after what it does next. `chunk` is the record it has read, from
    `allocate` on the one it will write; `added` will be committed, `freed` are freed. -/
inductive LifecyclePc (Seg : Type*) where
  | lock
  | readCache
  | readStore
  | fillCache (chunk : Chunk Seg)
  | check (chunk : Chunk Seg)
  | existing
  | allocate (chunk : Chunk Seg) (left : ℕ) (added : List Seg)
  | free (chunk : Chunk Seg) (segments added : List Seg)
  | commitFirst (chunk : Chunk Seg) (freed added : List Seg)
  | write (chunk : Chunk Seg) (freed added : List Seg)
  | commit (chunk : Chunk Seg) (added : List Seg)
  | refresh (chunk : Chunk Seg)

/-- A running call. -/
structure LifecycleOp (Id Seg : Type*) where
  call : LifecycleCall Id Seg
  pc : LifecyclePc Seg

/-- What the environment decides in a step. -/
inductive AccessOutcome (Seg : Type*) where
  | ok
  | fail
  /-- the record write reports a failure although it took effect -/
  | lost
  | allocated (strip : ChunkStrip Seg)
  /-- the allocation fails; of what it had allocated, `kept` is not freed -/
  | rolledBack (kept returned : List Seg)
  | freed (segments : List Seg)

variable {Id Seg : Type*}

/-- The chunk of a call. -/
def LifecycleCall.id : LifecycleCall Id Seg → Id
  | .allocateChunk id _ _ _ | .appendChunk id _ | .sealChunk id _ _ | .deleteChunk id
  | .deleteChunkRange id _ _ | .updateChunkStrip id _ _ => id

/-- The id is generated. -/
def LifecycleCall.generated : LifecycleCall Id Seg → Bool
  | .allocateChunk _ generated _ _ => generated
  | _ => false

/-- Where a call begins. -/
def LifecycleCall.start : LifecycleCall Id Seg → LifecyclePc Seg
  | .allocateChunk _ true stripCount now => .allocate (.fresh now) stripCount []
  | _ => .lock

/-- After the lock: `acquire` serves the record, `acquire_for_create` does not. -/
def LifecycleCall.locked : LifecycleCall Id Seg → LifecyclePc Seg
  | .allocateChunk _ _ _ _ => .existing
  | _ => .readCache

/-- **The check of the record** and what follows from it; `none` is an error. -/
def LifecycleCall.checked (chunk : Chunk Seg) : LifecycleCall Id Seg → Option (LifecyclePc Seg)
  | .allocateChunk _ _ _ _ => none
  | .appendChunk _ stripCount => if chunk.state.canAppend then some
      (.allocate chunk stripCount []) else none
  | .sealChunk _ sealLength now =>
    if chunk.state.canAppend then
      some (.write { chunk with state := .sealed, sealedLength := sealLength, sealedTsMs := now }
        [] [])
    else none
  | .deleteChunk _ =>
    if chunk.state.isLive then
      some (.free { chunk with state := .deleted } chunk.segments []) else none
  | .deleteChunkRange _ offset size =>
    if chunk.state.canAppend then
      some (.free (chunk.withStrips (chunk.strips.filter fun s => !s.overlaps offset size))
        ((chunk.strips.filter (·.overlaps offset size)).flatMap ChunkStrip.segments) [])
    else none
  | .updateChunkStrip _ index strip =>
    if chunk.state.isLive then
      (chunk.strips[index]?).map fun old =>
        .free (chunk.withStrips (chunk.strips.set index strip)) old.segments strip.segments
    else none

/-- The chunk of a running call. -/
def LifecycleOp.id (op : LifecycleOp Id Seg) : Id := op.call.id

/-- The call has the lock of its chunk. -/
def LifecycleOp.holdsLock (op : LifecycleOp Id Seg) : Bool :=
  match op.pc with
  | .lock => false
  | _ => !op.call.generated

/-! ## The system -/

/-- Store, cache, diskdb and the running calls. -/
structure LifecycleSystem (Id Seg : Type*) where
  store : Id → Option (Chunk Seg) := fun _ => none
  cache : Id → Option (Chunk Seg) := fun _ => none
  ops : RecordStore ℕ (LifecycleOp Id Seg) := .empty
  busy : List Seg := []
  /-- the segments that were freed and not allocated again -/
  freed : List Seg := []
  seen : List Id := []

/-- A call begins, or goes on. -/
inductive LifecycleEvent (Id Seg : Type*) where
  | call (i : ℕ) (call : LifecycleCall Id Seg)
  | op (i : ℕ) (outcome : AccessOutcome Seg)
  | evict (id : Id)
  /-- another client of diskdb allocates segments -/
  | allocate (segments : List Seg)

variable {i : ℕ} {op : LifecycleOp Id Seg}

namespace LifecycleSystem

variable [DecidableEq Id] [DecidableEq Seg] (s : LifecycleSystem Id Seg)
  (next : Option (LifecyclePc Seg))

variable (segments : List Seg)

/-- Diskdb hands out segments that are not allocated. -/
def unallocated : Bool := decide (segments.Nodup ∧ ∀ g ∈ segments, g ∉ s.busy)

/-- diskdb allocates segments. -/
def allocateSegments : LifecycleSystem Id Seg :=
  { s with busy := s.busy ++ segments, freed := s.freed.filter fun g => decide (g ∉ segments) }

/-- diskdb frees segments. -/
def freeSegments : LifecycleSystem Id Seg :=
  { s with busy := s.busy.filter fun g => decide (g ∉ segments), freed := s.freed ++ segments }

/-- Call `i` goes on at `pc`. -/
def goto (i : ℕ) (op : LifecycleOp Id Seg) (pc : LifecyclePc Seg) : LifecycleSystem Id Seg :=
  { s with ops := s.ops.put i { op with pc := pc } }

/-- Call `i` returns. -/
def return_ (i : ℕ) : LifecycleSystem Id Seg := { s with ops := s.ops.delete i }

/-- A record write. -/
def putStore (id : Id) (chunk : Chunk Seg) : LifecycleSystem Id Seg :=
  { s with store := Function.update s.store id (some chunk) }

/-- A cache write. -/
def putCache (id : Id) (chunk : Chunk Seg) : LifecycleSystem Id Seg :=
  { s with cache := Function.update s.cache id (some chunk) }

/-- A call starts.  A generated id was never named before. -/
def startCall (i : ℕ) (call : LifecycleCall Id Seg) : Option (LifecycleSystem Id Seg) :=
  if (s.ops.get i).isSome ∨ (call.generated = true ∧ call.id ∈ s.seen) then none
  else some { s with ops := s.ops.put i ⟨call, call.start⟩, seen := call.id :: s.seen }

/-- One step of a running call. -/
def opStep (owner : Seg → Id) (i : ℕ) (op : LifecycleOp Id Seg) (outcome : AccessOutcome Seg) :
    Option (LifecycleSystem Id Seg) :=
  match op.pc, outcome with
  | .lock, .ok =>
    if ∀ p ∈ s.ops.records, p.2.id = op.id → p.2.holdsLock = false then
      some (s.goto i op op.call.locked) else none
  | .lock, .fail => some (s.return_ i)
  | .readCache, .ok =>
    match s.cache op.id with
    | some chunk => some (s.goto i op (.check chunk))
    | none => some (s.goto i op .readStore)
  | .readStore, .ok =>
    match s.store op.id with
    | some chunk => some (s.goto i op (.fillCache chunk))
    | none => some (s.return_ i)
  | .readStore, .fail => some (s.return_ i)
  | .fillCache chunk, .ok => some ((s.putCache op.id chunk).goto i op (.check chunk))
  | .check chunk, .ok =>
    match op.call.checked chunk with
    | some pc => some (s.goto i op pc)
    | none => some (s.return_ i)
  | .existing, .ok =>
    match s.store op.id, op.call with
    | none, .allocateChunk _ _ stripCount now =>
        some (s.goto i op (.allocate (.fresh now) stripCount []))
    | _, _ => some (s.return_ i)
  | .existing, .fail => some (s.return_ i)
  | .allocate chunk 0 added, .ok => some (s.goto i op (.write chunk [] added))
  | .allocate chunk (left + 1) added, .allocated strip =>
    if s.unallocated strip.segments ∧ ∀ g ∈ strip.segments, owner g = op.id then
      some ((s.allocateSegments strip.segments).goto i op
        (.allocate (chunk.withStrips (chunk.strips ++ [strip])) left (added ++ strip.segments)))
    else none
  | .allocate _ (_ + 1) _, .rolledBack kept returned =>
    if s.unallocated (kept ++ returned) ∧ ∀ g ∈ kept ++ returned, owner g = op.id then
      some (((s.allocateSegments (kept ++ returned)).freeSegments returned).return_ i)
    else none
  | .free chunk segments added, .freed freed =>
    if ∀ g ∈ freed, g ∈ segments ∧ g ∈ s.busy then
      some ((s.freeSegments freed).goto i op (.commitFirst chunk freed added))
    else none
  | .commitFirst chunk freed _, .ok | .commitFirst chunk freed _, .fail =>
    some (s.goto i op (.write chunk freed []))
  | .write chunk _ added, .ok => some ((s.putStore op.id chunk).goto i op (.commit chunk added))
  | .write _ _ _, .fail => some (s.return_ i)
  | .write chunk _ _, .lost => some ((s.putStore op.id chunk).return_ i)
  | .commit chunk _, .ok | .commit chunk _, .fail => some (s.goto i op (.refresh chunk))
  | .refresh chunk, .ok => some ((s.putCache op.id chunk).return_ i)
  | _, _ => none

/-- One step. -/
def step (owner : Seg → Id) (s : LifecycleSystem Id Seg) :
    LifecycleEvent Id Seg → Option (LifecycleSystem Id Seg)
  | .call i call => s.startCall i call
  | .op i outcome => (s.ops.get i).bind fun op => s.opStep owner i op outcome
  | .evict id => some { s with cache := Function.update s.cache id none }
  | .allocate segments => if s.unallocated segments then some (s.allocateSegments segments) else none

/-! ## What an access can do -/

/-- Call `i` goes on, or returns. -/
def move (i : ℕ) (op : LifecycleOp Id Seg) : Option (LifecyclePc Seg) → LifecycleSystem Id Seg
  | some pc => s.goto i op pc
  | none => s.return_ i

section

omit [DecidableEq Id] [DecidableEq Seg]

theorem move_get (j : ℕ) :
    (s.move i op next).ops.get j = if j = i then next.map fun pc =>
    { op with pc := pc } else s.ops.get j := by
  cases next with
  | some => exact RecordStore.get_put j
  | none => exact RecordStore.get_delete j

@[simp] theorem move_store : (s.move i op next).store = s.store := by cases next <;> rfl

@[simp] theorem move_cache : (s.move i op next).cache = s.cache := by cases next <;> rfl

@[simp] theorem move_seen : (s.move i op next).seen = s.seen := by cases next <;> rfl

@[simp] theorem move_busy : (s.move i op next).busy = s.busy := by cases next <;> rfl

@[simp] theorem move_freed : (s.move i op next).freed = s.freed := by cases next <;> rfl

end

end LifecycleSystem

/-- **One access of a call**: what it needs, the state it leaves, and where the call goes on. -/
inductive OpEffect [DecidableEq Id] [DecidableEq Seg] (owner : Seg → Id) (s : LifecycleSystem Id Seg)
    (op : LifecycleOp Id Seg) (outcome : AccessOutcome Seg) :
    LifecycleSystem Id Seg → Option (LifecyclePc Seg) → Prop
  | acquire (hpc : op.pc = .lock) (hfree : ∀ p ∈ s.ops.records, p.2.id = op.id →
      p.2.holdsLock = false) :
    OpEffect owner s op outcome s (some op.call.locked)
  | timeout (hpc : op.pc = .lock) : OpEffect owner s op outcome s none
  | hit {chunk} (hpc : op.pc = .readCache) (hcache : s.cache op.id = some chunk) :
    OpEffect owner s op outcome s (some (.check chunk))
  | miss (hpc : op.pc = .readCache) : OpEffect owner s op outcome s (some .readStore)
  | found {chunk} (hpc : op.pc = .readStore) (hstore : s.store op.id = some chunk) :
    OpEffect owner s op outcome s (some (.fillCache chunk))
  | unread (hpc : op.pc = .readStore ∨ op.pc = .existing) : OpEffect owner s op outcome s none
  | fill {chunk} (hpc : op.pc = .fillCache chunk) :
    OpEffect owner s op outcome (s.putCache op.id chunk) (some (.check chunk))
  | checked {chunk pc} (hpc : op.pc = .check chunk) (hcheck : op.call.checked chunk = some pc) :
    OpEffect owner s op outcome s (some pc)
  | refused {chunk} (hpc : op.pc = .check chunk) : OpEffect owner s op outcome s none
  | create {stripCount now} (hpc : op.pc = .existing) (hnone : s.store op.id = none) :
    OpEffect owner s op outcome s (some (.allocate (.fresh now) stripCount []))
  | built {chunk added} (hpc : op.pc = .allocate chunk 0 added) :
    OpEffect owner s op outcome s (some (.write chunk [] added))
  | allocated {chunk left added strip} (hpc : op.pc = .allocate chunk (left + 1) added)
    (hun : s.unallocated strip.segments = true) (howner : ∀ g ∈ strip.segments, owner g = op.id) :
    OpEffect owner s op outcome (s.allocateSegments strip.segments)
      (some (.allocate (chunk.withStrips (chunk.strips ++ [strip])) left (added ++ strip.segments)))
  | rolledBack {chunk left added kept returned} (hpc : op.pc = .allocate chunk (left + 1) added)
    (hun : s.unallocated (kept ++ returned) = true) :
    OpEffect owner s op outcome ((s.allocateSegments (kept ++ returned)).freeSegments returned) none
  | freed {chunk segments added freed} (hpc : op.pc = .free chunk segments added)
    (hsub : ∀ g ∈ freed, g ∈ segments ∧ g ∈ s.busy) :
    OpEffect owner s op outcome (s.freeSegments freed) (some (.commitFirst chunk freed added))
  | committedFirst {chunk freed added} (hpc : op.pc = .commitFirst chunk freed added) :
    OpEffect owner s op outcome s (some (.write chunk freed []))
  | written {chunk freed added} (hpc : op.pc = .write chunk freed added) :
    OpEffect owner s op outcome (s.putStore op.id chunk) (some (.commit chunk added))
  | unwritten {chunk freed added} (hpc : op.pc = .write chunk freed added) (ho : outcome = .fail) :
    OpEffect owner s op outcome s none
  | lost {chunk freed added} (hpc : op.pc = .write chunk freed added) (ho : outcome = .lost) :
    OpEffect owner s op outcome (s.putStore op.id chunk) none
  | committed {chunk added} (hpc : op.pc = .commit chunk added) :
    OpEffect owner s op outcome s (some (.refresh chunk))
  | refreshed {chunk} (hpc : op.pc = .refresh chunk) :
      OpEffect owner s op outcome (s.putCache op.id chunk) none

theorem LifecycleSystem.opStep_cases [DecidableEq Id] [DecidableEq Seg] {owner : Seg → Id}
    {s s' : LifecycleSystem Id Seg} {outcome : AccessOutcome Seg}
    (hs : s.opStep owner i op outcome = some s') :
    ∃ s₁ next, OpEffect owner s op outcome s₁ next ∧ s₁.ops = s.ops ∧ s₁.seen = s.seen ∧
      s' = s₁.move i op next := by
  unfold LifecycleSystem.opStep at hs
  split at hs
  · split at hs
    · cases hs
      exact ⟨s, _, .acquire ‹_› ‹_›, rfl, rfl, rfl⟩
    · cases hs
  · cases hs
    exact ⟨s, _, .timeout ‹_›, rfl, rfl, rfl⟩
  · split at hs <;> cases hs
    · exact ⟨s, _, .hit ‹_› ‹_›, rfl, rfl, rfl⟩
    · exact ⟨s, _, .miss ‹_›, rfl, rfl, rfl⟩
  · split at hs <;> cases hs
    · exact ⟨s, _, .found ‹_› ‹_›, rfl, rfl, rfl⟩
    · exact ⟨s, _, .unread (.inl ‹_›), rfl, rfl, rfl⟩
  · cases hs
    exact ⟨s, _, .unread (.inl ‹_›), rfl, rfl, rfl⟩
  · cases hs
    exact ⟨_, _, .fill ‹_›, rfl, rfl, rfl⟩
  · split at hs <;> cases hs
    · exact ⟨s, _, .checked ‹_› ‹_›, rfl, rfl, rfl⟩
    · exact ⟨s, _, .refused ‹_›, rfl, rfl, rfl⟩
  · split at hs <;> cases hs
    · exact ⟨s, _, .create ‹_› ‹_›, rfl, rfl, rfl⟩
    · exact ⟨s, _, .unread (.inr ‹_›), rfl, rfl, rfl⟩
  · cases hs
    exact ⟨s, _, .unread (.inr ‹_›), rfl, rfl, rfl⟩
  · cases hs
    exact ⟨s, _, .built ‹_›, rfl, rfl, rfl⟩
  · split at hs
    · rename_i hcond
      cases hs
      exact ⟨_, _, .allocated ‹_› hcond.1 hcond.2, rfl, rfl, rfl⟩
    · cases hs
  · split at hs
    · rename_i hcond
      cases hs
      exact ⟨_, _, .rolledBack ‹_› hcond.1, rfl, rfl, rfl⟩
    · cases hs
  · split at hs
    · cases hs
      exact ⟨_, _, .freed ‹_› ‹_›, rfl, rfl, rfl⟩
    · cases hs
  · cases hs
    exact ⟨s, _, .committedFirst ‹_›, rfl, rfl, rfl⟩
  · cases hs
    exact ⟨s, _, .committedFirst ‹_›, rfl, rfl, rfl⟩
  · cases hs
    exact ⟨_, _, .written ‹_›, rfl, rfl, rfl⟩
  · cases hs
    exact ⟨s, _, .unwritten ‹_› rfl, rfl, rfl, rfl⟩
  · cases hs
    exact ⟨_, _, .lost ‹_› rfl, rfl, rfl, rfl⟩
  · cases hs
    exact ⟨s, _, .committed ‹_›, rfl, rfl, rfl⟩
  · cases hs
    exact ⟨s, _, .committed ‹_›, rfl, rfl, rfl⟩
  · cases hs
    exact ⟨_, _, .refreshed ‹_›, rfl, rfl, rfl⟩
  · cases hs

end CrowDB
