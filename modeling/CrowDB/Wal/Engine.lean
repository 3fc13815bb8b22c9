/-
  The segmented WAL of one group (`wal/wal_engine.rs`, `wal/pipeline_writer.rs`, `wal/segment.rs`,
  `wal/index.rs`), its garbage collection (`wal/gc.rs`) and its replay (`wal/replay.rs`).

  Every pipeline (one per WAL disk) appends to its own active segment.  A full or sealed segment is
  registered in the segment index with the highest slot written to it, and a new one takes its place.
  A GC pass looks only at the index: it unlinks the registered segments whose highest slot is positive
  and below the GC slot.  Replay reads the segment files in the order of their ids.

  The model keeps the unlinked segments, marked as such, to compare the files on disk (`onDisk`) with
  the history (`segments`).
-/
import Mathlib.Algebra.Ring.Nat
import Mathlib.Data.List.Sort
import CrowDB.Lib.Runs
import CrowDB.Wal.Record

namespace CrowDB

/-! ## Segments -/

/-- A segment file: id, records in order, and the highest slot written (`0` if none). -/
structure WalSegment where
  segmentId : ℕ
  records : List WALRecord
  maxSlot : ℕ
  unlinked : Bool
  slot_le : ∀ r ∈ records, r.slot ≤ maxSlot

namespace WalSegment

/-- An empty segment. -/
def create (segmentId : ℕ) : WalSegment := ⟨segmentId, [], 0, false, by simp⟩

/-- A record is written at the end, and the highest slot updated. -/
def append (seg : WalSegment) (r : WALRecord) : WalSegment where
  segmentId := seg.segmentId
  records := seg.records ++ [r]
  maxSlot := if r.slot ≠ 0 ∧ seg.maxSlot < r.slot then r.slot else seg.maxSlot
  unlinked := seg.unlinked
  slot_le := by
    intro r' hr'
    rcases List.mem_append.mp hr' with hr' | hr'
    · have := seg.slot_le r' hr'
      split <;> omega
    · obtain rfl : r' = r := List.mem_singleton.mp hr'
      split <;> omega

/-- The file is removed. -/
def unlink (seg : WalSegment) : WalSegment := { seg with unlinked := true }

end WalSegment

/-- What the segment index knows about a sealed segment. -/
structure SegmentMeta where
  segmentId : ℕ
  maxSlot : ℕ
deriving DecidableEq

/-! ## Replay -/

/-- `ReplayResult`. -/
structure ReplayResult where
  records : List WALRecord
  maxSegmentId : ℕ
  currentTerm : ℕ
  votedFor : Option ℕ

/-- The segments in the order in which replay reads them. -/
def sortById (segs : List WalSegment) : List WalSegment :=
  segs.insertionSort fun a b => a.segmentId ≤ b.segmentId

/-- A vote in `term`. -/
def WALRecord.isVoteIn (term : ℕ) (r : WALRecord) : Bool :=
  r.votedForId.isSome && r.term == term

/-- `current_term`: the highest term of all records, `0` if there is none. -/
def maxTerm (records : List WALRecord) : ℕ := (records.map WALRecord.term).max?.getD 0

/-- `voted_for`: the vote of the latest `VoteGranted` record of the term. -/
def latestVote (term : ℕ) (records : List WALRecord) : Option ℕ :=
  (records.reverse.find? (WALRecord.isVoteIn term)).bind WALRecord.votedForId

/-- `replay_group` on the segment files found on the WAL disks. -/
def replayGroup (segs : List WalSegment) : ReplayResult :=
  let records := (sortById segs).flatMap WalSegment.records
  let currentTerm := maxTerm records
  { records, currentTerm, votedFor := latestVote currentTerm records,
    maxSegmentId := (segs.map WalSegment.segmentId).max?.getD 0 }

/-! ## The engine -/

/-- The WAL engine of a group over `pipelineCount` WAL disks. -/
structure WalEngine where
  groupId : ℕ
  pipelineCount : ℕ
  /-- every segment ever created, in the order of creation -/
  segments : List WalSegment
  /-- the id of a pipeline's active segment -/
  active : ℕ → ℕ
  /-- the sealed segments registered since this engine was created -/
  index : List SegmentMeta
  nextSegmentId : ℕ
  /-- the largest GC slot used so far -/
  largestGcSlot : ℕ

namespace WalEngine

variable (w : WalEngine)

/-- The segments that are left. -/
def onDisk : List WalSegment := w.segments.filter fun seg => !seg.unlinked

/-- The initial segments of the pipelines, with consecutive ids. -/
def openSegments (count start : ℕ) : List WalSegment :=
  (List.range count).map fun p => WalSegment.create (start + p)

/-- `create_with_next_segment_id`: the index is empty and every pipeline opens a
    new segment. -/
def create (groupId count start : ℕ) (old : List WalSegment) (gcSlot : ℕ) : WalEngine where
  groupId := groupId
  pipelineCount := count
  segments := old ++ openSegments count start
  active p := start + p
  index := []
  nextSegmentId := start + count
  largestGcSlot := gcSlot

/-- A new log. -/
def new (groupId count : ℕ) : WalEngine := create groupId count 1 [] 0

/-- The pipeline of a record, by slot affinity. -/
def selectPipeline (r : WALRecord) : ℕ :=
  if w.pipelineCount ≤ 1 then 0
  else ((r.slot * 0x9E3779B97F4A7C15 % 2 ^ 64) ^^^ w.groupId) % w.pipelineCount

/-- The record is written to the active segment of its pipeline. -/
def append (r : WALRecord) : WalEngine :=
  { w with segments := w.segments.map fun seg =>
      if seg.segmentId = w.active (w.selectPipeline r) then seg.append r else seg }

/-- The metadata under which `register_sealed` registers a segment. -/
def sealedMeta (id : ℕ) : List SegmentMeta :=
  (w.segments.filter fun seg => seg.segmentId = id).map fun seg => ⟨seg.segmentId, seg.maxSlot⟩

/-- The active segment of a pipeline is sealed and registered, and the next one
    opened. -/
def rotate (p : ℕ) : WalEngine :=
  { w with
    segments := w.segments ++ [WalSegment.create w.nextSegmentId]
    active := Function.update w.active p w.nextSegmentId
    index := w.index ++ w.sealedMeta (w.active p)
    nextSegmentId := w.nextSegmentId + 1 }

/-- The registered segments a GC pass may unlink. -/
def eligible (gcSlot : ℕ) : List SegmentMeta :=
  w.index.filter fun m => decide (0 < m.maxSlot ∧ m.maxSlot < gcSlot)

/-- The ids of the segments that a GC pass unlinks: the eligible ones, less those
    whose unlink failed. -/
def unlinkedBy (gcSlot : ℕ) (failed : List ℕ) : List ℕ :=
  if gcSlot = 0 then []
  else ((w.eligible gcSlot).map SegmentMeta.segmentId).filter fun id => decide (id ∉ failed)

/-- `run_gc_with_watermark`. -/
def runGc (gcSlot : ℕ) (failed : List ℕ) : WalEngine :=
  { w with
    segments := w.segments.map fun seg =>
      if seg.segmentId ∈ w.unlinkedBy gcSlot failed then seg.unlink else seg
    index := w.index.filter fun m => decide (m.segmentId ∉ w.unlinkedBy gcSlot failed)
    largestGcSlot := max w.largestGcSlot gcSlot }

/-- The process restarts: the disks are replayed, and a new engine continues after
    the highest segment id found. -/
def restart : WalEngine :=
  create w.groupId w.pipelineCount (max ((replayGroup w.onDisk).maxSegmentId + 1) 1) w.segments
    w.largestGcSlot

end WalEngine

/-- An append, a rotation or a GC pass. -/
inductive WalEvent where
  | append (r : WALRecord)
  /-- a pipeline's segment is full, or sealed by command -/
  | rotate (p : ℕ)
  /-- a GC pass; the unlink of the listed segments fails -/
  | gc (gcSlot : ℕ) (failed : List ℕ)
  | restart

/-- One step. -/
def walStep (w : WalEngine) : WalEvent → Option WalEngine
  | .append r => some (w.append r)
  | .rotate p => if p < w.pipelineCount then some (w.rotate p) else none
  | .gc gcSlot failed => some (w.runGc gcSlot failed)
  | .restart => some w.restart

end CrowDB
