/-
  The writer task of one WAL pipeline (`wal/pipeline_writer.rs`).

  Callers put `Write`, `Seal` and `Flush` commands on an unbounded channel.  The task takes a command,
  with a `Write` also the writes queued behind it, and works it off in steps, each with the outcome
  of its I/O: write the batch and `fdatasync`, rotate a full segment (seal, create), acknowledge.

  A failed write leaves some of its bytes (`kept`), and zeros of a widened write; a failed `fdatasync`
  leaves the file as it is, but not durable.  `synced` is the part of a file a successful sync has
  covered: what a crash leaves behind it is unknown (`Survives`).

  The records of a segment, which of them are durable, and whether its footer is there unsynced are
  history that the code does not store.
-/
import CrowDB.Lib.Runs
import CrowDB.Wal.Scan

namespace CrowDB

open Lib

/-! ## State -/

/-- `PipelineConfig`. -/
structure PipelineConfig where
  alignment : WalBlockAlignment
  recordFormat : WalRecordFormat
  groupId : UInt64
  segmentSize : ℕ
  batchBytes : ℕ

/-- A `Write` on the channel, with the identity of the caller that awaits it. -/
structure QueuedWrite where
  id : ℕ
  record : RawRecord
  req : PendingWrite
deriving DecidableEq

/-- `WriterCommand`. -/
inductive WriterCommand where
  | write (q : QueuedWrite)
  | sealSegment (id : ℕ)
  | flush (id : ℕ)
deriving DecidableEq

/-- What the caller receives; `dropped` when the writer goes away with the request. -/
inductive AckResult where
  | ok (segmentId : UInt64) (fileOffset : ℕ)
  | flushFailed
  | diskFailed
  | dropped
deriving DecidableEq

/-- A file that is closed. -/
structure SealedFile where
  bytes : Bytes
  synced : ℕ
  records : List RawRecord
deriving DecidableEq

/-- The file in use. -/
structure ActiveSegment where
  seg : SegmentWriter
  synced : ℕ
  footerWritten : Bool
  records : List RawRecord
  durable : List RawRecord
deriving DecidableEq

/-- What the writer has still to do for the commands it has taken. -/
inductive WriterTask where
  | create
  | write (batch : List QueuedWrite)
  | rotate (batch : List QueuedWrite) (segmentId : UInt64) (offsets : List ℕ)
  | createRotated (batch : List QueuedWrite) (segmentId : UInt64) (offsets : List ℕ)
  | ack (batch : List QueuedWrite) (segmentId : UInt64) (offsets : List ℕ)
  | sealSegment (id : ℕ)
  | createSealed (id : ℕ)
  | flush (id : ℕ)
  | closeSeal
  | closeFlush
deriving DecidableEq

/-- The writer loop: running, returned, and gone with its end of the channel. -/
inductive WriterPhase where
  | running
  | exiting
  | stopped
deriving DecidableEq

/-- The task, its channel and its files. -/
structure Pipeline where
  queue : List WriterCommand := []
  closed : Bool := false
  todo : List WriterTask := [.create]
  phase : WriterPhase := .running
  sealedFiles : List SealedFile := []
  active : Option ActiveSegment := none
  /-- The file of a segment that could not be created. -/
  torn : Option Bytes := none
  nextSegmentId : UInt64 := 1
  failed : Bool := false
  acks : List (QueuedWrite × AckResult) := []
  controlAcks : List (ℕ × Bool) := []
  /-- Every append that was queued. -/
  sent : List QueuedWrite := []
deriving DecidableEq

/-- The outcome of the I/O of one step; one that an operation does not have counts
    as its other failure. -/
inductive IoOutcome where
  | ok
  | openFailed
  | writeFailed (kept zeros : ℕ)
  | syncFailed
deriving DecidableEq

/-- A command is sent, or the task goes on. -/
inductive PipelineEvent where
  | sendWrite (id : ℕ) (record : RawRecord)
  | sendSeal (id : ℕ)
  | sendFlush (id : ℕ)
  | close
  | recv
  | shutdown
  | io (outcome : IoOutcome)
  | exit
deriving DecidableEq

/-! ## Steps -/

/-- The append of a command. -/
def WriterCommand.toWrite : WriterCommand → Option QueuedWrite
  | write q => some q
  | _ => none

/-- The id of a seal or flush. -/
def WriterCommand.control : WriterCommand → Option ℕ
  | .write _ => none
  | .sealSegment id | .flush id => some id

/-- That of a task. -/
def WriterTask.control : WriterTask → Option ℕ
  | .sealSegment id | .createSealed id | .flush id => some id
  | _ => none

/-- The appends a step still has to answer. -/
def WriterTask.batch : WriterTask → List QueuedWrite
  | .write batch | .rotate batch _ _ | .createRotated batch _ _ | .ack batch _ _ => batch
  | _ => []

/-- The commands queued behind a write: the writes up to the byte limit, and the
    first seal or flush. -/
def drainPendingCommands (batchBytes : ℕ) :
    ℕ → List WriterCommand → List QueuedWrite × List WriterTask × List WriterCommand
  | _, [] => ([], [], [])
  | acc, .write q :: rest =>
    let acc := acc + q.req.encoded.totalLen
    if acc ≥ batchBytes then ([q], [], rest)
    else
      let (batch, tasks, rest) := drainPendingCommands batchBytes acc rest
      (q :: batch, tasks, rest)
  | _, .sealSegment id :: rest => ([], [.sealSegment id], rest)
  | _, .flush id :: rest => ([], [.flush id], rest)

namespace Pipeline

variable (s : Pipeline)

/-- All of `qs` get `result`. -/
def failWrites (qs : List QueuedWrite) (result : AckResult) : Pipeline :=
  { s with acks := s.acks ++ qs.map (·, result) }

/-- `drain_and_fail_all`, and the loop returns. -/
def drainAndFailAll : Pipeline :=
  { s.failWrites (s.queue.filterMap WriterCommand.toWrite) .diskFailed with
    queue := []
    todo := []
    phase := .exiting
    controlAcks := s.controlAcks ++ (s.queue.filterMap WriterCommand.control).map (·, false) ++
      (s.todo.filterMap WriterTask.control).map (·, false) }

/-- The fatal path: the WAL is marked failed, and the batch and everything queued is failed. -/
def failBatch (batch : List QueuedWrite) : Pipeline :=
  ({ s with failed := true }.failWrites batch .flushFailed).drainAndFailAll

/-- The segment `create_segment` opens. -/
def freshSegment (cfg : PipelineConfig) (s : Pipeline) : ActiveSegment :=
  ⟨SegmentWriter.create cfg.alignment cfg.recordFormat s.nextSegmentId cfg.groupId, 0, false, [], []⟩

/-- A new active segment, or the file a failed creation leaves. -/
def createSegment (cfg : PipelineConfig) (s : Pipeline) (o : IoOutcome) : Pipeline × Bool :=
  let next := s.nextSegmentId + 1
  match o with
  | .ok => ({ s with active := some (s.freshSegment cfg), nextSegmentId := next }, true)
  | .writeFailed kept zeros =>
    let header := segHeader cfg.recordFormat s.nextSegmentId cfg.groupId
    ({ s with torn := some (header.take kept ++ List.replicate zeros 0), nextSegmentId := next },
      false)
  | .openFailed | .syncFailed => ({ s with nextSegmentId := next }, false)

end Pipeline

namespace ActiveSegment

variable (C : Crc32c)

/-- The file after a write of `data` at the write offset that failed. -/
def tornWrite (a : ActiveSegment) (data : Bytes) (kept zeros : ℕ) : ActiveSegment :=
  { a with seg := { a.seg with
      file := pwrite a.seg.file a.seg.writeOffset (data.take kept) ++ List.replicate zeros 0 } }

/-- `fdatasync` or `fsync` succeeds. -/
def sync (a : ActiveSegment) : ActiveSegment :=
  { a with synced := a.seg.writeOffset, durable := a.records }

/-- The segment as a file, once its seal is durable. -/
def toSealed (al : WalBlockAlignment) (a : ActiveSegment) : SealedFile :=
  let seg := a.seg.sealSegment C al
  ⟨seg.file, seg.writeOffset, a.records⟩

/-- A seal whose `fdatasync` failed: the offset has moved on, the segment is not sealed. -/
def sealUnsynced (al : WalBlockAlignment) (a : ActiveSegment) : ActiveSegment := { a with
    seg := { a.seg.sealSegment C al with isSealed := a.seg.isSealed }
    footerWritten := true }

end ActiveSegment

namespace Pipeline

variable (C : Crc32c) (cfg : PipelineConfig) (s : Pipeline)

/-- Seal the active segment: the state, and whether it succeeded. -/
def sealActive (a : ActiveSegment) (o : IoOutcome) : Pipeline × Bool :=
  match o with
  | .ok =>
    ({ s with sealedFiles := s.sealedFiles ++ [a.toSealed C cfg.alignment], active := none }, true)
  | .writeFailed kept zeros =>
    ({ s with active := some (a.tornWrite (a.seg.footer C) kept zeros) }, false)
  | .openFailed | .syncFailed => ({ s with active := some (a.sealUnsynced C cfg.alignment) }, false)

/-- `write_batch` on the active segment, and what follows from its outcome. -/
def writeTask (a : ActiveSegment) (batch : List QueuedWrite) (rest : List WriterTask)
    (o : IoOutcome) : Option Pipeline :=
  (a.seg.writeBatch cfg.alignment (batch.map (·.req))).map fun (seg, offsets) =>
    let a' := { a with seg := seg, records := a.records ++ batch.map (·.record) }
    match o with
    | .ok =>
      { s with active := some a'.sync, todo := .rotate batch a.seg.segmentId offsets :: rest }
    | .writeFailed kept zeros =>
      let data := SegmentWriter.batchBytes (batch.map (·.req))
      { s with active := some (a.tornWrite data kept zeros), todo := rest }.failBatch batch
    | .openFailed | .syncFailed => { s with active := some a', todo := rest }.failBatch batch

/-- One step of the work at hand; `rest` is what remains of it. -/
def ioStep (o : IoOutcome) (rest : List WriterTask) : WriterTask → Option Pipeline
  | .create =>
    let (s, ok) := { s with todo := rest }.createSegment cfg o
    if ok then some s else some (s.failBatch [])
  | .write batch => s.active.bind fun a => s.writeTask cfg a batch rest o
  | .rotate batch segmentId offsets => s.active.map fun a =>
    if a.seg.writeOffset < cfg.segmentSize then
      { s with todo := .ack batch segmentId offsets :: rest }
    else
      let (s, ok) := { s with todo := rest }.sealActive C cfg a o
      if ok then { s with todo := .createRotated batch segmentId offsets :: rest }
      else s.failBatch batch
  | .createRotated batch segmentId offsets =>
    let (s, ok) := { s with todo := rest }.createSegment cfg o
    if ok then some { s with todo := .ack batch segmentId offsets :: rest }
    else some (s.failBatch batch)
  | .ack batch segmentId offsets =>
    some { s with
      todo := rest
      acks := s.acks ++ (batch.zip offsets).map fun p => (p.1, .ok segmentId p.2) }
  | .sealSegment id => s.active.map fun a =>
    let (s, ok) := { s with todo := rest }.sealActive C cfg a o
    if ok then { s with todo := .createSealed id :: rest }
    else { s with failed := true, controlAcks := s.controlAcks ++ [(id, false)] }
  | .createSealed id =>
    let (s, ok) := { s with todo := rest }.createSegment cfg o
    if ok then some { s with controlAcks := s.controlAcks ++ [(id, true)] }
    else some { s with failed := true, controlAcks := s.controlAcks ++ [(id, false)] }.drainAndFailAll
  | .flush id => s.active.map fun a =>
    if o = .ok then
      { s with todo := rest, active := some a.sync, controlAcks := s.controlAcks ++ [(id, true)] }
    else { s with todo := rest, failed := true, controlAcks := s.controlAcks ++ [(id, false)] }
  -- shutdown: the channel is closed and empty, the results are ignored
  | .closeSeal => s.active.map fun a => ({ s with todo := [.closeFlush] }.sealActive C cfg a o).1
  | .closeFlush =>
    let s := { s with todo := [], phase := .exiting }
    if o = .ok then some { s with active := s.active.map ActiveSegment.sync } else some s

/-- Take the next command, and with a write the writes queued behind it. -/
def recvCommand : Option Pipeline :=
  match s.queue with
  | [] => none
  | .sealSegment id :: rest => some { s with queue := rest, todo := [.sealSegment id] }
  | .flush id :: rest => some { s with queue := rest, todo := [.flush id] }
  | .write first :: rest =>
    let (batch, tasks, rest) := drainPendingCommands cfg.batchBytes first.req.encoded.totalLen rest
    some { s with queue := rest, todo := .write (first :: batch) :: tasks }

/-- One step. -/
def step (e : PipelineEvent) : Option Pipeline :=
  match e with
  | .sendWrite id record =>
    if s.phase = .stopped ∨ s.closed ∨ ∃ q ∈ s.sent, q.id = id then none
    else (pendingWrite C cfg.recordFormat record).map fun req =>
      let q : QueuedWrite := ⟨id, record, req⟩
      { s with queue := s.queue ++ [.write q], sent := s.sent ++ [q] }
  | .sendSeal id =>
    if s.phase = .stopped ∨ s.closed then none else some
      { s with queue := s.queue ++ [.sealSegment id] }
  | .sendFlush id =>
    if s.phase = .stopped ∨ s.closed then none else some { s with queue := s.queue ++ [.flush id] }
  | .close => some { s with closed := true }
  | .recv => if s.phase = .running ∧ s.todo = [] then s.recvCommand cfg else none
  | .shutdown =>
    if s.phase = .running ∧ s.todo = [] ∧ s.queue = [] ∧ s.closed then
      some { s with todo := [.closeSeal] }
    else none
  | .io o =>
    match s.todo with
    | [] => none
    | task :: rest => if s.phase = .running then s.ioStep C cfg o rest task else none
  | .exit =>
    if s.phase = .exiting then
      some { s.failWrites (s.queue.filterMap WriterCommand.toWrite) .dropped with
        queue := []
        phase := .stopped }
    else none

/-! ## What is left on disk -/

/-- The files of the pipeline in the order of their ids, each with the length a
    successful sync has covered. -/
def disk : List (Bytes × ℕ) := s.sealedFiles.map (fun f => (f.bytes, f.synced)) ++
    (s.active.toList.map (fun a => (a.seg.file, a.synced)) ++ s.torn.toList.map (·, 0))

/-- What a crash may leave of the files: each starts with its synced part. -/
def Survives (image : List Bytes) : Prop :=
  List.Forall₂ (fun f img => f.1.take f.2 <+: img) s.disk image

/-- The appends the writer has not answered yet. -/
def unanswered : List QueuedWrite :=
  s.todo.flatMap WriterTask.batch ++ s.queue.filterMap WriterCommand.toWrite

end Pipeline

end CrowDB
