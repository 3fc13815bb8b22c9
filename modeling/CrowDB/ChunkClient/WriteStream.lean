/-
  Writing a byte stream to chunks (`writer/large_async_object.rs`, `writer/fetch.rs`,
  `chunk/chunk_writer.rs`, `chunk/ec_strip_writer.rs`, `worker/ec_worker.rs`).

  The fetch stage cuts what the reader delivers into blocks; the drive loop pushes them into the
  strips of a chunk and goes on to the next strip or chunk when they are full.  The stages are
  composed as functions; what is left open is how far the strip prefetch is ahead of the writer
  (`ahead`).

  All allocations, disk writes and fsyncs succeed.  The writer can fail for want of a parity, panic
  on a division by zero or an overflow, or wait for a strip that the prefetch does not append.
-/
import CrowDB.Common.ErasureCode

namespace CrowDB

/-! ## Configuration -/

/-- The settings of the client, with their defaults. -/
structure ChunkClientConfig where
  readBufferSize : ℕ := 0x100000
  maxCachedBuffer : ℕ := 0x400000
  maxChunkSize : ℕ := 0x40000000
  preallocDepth : ℕ := 2
  parityDepth : ℕ := 2
  prefetchChunkCount : ℕ := 1
deriving DecidableEq

/-- The errors of a write, and the ways in which it does not return. -/
inductive WriteError where
  | ecEncodeFailed (e : Ec.EcError)
  | internal (text : String)
  /-- a division by zero, or an overflow of the strip cursor -/
  | panicked
  /-- the writer waits for a strip that the prefetch will not append -/
  | hangs
deriving DecidableEq

namespace ChunkClientConfig

variable (config : ChunkClientConfig)

/-- The checks of a configuration. -/
def validate : Except WriteError Unit :=
  if config.readBufferSize = 0 then .error (.internal "read_buffer_size must be > 0")
  else if config.maxCachedBuffer < config.readBufferSize then
    .error (.internal "max_cached_buffer must be >= read_buffer_size")
  else if config.maxChunkSize = 0 then .error (.internal "max_chunk_size must be > 0")
  else if config.preallocDepth = 0 then .error (.internal "prealloc_depth must be > 0")
  else if config.parityDepth = 0 then .error (.internal "parity_depth must be > 0")
  else if config.prefetchChunkCount = 0 then .error (.internal "prefetch_chunk_count must be > 0")
  else .ok ()

example : ({} : ChunkClientConfig).validate = .ok () := rfl

/-- The block size in units of 1024 bytes, cast to 32 bits, and back to bytes. -/
def unitBytes : ℕ := config.readBufferSize / 1024 % 0x100000000 * 1024

/-- The data bytes of a strip, by the block size of 32 bits. -/
def stripDataBytes (scheme : EcScheme) : ℕ := scheme.dataNum * config.unitBytes

/-- The bytes of a data segment, up to where the next may begin: at a multiple of 1 MB (`unit_kb`).
    Chunkdb allocates the segments of the first strip for the block size, in units of `unitSizeKb`
    kilobytes, and those of appended strips with `data_num` units. -/
def segmentBytes (scheme : EcScheme) (unitSizeKb strip : ℕ) : ℕ :=
  let writeGranularityKb := config.readBufferSize / 1024 % 0x100000000
  let firstUnits := if unitSizeKb = 0 then writeGranularityKb else writeGranularityKb / unitSizeKb
  0x100000 * if strip = 0 then max 1 firstUnits else scheme.dataNum % 0x100000000

end ChunkClientConfig

variable {α : Type*}

/-! ## The fetch stage -/

/-- What a read gives; no bytes are the end of the stream. -/
inductive ReadResult (α : Type*) where
  | ok (bytes : List α)
  | err
deriving DecidableEq

/-- Cut full blocks off the front of the buffer. -/
def splitBlocks (blockSize : ℕ) (buf : List α) : List (List α) × List α :=
  if 0 < blockSize ∧ blockSize ≤ buf.length then
    let rest := splitBlocks blockSize (buf.drop blockSize)
    (buf.take blockSize :: rest.1, rest.2)
  else ([], buf)
termination_by buf.length
decreasing_by
  rw [List.length_drop]
  omega

/-- The blocks that `run_fetch_stage` sends.  It ends in the same way after the last byte and after
    a read error. -/
def runFetchStage (blockSize : ℕ) : List α → List (ReadResult α) → List (List α)
  | buf, [] | buf, .ok [] :: _ | buf, .err :: _ => if buf.isEmpty then [] else [buf]
  | buf, .ok (b :: bytes) :: reads =>
    let split := splitBlocks blockSize (buf ++ b :: bytes)
    split.1 ++ runFetchStage blockSize split.2 reads

/-- The bytes that the reader delivers, up to the end or an error. -/
def delivered : List (ReadResult α) → List α
  | [] | .ok [] :: _ | .err :: _ => []
  | .ok (b :: bytes) :: reads => b :: bytes ++ delivered reads

/-- The reader reports an error. -/
def readFails : List (ReadResult α) → Bool
  | [] | .ok [] :: _ => false
  | .err :: _ => true
  | .ok (_ :: _) :: reads => readFails reads

/-! ## Strips -/

/-- `encode_parity_from_shards`: whether the parity can be computed. -/
def encodeParityFromShards (scheme : EcScheme) (shards : List (List α)) : Except Ec.EcError Unit :=
  if scheme.dataNum = 0 ∨ scheme.codeNum = 0 then
    .error (.invalidScheme scheme.dataNum scheme.codeNum)
  else match shards with
  | [] => .error (.backend "no data shards provided")
  | shard :: rest =>
    if scheme.dataNum < (shard :: rest).length then
      .error (.backend s!"too many shards: {(shard :: rest).length} > data_num {scheme.dataNum}")
    else if rest.any fun s => decide (s.length ≠ shard.length) then
      .error (.backend "data shards must all be the same length")
    else .ok ()

/-- A block that is written to a data segment; it covers the segment from its start on. -/
structure DataWrite (α : Type*) where
  chunkId : ℕ
  strip : ℕ
  segment : ℕ
  data : List α
deriving DecidableEq

/-- The strip prefetch task of a chunk: the strip that it appends next, and how many more the object
    needs. -/
structure StripPrefetch where
  next : ℕ
  remaining : Option ℕ
deriving DecidableEq

/-- What the prefetch task does next. -/
inductive PrefetchStep where
  | stop
  | wait
  | append
deriving DecidableEq

namespace StripPrefetch

variable (config : ChunkClientConfig) (scheme : EcScheme)

/-- What the loop does next when the writer is at strip `written`. -/
def decide (p : StripPrefetch) (written : ℕ) : PrefetchStep :=
  if p.remaining = some 0 then .stop
  else if config.maxChunkSize / config.stripDataBytes scheme % 0x100000000 ≤ p.next then .stop
  else if config.preallocDepth % 0x100000000 ≤ p.next - written then .wait
  else .append

/-- A strip is appended. -/
def append (p : StripPrefetch) : StripPrefetch := ⟨p.next + 1, p.remaining.map (· - 1)⟩

/-- Up to `k` strips appended while the writer is at strip `written`. -/
def ahead (written : ℕ) : ℕ → StripPrefetch → StripPrefetch
  | 0, p => p
  | k + 1, p =>
    match p.decide config scheme written with
    | .append => ahead written k p.append
    | _ => p

end StripPrefetch

/-! ## The chunk writer -/

/-- The open chunk: the strip that is written, the blocks of that strip, the strips that the chunk
    has, and the bytes of the finished ones. -/
structure ChunkWriter (α : Type*) where
  chunkId : ℕ
  writeCursor : ℕ
  strips : ℕ
  bytesInChunk : ℕ
  currentStrip : Option (List (List α))
  prefetch : StripPrefetch
deriving DecidableEq

/-- Whether the writer takes more. -/
inductive FeedStatus where
  | continue_
  | pause
deriving DecidableEq

namespace ChunkWriter

variable (config : ChunkClientConfig) (scheme : EcScheme)

/-- The strips that an object of known size needs behind the first one. -/
def stripsRemaining (objectSize : Option ℕ) : Option ℕ :=
  objectSize.map fun total =>
    (total + config.stripDataBytes scheme - 1) / config.stripDataBytes scheme - 1

/-- Open a chunk that has one strip, and start the prefetch. -/
def open_ (objectSize : Option ℕ) (chunkId : ℕ) : Except WriteError (ChunkWriter α) :=
  if config.stripDataBytes scheme = 0 then .error .panicked
  else .ok {
    chunkId
    writeCursor := 0
    strips := 1
    bytesInChunk := 0
    currentStrip := some []
    prefetch := ⟨1, stripsRemaining config scheme objectSize⟩ }

/-- Compute the parity of the open strip, and count its bytes. -/
def finishStrip (cw : ChunkWriter α) : Except WriteError (ChunkWriter α) :=
  match cw.currentStrip with
  | none => .error (.internal "finish_strip with no open strip")
  | some shards =>
    match encodeParityFromShards scheme shards with
    | .error e => .error (.ecEncodeFailed e)
    | .ok () => .ok { cw with currentStrip := none, bytesInChunk := cw.bytesInChunk +
        shards.flatten.length }

/-- The next strip: appended already, delivered by the prefetch, or appended now. -/
def openNextStrip (ahead : ℕ) (cw : ChunkWriter α) : Except WriteError (ChunkWriter α) :=
  let prefetch := cw.prefetch.ahead config scheme cw.writeCursor ahead
  let strips := max cw.strips prefetch.next
  let next := { cw with writeCursor := cw.writeCursor + 1, currentStrip := some [], strips, prefetch }
  -- the cursor has 32 bits
  if 0xFFFFFFFF ≤ cw.writeCursor then .error .panicked
  else if cw.writeCursor + 1 < strips then .ok next
  else match prefetch.decide config scheme cw.writeCursor with
  | .append => .ok { next with strips := prefetch.append.next, prefetch := prefetch.append }
  | .stop => .ok { next with strips := strips + 1 }
  | .wait => .error .hangs

/-- Write a block to the next segment of the open strip. -/
def pushStrip (disk : List (DataWrite α)) (block : List α) (cw : ChunkWriter α) :
    Except WriteError (ChunkWriter α × List (DataWrite α)) :=
  match cw.currentStrip with
  | none => .error (.internal "push: strip vanished after rotate")
  | some shards =>
    if scheme.dataNum ≤ shards.length then .error
      (.internal "push called on full strip — call finish first")
    else .ok ({ cw with currentStrip := some (shards ++ [block]) },
      disk ++ [⟨cw.chunkId, cw.writeCursor, shards.length, block⟩])

/-- `ChunkWriter::push`: with `pause` the block is not written. -/
def push (ahead : ℕ) (disk : List (DataWrite α)) (block : List α) (cw : ChunkWriter α) :
    Except WriteError (FeedStatus × ChunkWriter α × List (DataWrite α)) :=
  match cw.currentStrip with
  | none => .error (.internal "push with no open strip")
  | some shards =>
    if scheme.dataNum ≤ shards.length then do
      let cw ← cw.finishStrip scheme
      if config.maxChunkSize ≤ cw.bytesInChunk then .ok (.pause, cw, disk)
      else do
        let cw ← cw.openNextStrip config scheme ahead
        let (cw, disk) ← cw.pushStrip scheme disk block
        .ok (.continue_, cw, disk)
    else do
      let (cw, disk) ← cw.pushStrip scheme disk block
      .ok (.continue_, cw, disk)

/-- Finish the open strip, if it has blocks. -/
def sealStrip (cw : ChunkWriter α) : Except WriteError (ChunkWriter α) :=
  match cw.currentStrip with
  | some (_ :: _) => cw.finishStrip scheme
  | _ => .ok cw

end ChunkWriter

/-! ## The stream writer -/

/-- Where a part of the object is. -/
structure Location where
  chunkId : ℕ
  offset : ℕ
  length : ℕ
  logicalOffset : ℕ
  logicalLength : ℕ
deriving DecidableEq

/-- The writer of an object, with what it has written to disk and the chunks that it has sealed. -/
structure StreamWriter (α : Type*) where
  nextId : ℕ := 0
  chunkWriter : Option (ChunkWriter α) := none
  locations : List Location := []
  logicalOffset : ℕ := 0
  disk : List (DataWrite α) := []
  sealed : List (ℕ × ℕ) := []
deriving DecidableEq

namespace StreamWriter

variable (config : ChunkClientConfig) (scheme : EcScheme) (objectSize : Option ℕ) (w : StreamWriter α)

/-- Open a chunk, if none is open. -/
def ensureOpen : Except WriteError (StreamWriter α) :=
  match w.chunkWriter with
  | some _ => .ok w
  | none => do
    let cw ← ChunkWriter.open_ config scheme objectSize w.nextId
    .ok { w with nextId := w.nextId + 1, chunkWriter := some cw }

/-- `seal_current`: an empty chunk is deleted, and gives no location. -/
def sealCurrent : Except WriteError (StreamWriter α) :=
  match w.chunkWriter with
  | none => .ok w
  | some cw => do
    let cw ← cw.sealStrip scheme
    if cw.bytesInChunk = 0 then .ok { w with chunkWriter := none }
    else .ok { w with
      chunkWriter := none
      locations := w.locations ++ [⟨cw.chunkId, 0, cw.bytesInChunk, w.logicalOffset, cw.bytesInChunk⟩]
      logicalOffset := w.logicalOffset + cw.bytesInChunk
      sealed := w.sealed ++ [(cw.chunkId, cw.bytesInChunk / config.unitBytes % 0x100000000)] }

/-- Seal the chunk, and open the next one. -/
def rotateChunk : Except WriteError (StreamWriter α) := do
  let w ← w.sealCurrent config scheme
  w.ensureOpen config scheme objectSize

variable (ahead : ℕ → ℕ)

/-- `push` into the open chunk. -/
def tryPush (block : List α) (w : StreamWriter α) : Except WriteError (FeedStatus × StreamWriter α) :=
  match w.chunkWriter with
  | none => .error (.internal "no chunk writer")
  | some cw => do
    let (status, cw, disk) ← cw.push config scheme (ahead w.disk.length) w.disk block
    .ok (status, { w with chunkWriter := some cw, disk })

/-- The drive loop for one block: when the chunk is full, the next chunk gets it. -/
def pushBlock (w : StreamWriter α) (block : List α) : Except WriteError (StreamWriter α) := do
  let w ← w.ensureOpen config scheme objectSize
  let (status, w) ← w.tryPush config scheme ahead block
  match status with
  | .continue_ => .ok w
  | .pause => do
    let w ← w.rotateChunk config scheme objectSize
    let (status, w) ← w.tryPush config scheme ahead block
    match status with
    | .continue_ => .ok w
    -- a fresh strip is never full
    | .pause => .error .hangs

/-- The drive loop: all blocks, the end of the stream, and the seal of the last chunk. -/
def drive (blocks : List (List α)) : Except WriteError (StreamWriter α) := do
  let w ← blocks.foldlM (pushBlock config scheme objectSize ahead) {}
  let w ← w.ensureOpen config scheme objectSize
  w.sealCurrent config scheme

/-- **`write_stream`**; the locations of the result are what it returns. -/
def writeStream (reads : List (ReadResult α)) : Except WriteError (StreamWriter α) :=
  if objectSize = some 0 then .ok {}
  else drive config scheme objectSize ahead (runFetchStage config.readBufferSize [] reads)

end StreamWriter

end CrowDB
