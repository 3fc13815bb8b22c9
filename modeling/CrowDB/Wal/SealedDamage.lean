/-
  Damage in sealed segments at replay (`replay_group` of `wal/replay.rs`).

  The documentation says that corruption in a sealed segment aborts the replay.  The code asks for
  more: the file must open, its footer must read, another segment must follow it, and the reader must
  not take the damaged record for the end of the segment.
-/
import CrowDB.Wal.DecodeTotal
import CrowDB.Wal.SealDetection

namespace CrowDB

open Lib List

/-! ## The checks of a record -/

section

variable (C : Crc32c) {tail : Bytes}

/-- The frame and CRC checks of the bytes that should hold a record. -/
def checkRecord (tail : Bytes) : Except RecordError (Option (RawRecord × ℕ)) :=
  if textMark.isPrefixOf tail then nextTextRecord C tail
  else if tail.length < minRecordSize ∨ tail.length < 4 + readLe 4 tail 0 then .error .truncated
  else (RawRecord.decode C (tail.take (4 + readLe 4 tail 0))).map some

end

/-! ## Segments as replay finds them -/

/-- What the writer put into the file, whether it sealed it, and what it holds now; a record of a
    sealed segment is as written, or damaged so that its checks fail. -/
structure FoundSegment (C : Crc32c) where
  segmentId : UInt64
  groupId : UInt64
  fmt : WalRecordFormat
  records : List RawRecord
  isSealed : Bool
  file : Bytes
  encodable : ∀ r ∈ records, Encodable C fmt r
  intact_or_damaged : isSealed = true →
    ∀ p ∈ layout C fmt (segHeader fmt segmentId groupId).length records,
      (recordBytes C fmt p.1).isPrefixOf (file.drop p.2) = true ∨
        (checkRecord C (file.drop p.2)).isOk = false

variable {C : Crc32c}

namespace FoundSegment

variable (s : FoundSegment C)

/-- The records with the offsets they were written at. -/
def places : List (RawRecord × ℕ) :=
  layout C s.fmt (segHeader s.fmt s.segmentId s.groupId).length s.records

/-- The bytes of a record are as they were written. -/
def intact (p : RawRecord × ℕ) : Bool := (recordBytes C s.fmt p.1).isPrefixOf (s.file.drop p.2)

/-- The first record that is not as it was written. -/
def firstLoss : Option (RawRecord × ℕ) := s.places.find? (fun p => !s.intact p)

/-- The header is as written, and no record looks like a footer. -/
structure AsWritten (s : FoundSegment C) : Prop where
  header : segHeader s.fmt s.segmentId s.groupId <+: s.file
  footerFree : ∀ r ∈ s.records, FooterFree s.fmt r

end FoundSegment

/-- Nothing but lost records disturbs the replay: the sealed segments are otherwise as written, and
    the reader meets no damage in a segment that has lost no sealed record. -/
structure Undisturbed {C : Crc32c} (segs : List (FoundSegment C)) : Prop where
  asWritten : ∀ s ∈ segs, s.isSealed = true → s.AsWritten
  clean : ∀ s ∈ segs, (s.isSealed = true → s.firstLoss = none) →
    ∀ hdr records e off, readSegment C s.file ≠ .ok (hdr, records, .damaged e off)

/-! ## Reading up to a loss -/

variable {rs : List RawRecord} {p : RawRecord × ℕ}

section

variable {fmt : WalRecordFormat} {off : ℕ}

end

namespace FoundSegment

variable {s : FoundSegment C}

end FoundSegment

/-! ## The scan -/

section

variable {segs : List (FoundSegment C)}

end

open RawRecord (promise)

variable (segmentId : UInt64)

end CrowDB
