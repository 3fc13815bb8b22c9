/-
  WAL segment files: the writer, its batches and seal (`wal/segment.rs`;
  `write_batch` of `wal/pipeline_writer.rs`).

  The writer keeps its offset and writes header, records and footer one behind
  the other, padded to the alignment of the backend.
-/
import CrowDB.Wal.Codec
import CrowDB.Wal.Device

namespace CrowDB

open Lib List Option

/-! ## Encoded records -/

/-- Encoding of the records of a segment; `Auto` is treated as `Binary`. -/
inductive WalRecordFormat where
  | auto
  | binary
  | textLine
deriving DecidableEq

/-- `EncodedRecord`. -/
inductive EncodedRecord where
  | binary (frame : RecordFrame)
  | textLine (line : Bytes)
deriving DecidableEq

namespace EncodedRecord

/-- `total_len`. -/
def totalLen : EncodedRecord → ℕ
  | binary frame => frame.totalLen
  | textLine line => line.length

/-- `io_slices`. -/
def ioSlices : EncodedRecord → List Bytes
  | binary frame => frame.ioSlices
  | textLine line => [line]

end EncodedRecord

/-- The encoding of a record; `none` is the panic on an over-long frame. -/
def encodeRecord (C : Crc32c) (fmt : WalRecordFormat) (r : RawRecord) : Option EncodedRecord :=
  match fmt with
  | .auto | .binary => (r.encodeFrame C).map .binary
  | .textLine => some (.textLine (r.encodeTextLine C))

/-- The bytes of a record. -/
def recordBytes (C : Crc32c) (fmt : WalRecordFormat) (r : RawRecord) : Bytes :=
  match encodeRecord C fmt r with
  | some e => e.ioSlices.flatten
  | none => []

/-- A pending write request: the encoded record and its slot. -/
structure PendingWrite where
  encoded : EncodedRecord
  slot : UInt64
deriving DecidableEq

/-- A record to be written. -/
def pendingWrite (C : Crc32c) (fmt : WalRecordFormat) (r : RawRecord) : Option PendingWrite :=
  (encodeRecord C fmt r).map fun e => ⟨e, r.slot⟩

/-! ## Header and footer -/

def segMagic : ℕ := 0x5345474D
def segVersion : ℕ := 1
def segHeaderLen : ℕ := 22
def footerMagic : ℕ := 0x464F4F54
def footerLen : ℕ := 28

/-- First word of a text header. -/
def segTextMark : Bytes := ascii "CROWDB_WAL_SEG"

/-- First word of a text footer. -/
def footerTextMark : Bytes := ascii "CROWDB_WAL_FOOTER"

/-- `encode_seg_header`. -/
def encodeSegHeader (segmentId groupId : UInt64) : Bytes :=
  leBytes 4 segMagic ++ (leBytes 2 segVersion ++
    (leBytes 8 segmentId.toNat ++ leBytes 8 groupId.toNat))

/-- The text header. -/
def textSegHeader (segmentId groupId : UInt64) : Bytes :=
  [space].intercalate [segTextMark, keyed (ascii "v") (decimal segVersion),
    keyed (ascii "segment_id") (decimal segmentId.toNat),
    keyed (ascii "group_id") (decimal groupId.toNat)]

/-- The header in either format. -/
def segHeader (fmt : WalRecordFormat) (segmentId groupId : UInt64) : Bytes :=
  match fmt with
  | .textLine => textSegHeader segmentId groupId ++ [newline]
  | .auto | .binary => encodeSegHeader segmentId groupId

/-- What the checksum covers. -/
def footerFields (minSlot maxSlot : UInt64) (recordCount : UInt32) : Bytes :=
  leBytes 4 footerMagic ++ (leBytes 8 minSlot.toNat ++
    (leBytes 8 maxSlot.toNat ++ leBytes 4 recordCount.toNat))

/-- `encode_footer`. -/
def encodeFooter (C : Crc32c) (minSlot maxSlot : UInt64) (recordCount : UInt32) : Bytes :=
  let fields := footerFields minSlot maxSlot recordCount
  fields ++ leBytes 4 (C.crc32c fields).toNat

/-- `encode_text_footer`. -/
def encodeTextFooter (C : Crc32c) (minSlot maxSlot : UInt64) (recordCount : UInt32) : Bytes :=
  sealLine C ([space].intercalate [footerTextMark, keyed (ascii "min_slot") (decimal minSlot.toNat),
    keyed (ascii "max_slot") (decimal maxSlot.toNat),
    keyed (ascii "record_count") (decimal recordCount.toNat)])

/-! ## The writer -/

/-- Write-side handle to one segment file (`WalSegment`), with the file's bytes. -/
structure SegmentWriter where
  file : Bytes
  segmentId : UInt64
  groupId : UInt64
  writeOffset : ℕ
  minSlot : UInt64
  maxSlot : UInt64
  recordCount : UInt32
  isSealed : Bool
  recordFormat : WalRecordFormat
deriving DecidableEq

namespace SegmentWriter

variable (C : Crc32c) (al : WalBlockAlignment) (w : SegmentWriter) {r : RawRecord}

/-- `create`. -/
def create (fmt : WalRecordFormat) (segmentId groupId : UInt64) : SegmentWriter :=
  let header := segHeader fmt segmentId groupId
  { file := al.writeBytes [] header 0
    segmentId := segmentId
    groupId := groupId
    writeOffset := header.length
    minSlot := UInt64.ofNat (2 ^ 64 - 1)
    maxSlot := 0
    recordCount := 0
    isSealed := false
    recordFormat := fmt }

/-- The slot range and the record count after a record of this slot. -/
def note (slot : UInt64) : SegmentWriter :=
  let w := if slot ≠ 0 then
      { w with
        minSlot := if slot < w.minSlot then slot else w.minSlot
        maxSlot := if slot > w.maxSlot then slot else w.maxSlot }
    else w
  { w with recordCount := w.recordCount + 1 }

/-- Append one record; returns its file offset.  `none` is a panic: a sealed
    segment, or a frame that is too long. -/
def append (r : RawRecord) : Option (SegmentWriter × ℕ) :=
  if w.isSealed then none
  else (encodeRecord C w.recordFormat r).map fun e =>
    let encoded := e.ioSlices.flatten
    let w' := { w with
      file := al.writeBytes w.file encoded w.writeOffset
      writeOffset := w.writeOffset + encoded.length }
    (w'.note r.slot, w.writeOffset)

/-- `write_raw_vectored`. -/
def writeRawVectored (bufs : List Bytes) : SegmentWriter :=
  let totalLen := (bufs.map List.length).sum
  if totalLen = 0 then w
  else { w with
    file := al.writeVectoredAt w.file bufs w.writeOffset
    writeOffset := w.writeOffset + totalLen }

/-- The number of buffers of one `writev`. -/
def maxIov : ℕ := 1024

/-- The slices of a batch, `maxIov` at a time; `n` bounds the number of rounds. -/
def writeChunks : ℕ → SegmentWriter → List Bytes → SegmentWriter
  | 0, w, _ => w
  | n + 1, w, slices =>
    if slices = [] then w
    else
      let chunk := slices.take maxIov
      let w := if (chunk.map List.length).sum > 0 then w.writeRawVectored al chunk else w
      writeChunks n w (slices.drop maxIov)

/-- The file offsets of the records of a batch that starts at `base`. -/
def batchOffsets : ℕ → List PendingWrite → List ℕ
  | _, [] => []
  | base, req :: batch => base :: batchOffsets (base + req.encoded.totalLen) batch

/-- Write a batch; returns the file offset of each record.  `none` is the panic
    on a sealed segment. -/
def writeBatch (batch : List PendingWrite) : Option (SegmentWriter × List ℕ) :=
  if batch = [] then some (w, [])
  else if w.isSealed then none
  else
    let offsets := batchOffsets w.writeOffset batch
    let slices := batch.flatMap fun req => req.encoded.ioSlices
    let w := writeChunks al slices.length w slices
    some (batch.foldl (fun w req => w.note req.slot) w, offsets)

/-- The footer in either format. -/
def footer : Bytes :=
  match w.recordFormat with
  | .textLine => encodeTextFooter C w.minSlot w.maxSlot w.recordCount
  | .auto | .binary => encodeFooter C w.minSlot w.maxSlot w.recordCount

/-- Write the footer and mark the segment immutable. -/
def sealSegment : SegmentWriter :=
  if w.isSealed then w
  else { w with
    file := al.writeBytes w.file (w.footer C) w.writeOffset
    writeOffset := w.writeOffset + (w.footer C).length
    isSealed := true }

/-! ### The content of the file

`R content file` stands for "the file starts with the content" or "the file is
the content and padding": both survive a write behind the content. -/

/-- A relation of content and file that a vectored write behind the content extends. -/
def Extends (R : Bytes → Bytes → Prop) : Prop :=
  ∀ {content file : Bytes} (bufs : List Bytes), R content file →
    R (content ++ bufs.flatten) (al.writeVectoredAt file bufs content.length)

theorem extends_isPrefix : Extends al (· <+: ·) := fun bufs h => IsPrefix.writeVectoredAt h al bufs

/-- The file of the segment holds this content, up to the write offset. -/
structure On (R : Bytes → Bytes → Prop) (w : SegmentWriter) (content : Bytes) : Prop where
  file : R content w.file
  offset : w.writeOffset = content.length

/-- What a write leaves of a segment: its identity, format and seal. -/
structure SameSegment (w w' : SegmentWriter) : Prop where
  segmentId : w'.segmentId = w.segmentId
  groupId : w'.groupId = w.groupId
  isSealed : w'.isSealed = w.isSealed
  recordFormat : w'.recordFormat = w.recordFormat

theorem SameSegment.refl : SameSegment w w := ⟨rfl, rfl, rfl, rfl⟩

theorem SameSegment.trans {w w' w'' : SegmentWriter} (h : SameSegment w w')
    (h' : SameSegment w' w'') : SameSegment w w'' :=
  ⟨h'.segmentId.trans h.segmentId, h'.groupId.trans h.groupId, h'.isSealed.trans h.isSealed,
    h'.recordFormat.trans h.recordFormat⟩

theorem note_same (slot : UInt64) : SameSegment w (w.note slot) := by
  unfold note; split <;> exact ⟨rfl, rfl, rfl, rfl⟩

@[simp] theorem note_file (slot : UInt64) : (w.note slot).file = w.file := by
  unfold note; split <;> rfl

@[simp] theorem note_writeOffset (slot : UInt64) : (w.note slot).writeOffset = w.writeOffset := by
  unfold note; split <;> rfl

theorem writeRawVectored_same (bufs : List Bytes) : SameSegment w (w.writeRawVectored al bufs) := by
  unfold writeRawVectored
  dsimp only
  split <;> exact ⟨rfl, rfl, rfl, rfl⟩

theorem writeChunks_same (n : ℕ) (w : SegmentWriter) (slices : List Bytes) :
    SameSegment w (writeChunks al n w slices) := by
  induction n generalizing w slices with
  | zero => exact .refl _
  | succ n ih =>
    unfold writeChunks
    split
    · exact .refl _
    · refine SameSegment.trans ?_ (ih _ _)
      split
      · exact writeRawVectored_same al w _
      · exact .refl _

theorem encodeRecord_totalLen {fmt : WalRecordFormat} {e : EncodedRecord}
    (h : encodeRecord C fmt r = some e) : e.totalLen = e.ioSlices.flatten.length := by
  have hframe : ∀ f, r.encodeFrame C = some f → f.totalLen = f.ioSlices.flatten.length := by
    intro f hf
    unfold RawRecord.encodeFrame at hf
    split at hf
    · cases hf
      simp [RecordFrame.totalLen, RecordFrame.ioSlices, headerBodyLen]
      omega
    · cases hf
  cases fmt with
  | auto | binary =>
    obtain ⟨f, hf, rfl⟩ := map_eq_some_iff.mp h
    exact hframe f hf
  | textLine =>
    cases h
    simp [EncodedRecord.totalLen, EncodedRecord.ioSlices]

variable {C al} {R : Bytes → Bytes → Prop} {w w' : SegmentWriter} {content : Bytes}

theorem On.congr (h : On R w content) (hf : w'.file = w.file)
    (ho : w'.writeOffset = w.writeOffset) : On R w' content :=
  ⟨hf ▸ h.file, ho ▸ h.offset⟩

theorem On.writeRawVectored (hR : Extends al R) (h : On R w content) (bufs : List Bytes)
    (hpos : 0 < (bufs.map length).sum) :
    On R (w.writeRawVectored al bufs) (content ++ bufs.flatten) := by
  unfold SegmentWriter.writeRawVectored
  rw [if_neg (by omega)]
  refine ⟨?_, ?_⟩
  · simpa only [h.offset] using hR bufs h.file
  · simp [h.offset, length_flatten]

theorem On.writeChunks (hR : Extends al R) {n : ℕ}
    (h : On R w content) {slices : List Bytes} (hn : slices.length ≤ n) :
    On R (writeChunks al n w slices) (content ++ slices.flatten) := by
  induction n generalizing w content slices with
  | zero =>
    rw [length_eq_zero_iff.mp (Nat.le_zero.mp hn)]
    simpa [SegmentWriter.writeChunks] using h
  | succ n ih =>
    unfold SegmentWriter.writeChunks
    split
    · rename_i hnil
      simpa [hnil] using h
    · rename_i hne
      have hall : content ++ slices.flatten =
          (content ++ (slices.take maxIov).flatten) ++ (slices.drop maxIov).flatten := by
        rw [append_assoc, ← flatten_append, take_append_drop]
      rw [hall]
      refine ih ?_ (by rw [length_drop, maxIov]; omega)
      split
      · rename_i hsum
        exact h.writeRawVectored hR _ hsum
      · -- a chunk of empty slices is not written
        have hempty : (slices.take maxIov).flatten = [] := by
          rw [← length_eq_zero_iff, length_flatten]; omega
        rw [hempty, append_nil]
        exact h

theorem foldl_note (w : SegmentWriter) (batch : List PendingWrite) :
    (batch.foldl (fun w req => w.note req.slot) w).file = w.file ∧
      (batch.foldl (fun w req => w.note req.slot) w).writeOffset = w.writeOffset ∧
      SameSegment w (batch.foldl (fun w req => w.note req.slot) w) := by
  induction batch generalizing w with
  | nil => exact ⟨rfl, rfl, .refl _⟩
  | cons req _ ih =>
    obtain ⟨h1, h2, h3⟩ := ih (w.note req.slot)
    exact ⟨h1.trans (note_file _ _), h2.trans (note_writeOffset _ _), (note_same _ _).trans h3⟩

/-- The bytes of a batch. -/
def batchBytes (batch : List PendingWrite) : Bytes :=
  (batch.flatMap fun req => req.encoded.ioSlices).flatten

/-- **A batch extends the content** by its records. -/
theorem On.writeBatch (hR : Extends al R) (h : On R w content) {batch : List PendingWrite}
    {offsets : List ℕ} (hw : w.writeBatch al batch = some (w', offsets)) :
    On R w' (content ++ batchBytes batch) ∧ SameSegment w w' ∧ offsets =
      batchOffsets content.length batch := by
  unfold SegmentWriter.writeBatch at hw
  split at hw
  · rename_i hnil
    obtain ⟨rfl, rfl⟩ := hw
    subst hnil
    exact ⟨by simpa [batchBytes] using h, .refl _, rfl⟩
  · split at hw
    · cases hw
    · obtain ⟨rfl, rfl⟩ := hw
      set slices := batch.flatMap fun req => req.encoded.ioSlices
      obtain ⟨h1, h2, h3⟩ := foldl_note (SegmentWriter.writeChunks al slices.length w slices) batch
      exact ⟨(h.writeChunks hR le_rfl).congr h1 h2,
        (writeChunks_same al _ w _).trans h3, by rw [h.offset]⟩

/-- **An appended record extends the content.** -/
theorem On.append (hR : Extends al R) (h : On R w content) {off : ℕ}
    (hw : w.append C al r = some (w', off)) :
    On R w' (content ++ recordBytes C w.recordFormat r) ∧ SameSegment w w' ∧
      off = content.length ∧ (encodeRecord C w.recordFormat r).isSome := by
  unfold SegmentWriter.append at hw
  split at hw
  · cases hw
  · obtain ⟨e, he, hw⟩ := map_eq_some_iff.mp hw
    obtain ⟨rfl, rfl⟩ := hw
    have hbytes : recordBytes C w.recordFormat r = e.ioSlices.flatten := by rw [recordBytes, he]
    refine ⟨⟨?_, ?_⟩, ?_, h.offset, by rw [he]; rfl⟩
    · rw [note_file, hbytes, h.offset]
      simpa [WalBlockAlignment.writeVectoredAt] using hR [e.ioSlices.flatten] h.file
    · rw [note_writeOffset, hbytes, length_append, h.offset]
    · refine SameSegment.trans ?_ (note_same _ _)
      exact ⟨rfl, rfl, rfl, rfl⟩

theorem On.sealSegment (hR : Extends al R) (h : On R w content) (hs : w.isSealed = false) :
    On R (w.sealSegment C al) (content ++ w.footer C) := by
  unfold SegmentWriter.sealSegment
  rw [if_neg (by simp [hs])]
  refine ⟨?_, by simp [h.offset]⟩
  simpa [h.offset, WalBlockAlignment.writeVectoredAt] using hR [w.footer C] h.file

theorem on_create (al : WalBlockAlignment) (fmt : WalRecordFormat) (segmentId groupId : UInt64) :
    On Padded (create al fmt segmentId groupId) (segHeader fmt segmentId groupId) := by
  refine ⟨?_, rfl⟩
  have h : Padded [] [] := ⟨0, rfl⟩
  simpa [create] using h.writeBytes al (segHeader fmt segmentId groupId)

end SegmentWriter

end CrowDB
