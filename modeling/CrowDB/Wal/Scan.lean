/-
  The scan of the segments of one disk at replay (`replay_group` of
  `wal/replay.rs`, steps 2 and 3; `read_footer` of `wal/segment.rs`).

  Segments are scanned in the order of their ids.  A file that cannot be opened
  is skipped; damage ends the segment, and in a sealed segment that is not the
  last one it fails the replay.
-/
import CrowDB.Wal.RoundTrip

namespace CrowDB

open Lib List

/-! ## The footer -/

/-- `SegmentFooter`. -/
structure SegmentFooter where
  minSlot : UInt64
  maxSlot : UInt64
  recordCount : UInt32
deriving DecidableEq

/-- Bytes scanned from the end of the file for a footer under padding. -/
def footerTailScanBytes : ℕ := 64 * 1024

section

variable (C : Crc32c) {file : Bytes} {segmentId groupId : UInt64} {fmt : WalRecordFormat}
  {rs : List RawRecord}

/-- `decode_footer`. -/
def decodeFooter (buf : Bytes) : Option SegmentFooter :=
  if readLe 4 buf 0 ≠ footerMagic then none
  else if UInt32.ofNat (readLe 4 buf 24) ≠ C.crc32c (buf.take 24) then none
  else some ⟨UInt64.ofNat (readLe 8 buf 4), UInt64.ofNat (readLe 8 buf 12),
    UInt32.ofNat (readLe 4 buf 20)⟩

/-- The fields of a text footer seen so far. -/
structure FooterFields where
  minSlot : Option UInt64 := none
  maxSlot : Option UInt64 := none
  recordCount : Option UInt32 := none

/-- A `key=value` word is read. -/
def FooterFields.readField (t : FooterFields) (field : Bytes) : Except RecordError FooterFields :=
  match splitOnce equalsSign field with
  | none => .error (.badText (.malformedField field))
  | some (key, value) =>
    if key = ascii "min_slot" then
      (parseU64 value key).map fun n => { t with minSlot := some n }
    else if key = ascii "max_slot" then
      (parseU64 value key).map fun n => { t with maxSlot := some n }
    else if key = ascii "record_count" then
      (parseNumber 10 (2 ^ 32 - 1) key value).map fun n => { t with recordCount := some (.ofNat n) }
    else .error (.badText (.unknownField key))

/-- `decode_text_footer`. -/
def decodeTextFooter (line : Bytes) : Except RecordError SegmentFooter := do
  let body ← openLine C line
  match body.splitOn space with
  | [] => throw (.badText .missingPrefix)
  | mark :: fields =>
    if mark ≠ footerTextMark then throw (.badText (.badPrefix mark))
    let t ← fields.foldlM FooterFields.readField {}
    return ⟨← require (ascii "min_slot") t.minSlot, ← require (ascii "max_slot") t.maxSlot,
      ← require (ascii "record_count") t.recordCount⟩

/-- What follows the last occurrence of `mark`, the mark included. -/
def lastMark (mark : Bytes) : Bytes → Option Bytes
  | [] => none
  | c :: cs => (lastMark mark cs).or (if mark.isPrefixOf (c :: cs) then some (c :: cs) else none)

/-- The bytes of `tail` up to its last one that is not zero. -/
def dropPadding (tail : Bytes) : Bytes := trimEnd (· = 0) tail

/-- `try_decode_text_footer_from_tail`. -/
def tryDecodeTextFooterFromTail (tail : Bytes) : Option SegmentFooter := do
  let data ← lastMark footerTextMark (dropPadding tail)
  let (line, _) ← splitOnce newline data
  if utf8Valid line then (decodeTextFooter C line).toOption else none

/-- The footer that is found in the tail of a file: as text, or just past the last
    byte that is not padding. -/
def tailFooter (tail : Bytes) : Option SegmentFooter :=
  match tryDecodeTextFooterFromTail C tail with
  | some footer => some footer
  | none =>
    let firstEnd := (dropPadding tail).length
    if firstEnd = 0 then none
    else
      let ends := (List.range' firstEnd 5).filter (fun e => e ≤ tail.length ∧ footerLen ≤ e)
      ends.findSome? fun e => decodeFooter C ((tail.drop (e - footerLen)).take footerLen)

/-- The last bytes of a file, without its header. -/
def scannedTail (file : Bytes) : Bytes :=
  file.drop (max (file.length - footerTailScanBytes) segHeaderLen)

/-- The seal footer of a file: at its end, or in its tail. -/
def readFooter (file : Bytes) : Option SegmentFooter :=
  if file.length < segHeaderLen + footerLen then none
  else
    match decodeFooter C (file.drop (file.length - footerLen)) with
    | some footer => some footer
    | none => tailFooter C (scannedTail file)

/-- The verified records of the segments; `none` on damage inside a sealed segment that is not the
    last. -/
def scan : List Bytes → Option (List RawRecord)
  | [] => some []
  | file :: files =>
    match readSegment C file with
    | .error _ => scan files
    | .ok (_, records, .done) => (scan files).map (records.map Prod.fst ++ ·)
    | .ok (_, records, .damaged _ _) =>
      if (readFooter C file).isSome ∧ files ≠ [] then none
      else (scan files).map (records.map Prod.fst ++ ·)

/-- The file reads to its end, and returns at least these records. -/
def ReadsToEnd (file : Bytes) (rs : List RawRecord) : Prop :=
  ∃ h records, readSegment C file = .ok (h, records, .done) ∧ rs ⊆ records.map Prod.fst

/-- The file returns at least these records, whatever comes then. -/
def ReadsAtLeast (file : Bytes) (rs : List RawRecord) : Prop :=
  rs = [] ∨ ∃ h records stop, readSegment C file = .ok (h, records, stop) ∧ rs ⊆ records.map Prod.fst

/-- **The scan of segments that read to their ends**, a last one apart, returns
    the records of all of them. -/
theorem scan_spec {files : List Bytes} {rss : List (List RawRecord)}
    {last : List (Bytes × List RawRecord)}
    (h : Forall₂ (ReadsToEnd C) files rss) (hlast : last.length ≤ 1)
    (hl : ∀ p ∈ last, ReadsAtLeast C p.1 p.2) :
    ∃ rs, scan C (files ++ last.map Prod.fst) = some rs ∧ rss.flatten ++
      last.flatMap Prod.snd ⊆ rs := by
  induction h with
  | nil =>
    match last, hlast with
    | [], _ => exact ⟨[], rfl, by simp⟩
    | [(file, rs)], _ =>
      have hr := hl (file, rs) (by simp)
      simp only [nil_append, map_cons, map_nil, flatten_nil, flatMap_cons, flatMap_nil, append_nil]
      rw [scan]
      cases hread : readSegment C file with
      | error =>
        rcases hr with rfl | ⟨h', records, stop, hok, -⟩
        · exact ⟨[], rfl, by simp⟩
        · rw [hread] at hok; cases hok
      | ok p =>
        obtain ⟨h', records, stop⟩ := p
        have hsub : rs ⊆ records.map Prod.fst := by
          rcases hr with rfl | ⟨h'', records', stop', hok, hsub⟩
          · simp
          · rw [hread] at hok; cases hok; exact hsub
        refine ⟨records.map Prod.fst, ?_, hsub⟩
        cases stop with
        | done => simp [scan]
        | damaged => simp [scan]
  | cons hr _ ih =>
    obtain ⟨h', records, hok, hsub⟩ := hr
    obtain ⟨rs, hscan, hrs⟩ := ih
    refine ⟨records.map Prod.fst ++ rs, ?_, ?_⟩
    · rw [cons_append, scan, hok]
      simp [hscan]
    · rw [flatten_cons, append_assoc]
      exact append_subset.mpr ⟨Subset.trans hsub (subset_append_left _ _),
        Subset.trans hrs (subset_append_right _ _)⟩

theorem readsToEnd_sealed
    (he : ∀ r ∈ rs, Encodable C fmt r) (hf : ∀ r ∈ rs, FooterFree fmt r) (w : SegmentWriter)
    (h : segHeader fmt segmentId groupId ++ rs.flatMap (recordBytes C fmt) ++ w.footer C <+: file) :
    ReadsToEnd C file rs := by
  obtain ⟨post, rfl⟩ := h
  refine ⟨⟨segmentId, groupId⟩, layout C fmt (segHeader fmt segmentId groupId).length rs, ?_, ?_⟩
  · rw [append_assoc, append_assoc, readSegment_segHeader, readFrom_records he hf,
      readFrom_done (nextRecord_footer C w post), append_nil]
  · rw [map_fst_layout]
    exact Subset.refl rs

theorem readsAtLeast_prefix (he : ∀ r ∈ rs, Encodable C fmt r) (hf : ∀ r ∈ rs, FooterFree fmt r)
    (h : segHeader fmt segmentId groupId ++ rs.flatMap (recordBytes C fmt) <+: file) :
    ReadsAtLeast C file rs := by
  obtain ⟨post, rfl⟩ := h
  rw [append_assoc, ReadsAtLeast, readSegment_segHeader, readFrom_records he hf]
  refine .inr ⟨_, _, _, rfl, ?_⟩
  rw [map_append, map_fst_layout]
  exact subset_append_left _ _

end

end CrowDB
