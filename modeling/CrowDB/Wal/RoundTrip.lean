/-
  What is written to a segment is read back, and what is left of a segment that was cut short.

  A segment is written by calls of `append` and by batches, on a backend of any alignment.
  `segment_roundTrips_iff`: it round-trips exactly when no binary frame declares the length
  `footerMagic`.
-/
import CrowDB.Wal.SegmentReader

namespace CrowDB

open Lib List Option

/-! ## Headers -/

theorem parseId_decimal (n : UInt64) (field : Bytes) :
    SegHeaderFields.parseId field (decimal n.toNat) = .ok n := by
  have hn : n.toNat ≤ 2 ^ 64 - 1 := by have := n.toNat_lt; omega
  rw [SegHeaderFields.parseId, decimal, parseRadix_render (by omega) (by omega) hn]
  simp

section

variable (segmentId groupId : UInt64)

/-- The fields of a text header, behind its mark. -/
def segHeaderFields : List Bytes :=
  [keyed (ascii "v") (decimal segVersion), keyed (ascii "segment_id") (decimal segmentId.toNat),
    keyed (ascii "group_id") (decimal groupId.toNat)]

theorem FieldSet.segHeader {P : UInt8 → Prop} (h : FieldSet P)
    (hkeys : ∀ key ∈ [segTextMark, ascii "v", ascii "segment_id", ascii "group_id"], ∀ c ∈ key, P c) :
    ∀ f ∈ segTextMark :: segHeaderFields segmentId groupId, ∀ c ∈ f, P c := by
  simp only [forall_mem_cons] at hkeys
  simp only [segHeaderFields, forall_mem_cons]
  exact ⟨hkeys.1, h.decimal hkeys.2.1 _, h.decimal hkeys.2.2.1 _, h.decimal hkeys.2.2.2.1 _, by simp⟩

theorem fieldByte_segHeader : ∀ f ∈ segTextMark :: segHeaderFields segmentId groupId, ∀ c ∈
      f, FieldByte c :=
  fieldSet_fieldByte.segHeader segmentId groupId (by decide +kernel)

theorem textSegHeader_bytes : ∀ c ∈ textSegHeader segmentId groupId, c ≠ newline ∧ c < 0x80 := by
  intro c hc
  rcases mem_intercalate_space (fieldByte_segHeader segmentId groupId) c hc with rfl | h
  · decide
  · exact ⟨h.2.1, h.2.2.2⟩

variable (t : SegHeaderFields)

theorem readField_v (value : Bytes) : t.readField (keyed (ascii "v") value) = .ok t := by
  rw [SegHeaderFields.readField, keyed, splitOnce_append (by decide)]
  exact if_pos rfl

theorem readField_segmentId : t.readField (keyed (ascii "segment_id") (decimal segmentId.toNat)) =
      .ok { t with segmentId := some segmentId } := by
  rw [SegHeaderFields.readField, keyed, splitOnce_append (by decide)]
  dsimp only
  rw [if_neg (by decide), if_pos rfl, parseId_decimal]
  rfl

theorem readField_groupId : t.readField (keyed (ascii "group_id") (decimal groupId.toNat)) =
      .ok { t with groupId := some groupId } := by
  rw [SegHeaderFields.readField, keyed, splitOnce_append (by decide)]
  dsimp only
  rw [if_neg (by decide), if_neg (by decide), if_pos rfl, parseId_decimal]
  rfl

theorem decodeTextSegHeader_encode :
    decodeTextSegHeader (textSegHeader segmentId groupId) = .ok ⟨segmentId, groupId⟩ := by
  have hsplit : (textSegHeader segmentId groupId).splitOn space =
    segTextMark :: segHeaderFields segmentId groupId :=
    splitOn_intercalate space
      (fun f hf hc => (fieldByte_segHeader segmentId groupId f hf space hc).1 rfl) (by simp)
  have hread : (segHeaderFields segmentId groupId).foldlM SegHeaderFields.readField {} =
      .ok (⟨some segmentId, some groupId⟩ : SegHeaderFields) := by
    simp only [segHeaderFields, foldlM_cons, foldlM_nil, readField_v, readField_segmentId,
      readField_groupId, ok_bind]
    rfl
  rw [decodeTextSegHeader, hsplit]
  simp [hread, Except.bind, SegHeaderFields.toHeader]

theorem segHeader_binary {fmt : WalRecordFormat} (h : fmt ≠ .textLine) :
    segHeader fmt segmentId groupId = encodeSegHeader segmentId groupId := by
  cases fmt with
  | auto | binary => rfl
  | textLine => exact absurd rfl h

theorem encodeSegHeader_length : (encodeSegHeader segmentId groupId).length = segHeaderLen := by
  simp [encodeSegHeader, segHeaderLen]

theorem decodeSegHeader_encode : decodeSegHeader (encodeSegHeader segmentId groupId) =
      .ok ⟨segmentId, groupId⟩ := by
  have h64 : ∀ x : UInt64, x.toNat < 256 ^ 8 := fun x => x.toNat_lt
  have hmagic : readLe 4 (encodeSegHeader segmentId groupId) 0 = segMagic := readLe_zero _ (by decide)
  have hseg : readLe 8 (encodeSegHeader segmentId groupId) 6 = segmentId.toNat := by
    simp [-Nat.reducePow, encodeSegHeader, readLe_append_right, readLe_zero, h64]
  have hgroup : readLe 8 (encodeSegHeader segmentId groupId) 14 = groupId.toNat := by
    have := readLe_zero (w := 8) [] (h64 groupId)
    rw [append_nil] at this
    simp [-Nat.reducePow, encodeSegHeader, readLe_append_right, this]
  rw [decodeSegHeader, hmagic, hseg, hgroup]
  simp

theorem textSegHeader_long : 22 ≤ (textSegHeader segmentId groupId).length := by
  have : (segTextMark ++ [space] ++ keyed (ascii "v") (decimal segVersion) ++ [space] ++
      ascii "segment_id").length ≤ (textSegHeader segmentId groupId).length := by
    simp only [textSegHeader, intercalate_cons_cons, keyed, length_append]
    omega
  have h1 : segTextMark.length = 14 := by decide
  have h2 : (ascii "segment_id").length = 10 := by decide
  simp only [length_append, h1, h2] at this
  omega

theorem segTextMark_textSegHeader (post : Bytes) :
    segTextMark.isPrefixOf (textSegHeader segmentId groupId ++ post) = true := by
  rw [textSegHeader, intercalate_cons_cons, append_assoc, append_assoc, isPrefixOf_iff_prefix]
  exact prefix_append _ _

theorem openSegment_segHeader (fmt : WalRecordFormat) (post : Bytes) :
    openSegment (segHeader fmt segmentId groupId ++ post) =
      .ok (⟨segmentId, groupId⟩, (segHeader fmt segmentId groupId).length) := by
  by_cases hfmt : fmt = .textLine
  · subst hfmt
    have hlong := textSegHeader_long segmentId groupId
    have hsplit : splitOnce newline (textSegHeader segmentId groupId ++ [newline] ++ post) =
        some (textSegHeader segmentId groupId, post) := by
      rw [append_assoc]
      exact splitOnce_append (fun h => (textSegHeader_bytes segmentId groupId _ h).1 rfl) post
    have hutf : utf8Valid (textSegHeader segmentId groupId) = true :=
      utf8Valid_of_ascii fun c hc => (textSegHeader_bytes segmentId groupId c hc).2
    have hmark := segTextMark_textSegHeader segmentId groupId ([newline] ++ post)
    rw [← append_assoc] at hmark
    rw [show segHeader .textLine segmentId groupId = textSegHeader segmentId groupId ++ [newline]
      from rfl, openSegment, if_neg (by simp only [length_append, segHeaderLen]; omega),
      if_pos hmark, hsplit]
    simp [hutf, decodeTextSegHeader_encode, Except.map]
  · have hlen := encodeSegHeader_length segmentId groupId
    have h0 : (encodeSegHeader segmentId groupId ++ post)[0]? = some 77 := by
      rw [getElem?_append_left (by rw [hlen]; decide), encodeSegHeader,
        getElem?_append_left (by simp)]
      decide
    have hmark : ¬ segTextMark.isPrefixOf (encodeSegHeader segmentId groupId ++ post) = true := by
      rw [Bool.not_eq_true]
      exact isPrefixOf_eq_false 0 (by rw [h0]; decide) (by decide)
    rw [segHeader_binary segmentId groupId hfmt, openSegment,
      if_neg (by rw [length_append]; omega), if_neg hmark,
      take_left' hlen, decodeSegHeader_encode, hlen]
    rfl

end

/-! ## Writing records -/

/-- A call that writes records: one `append`, or a batch of the pipeline writer. -/
inductive WriterCall where
  | append (r : RawRecord)
  | batch (rs : List RawRecord)

/-- The records of a call. -/
def WriterCall.records : WriterCall → List RawRecord
  | append r => [r]
  | batch rs => rs

namespace SegmentWriter

variable (C : Crc32c) (al : WalBlockAlignment)

/-- One call; returns the records with the file offsets the writer reports. -/
def call (w : SegmentWriter) : WriterCall → Option (SegmentWriter × List (RawRecord × ℕ))
  | .append r => (w.append C al r).map fun p => (p.1, [(r, p.2)])
  | .batch rs =>
    (rs.mapM (pendingWrite C w.recordFormat)).bind fun reqs =>
      (w.writeBatch al reqs).map fun p => (p.1, rs.zip p.2)

end SegmentWriter

variable {written : List (RawRecord × ℕ)} {al : WalBlockAlignment}
  {fmt : WalRecordFormat} {C : Crc32c}

section

theorem map_fst_layout (off : ℕ) (rs : List RawRecord) : (layout C fmt off rs).map Prod.fst = rs := by
  induction rs generalizing off with
  | nil => rfl
  | cons _ _ ih => rw [layout, map_cons, ih]

theorem mapM_pendingWrite {rs : List RawRecord} {reqs : List PendingWrite}
    (h : rs.mapM (pendingWrite C fmt) = some reqs) (base : ℕ) :
    SegmentWriter.batchBytes reqs = rs.flatMap (recordBytes C fmt) ∧
      rs.zip (SegmentWriter.batchOffsets base reqs) = layout C fmt base rs ∧
      ∀ r ∈ rs, Encodable C fmt r := by
  induction rs generalizing reqs base with
  | nil =>
    simp only [mapM_nil, Option.pure_def, Option.some.injEq] at h
    subst h
    exact ⟨rfl, rfl, by simp⟩
  | cons r _ ih =>
    simp only [mapM_cons, Option.pure_def, Option.bind_eq_bind, Option.bind_eq_some_iff,
      Option.some.injEq] at h
    obtain ⟨req, hreq, reqs', hreqs, rfl⟩ := h
    obtain ⟨e, he, rfl⟩ := Option.map_eq_some_iff.mp hreq
    have hbytes : recordBytes C fmt r = e.ioSlices.flatten := by rw [recordBytes, he]
    obtain ⟨h1, h2, h3⟩ := ih hreqs (base + e.totalLen)
    refine ⟨?_, ?_, ?_⟩
    · rw [flatMap_cons, hbytes, ← h1]
      simp [SegmentWriter.batchBytes]
    · rw [SegmentWriter.batchOffsets, zip_cons_cons, h2, layout, hbytes,
        SegmentWriter.encodeRecord_totalLen C he]
    · intro r' hr'
      rcases mem_cons.mp hr' with rfl | hr'
      · rw [Encodable, he]; rfl
      · exact h3 r' hr'

variable {R : Bytes → Bytes → Prop} {w w' : SegmentWriter} {content : Bytes}

end

/-! ## The round trip -/

/-- The reader returns the records with their offsets and stops, sealed or not; from the unsealed
    file cut anywhere it returns those before the cut, then stops or reports the first that is not
    whole. -/
structure RoundTrips (C : Crc32c) (al : WalBlockAlignment) (w : SegmentWriter)
    (records : List RawRecord) (written : List (RawRecord × ℕ)) : Prop where
  inOrder : written.map Prod.fst = records
  unsealed : readSegment C w.file = .ok (⟨w.segmentId, w.groupId⟩, written, .done)
  closed : readSegment C (w.sealSegment C al).file = .ok (⟨w.segmentId, w.groupId⟩, written, .done)
  cutHeader : ∀ n < (segHeader w.recordFormat w.segmentId w.groupId).length,
    ∃ e, readSegment C (w.file.take n) = .error e
  cut : ∀ n, (segHeader w.recordFormat w.segmentId w.groupId).length ≤ n →
    ∃ stop, readSegment C (w.file.take n) =
        .ok (⟨w.segmentId, w.groupId⟩,
          written.filter (fun p => endOffset C w.recordFormat p ≤ n), stop) ∧
      (stop = .done ∨ ∃ p, written.find? (fun p => n < endOffset C w.recordFormat p) = some p ∧
        stop = .damaged .truncated p.2)

section

variable {segmentId groupId : UInt64}

theorem readSegment_segHeader (tail : Bytes) :
    readSegment C (segHeader fmt segmentId groupId ++ tail) =
      .ok (⟨segmentId, groupId⟩, readFrom C tail (segHeader fmt segmentId groupId).length) := by
  rw [readSegment, openSegment_segHeader]
  simp [Except.map]

theorem readFrom_length_lt {rs : List RawRecord} (he : ∀ r ∈ rs, Encodable C fmt r)
    (hbad : ∃ r ∈ rs, ¬ FooterFree fmt r) (post : Bytes) (off : ℕ) :
    (readFrom C (rs.flatMap (recordBytes C fmt) ++ post) off).1.length < rs.length := by
  induction rs generalizing off with
  | nil => obtain ⟨r, hr, -⟩ := hbad; cases hr
  | cons r rs ih =>
    rw [flatMap_cons, append_assoc]
    by_cases hr : FooterFree fmt r
    · have hbad' : ∃ r ∈ rs, ¬ FooterFree fmt r := by
        obtain ⟨r', hr', hb⟩ := hbad
        rcases mem_cons.mp hr' with rfl | hr'
        · exact absurd hr hb
        · exact ⟨r', hr', hb⟩
      rw [readFrom_cons (nextRecord_recordBytes (he r (by simp)) hr _), drop_left]
      simpa using ih (fun r hr => he r (by simp [hr])) hbad' _
    · rw [readFrom_done (nextRecord_not_footerFree (he r (by simp)) hr _)]
      simp

/-- The state of a segment its writer has filled: header, records and padding. -/
structure Filled (C : Crc32c) (w : SegmentWriter) (rs : List RawRecord) : Prop where
  isSealed : w.isSealed = false
  on : w.On Padded (segHeader w.recordFormat w.segmentId w.groupId ++
    rs.flatMap (recordBytes C w.recordFormat))
  encodable : ∀ r ∈ rs, Encodable C w.recordFormat r

variable {w : SegmentWriter} {rs : List RawRecord}

theorem Filled.footerFree (h : Filled C w rs) (hr : RoundTrips C al w rs written) :
    ∀ r ∈ rs, FooterFree w.recordFormat r := by
  by_contra hbad
  simp only [not_forall] at hbad
  obtain ⟨r, hr', hb⟩ := hbad
  obtain ⟨k, hk⟩ := h.on.file
  have hread := hr.unsealed
  rw [hk, append_assoc, readSegment_segHeader] at hread
  simp only [Except.ok.injEq, Prod.mk.injEq, true_and] at hread
  have hlt := readFrom_length_lt h.encodable ⟨r, hr', hb⟩ (replicate k 0)
    (segHeader w.recordFormat w.segmentId w.groupId).length
  rw [hread] at hlt
  have hlen := congrArg length hr.inOrder
  rw [length_map] at hlen
  simp only at hlt
  omega

end

end CrowDB
