/-
  Reading segment files (`SegmentReader` of `wal/segment.rs`).

  `nextRecord` decides what the bytes at the reader's offset are: a text line,
  the text footer, the binary footer, padding or a binary frame.  `readFrom`
  reads to the first of the end, the footer, padding and damage.
-/
import CrowDB.Wal.Segment

namespace CrowDB

open Lib List Option

/-! ## The reader -/

/-- `SegmentHeader`. -/
structure SegmentHeader where
  segmentId : UInt64
  groupId : UInt64
deriving DecidableEq

/-- Why a file cannot be opened. -/
inductive OpenError where
  | tooSmall
  | missingNewline
  | invalidUtf8
  | badMagic (magic : ℕ)
  | missingPrefix
  | badPrefix (found : Bytes)
  | malformedField (field : Bytes)
  | badNumber (field : Bytes) (e : ParseIntError)
  | unknownField (key : Bytes)
  | missingField (name : Bytes)
deriving DecidableEq

/-- `decode_seg_header`. -/
def decodeSegHeader (buf : Bytes) : Except OpenError SegmentHeader :=
  let magic := readLe 4 buf 0
  if magic ≠ segMagic then .error (.badMagic magic)
  else .ok ⟨UInt64.ofNat (readLe 8 buf 6), UInt64.ofNat (readLe 8 buf 14)⟩

/-- The fields of a text header seen so far. -/
structure SegHeaderFields where
  segmentId : Option UInt64 := none
  groupId : Option UInt64 := none

namespace SegHeaderFields

/-- An id of the text header. -/
def parseId (field value : Bytes) : Except OpenError UInt64 :=
  match parseRadix 10 (2 ^ 64 - 1) value with
  | .ok n => .ok (UInt64.ofNat n)
  | .error e => .error (.badNumber field e)

/-- A `key=value` word is read. -/
def readField (t : SegHeaderFields) (field : Bytes) : Except OpenError SegHeaderFields :=
  match splitOnce equalsSign field with
  | none => .error (.malformedField field)
  | some (key, value) =>
    if key = ascii "v" then .ok t
    else if key = ascii "segment_id" then
      (parseId key value).map fun n => { t with segmentId := some n }
    else if key = ascii "group_id" then
      (parseId key value).map fun n => { t with groupId := some n }
    else .error (.unknownField key)

/-- Both ids are there. -/
def toHeader (t : SegHeaderFields) : Except OpenError SegmentHeader :=
  match t.segmentId, t.groupId with
  | none, _ => .error (.missingField (ascii "segment_id"))
  | _, none => .error (.missingField (ascii "group_id"))
  | some segmentId, some groupId => .ok ⟨segmentId, groupId⟩

end SegHeaderFields

/-- `decode_text_seg_header`. -/
def decodeTextSegHeader (line : Bytes) : Except OpenError SegmentHeader :=
  match line.splitOn space with
  | [] => .error .missingPrefix
  | mark :: fields =>
    if mark ≠ segTextMark then .error (.badPrefix mark)
    else (fields.foldlM SegHeaderFields.readField {}).bind SegHeaderFields.toHeader

/-- Open a segment file: its header, and the offset of the first record. -/
def openSegment (file : Bytes) : Except OpenError (SegmentHeader × ℕ) :=
  if file.length < segHeaderLen then .error .tooSmall
  else if segTextMark.isPrefixOf file then
    match splitOnce newline file with
    | none => .error .missingNewline
    | some (line, _) =>
      if utf8Valid line then (decodeTextSegHeader line).map fun h => (h, line.length + 1)
      else .error .invalidUtf8
  else (decodeSegHeader (file.take segHeaderLen)).map fun h => (h, segHeaderLen)

variable {tail : Bytes} {r : RawRecord}

section

variable (C : Crc32c)

/-- A text record at the start of `tail`: up to the next line end. -/
def nextTextRecord (tail : Bytes) : Except RecordError (Option (RawRecord × ℕ)) :=
  match splitOnce newline tail with
  | none => .error .truncated
  | some (line, _) =>
    if utf8Valid (line ++ [newline]) then
      (RawRecord.decodeTextLine C (line ++ [newline])).map fun r => some (r, line.length + 1)
    else .error (.badText .invalidUtf8)

/-- The next record and its size from the bytes behind the offset; `none` at the end, the footer or
    padding. -/
def nextRecord (tail : Bytes) : Except RecordError (Option (RawRecord × ℕ)) :=
  -- fewer than four bytes can only be the end of the padding
  if tail.length < 4 then .ok none
  else if textMark.isPrefixOf tail then nextTextRecord C tail
  else if footerTextMark.isPrefixOf tail then .ok none
  else
    let marker := readLe 4 tail 0
    -- the footer of a sealed segment, or the padding of one that is not
    if marker = footerMagic then .ok none
    else if marker = 0 then .ok none
    else if tail.length < minRecordSize then .error .truncated
    else
      let total := 4 + marker
      if tail.length < total then .error .truncated
      else (RawRecord.decode C (tail.take total)).map some

/-- Why the reading ends. -/
inductive ReadEnd where
  | done
  | damaged (e : RecordError) (offset : ℕ)
deriving DecidableEq

theorem nextRecord_advances {n : ℕ} (h : nextRecord C tail = .ok (some (r, n))) :
    0 < n ∧ 0 < tail.length := by
  unfold nextRecord at h
  dsimp only at h
  split_ifs at h with h4 htext hfoot hmagic hzero hmin htotal
  · cases h
  · -- a text line has at least its line end
    refine ⟨?_, by omega⟩
    unfold nextTextRecord at h
    split at h
    · cases h
    · split at h
      · cases hd : RawRecord.decodeTextLine C _ with
        | error => rw [hd] at h; cases h
        | ok => rw [hd] at h; cases h; omega
      · cases h
  · cases h
  · cases h
  · cases h
  · refine ⟨?_, by omega⟩
    cases hd : RawRecord.decode C (tail.take (4 + readLe 4 tail 0)) with
    | error => rw [hd] at h; cases h
    | ok =>
      rw [hd] at h
      cases h
      have := RawRecord.decode_consumed C hd
      omega

/-- Read all records from the offset `off` on, where `tail` starts. -/
def readFrom (tail : Bytes) (off : ℕ) : List (RawRecord × ℕ) × ReadEnd :=
  match _h : nextRecord C tail with
  | .ok none => ([], .done)
  | .error e => ([], .damaged e off)
  | .ok (some (r, n)) =>
    let rest := readFrom (tail.drop n) (off + n)
    ((r, off) :: rest.1, rest.2)
termination_by tail.length
decreasing_by
  have := nextRecord_advances C _h
  rw [length_drop]; omega

/-- All records of a file. -/
def readSegment (file : Bytes) : Except OpenError (SegmentHeader × List (RawRecord × ℕ) × ReadEnd) :=
  (openSegment file).map fun (h, off) => (h, readFrom C (file.drop off) off)

end

/-! ## What the bytes at an offset are -/

theorem isPrefixOf_eq_false {mark : Bytes} (i : ℕ) (h : tail[i]? ≠ mark[i]?)
    (hi : i < mark.length) : mark.isPrefixOf tail = false := by
  rw [Bool.eq_false_iff]
  intro hp
  obtain ⟨rest, rfl⟩ := isPrefixOf_iff_prefix.mp hp
  exact h (by rw [getElem?_append_left hi])

section

variable (C : Crc32c)

theorem nextRecord_binary (h4 : 4 ≤ tail.length) (ht : textMark.isPrefixOf tail = false)
    (hf : footerTextMark.isPrefixOf tail = false) :
    nextRecord C tail =
      if readLe 4 tail 0 = footerMagic ∨ readLe 4 tail 0 = 0 then .ok none
      else if tail.length < minRecordSize ∨ tail.length < 4 + readLe 4 tail 0 then .error .truncated
      else (RawRecord.decode C (tail.take (4 + readLe 4 tail 0))).map some := by
  have hnt : ¬ textMark.isPrefixOf tail = true := by simp [ht]
  have hnf : ¬ footerTextMark.isPrefixOf tail = true := by simp [hf]
  simp only [nextRecord, if_neg (Nat.not_lt.mpr h4), if_neg hnt, if_neg hnf]
  by_cases hm : readLe 4 tail 0 = footerMagic
  · rw [if_pos hm, if_pos (.inl hm)]
  by_cases hz : readLe 4 tail 0 = 0
  · rw [if_neg hm, if_pos hz, if_pos (.inr hz)]
  rw [if_neg hm, if_neg hz, if_neg (not_or.mpr ⟨hm, hz⟩)]
  by_cases h1 : tail.length < minRecordSize
  · rw [if_pos h1, if_pos (.inl h1)]
  by_cases h2 : tail.length < 4 + readLe 4 tail 0
  · rw [if_neg h1, if_pos h2, if_pos (.inr h2)]
  rw [if_neg h1, if_neg h2, if_neg (not_or.mpr ⟨h1, h2⟩)]

theorem nextRecord_encodeFooter (minSlot maxSlot : UInt64) (recordCount : UInt32) (post : Bytes) :
    nextRecord C (encodeFooter C minSlot maxSlot recordCount ++ post) = .ok none := by
  obtain ⟨rest, hrest⟩ : ∃ rest, encodeFooter C minSlot maxSlot recordCount ++ post =
      leBytes 4 footerMagic ++ rest :=
        ⟨_, by simp only [encodeFooter, footerFields, append_assoc]; rfl⟩
  have h0 : (leBytes 4 footerMagic ++ rest)[0]? = some 84 := by
    rw [getElem?_append_left (by simp)]; decide
  rw [hrest, nextRecord_binary C (by simp) (isPrefixOf_eq_false 0 (by rw [h0]; decide) (by decide))
    (isPrefixOf_eq_false 0 (by rw [h0]; decide) (by decide)),
    readLe_zero rest (by decide), if_pos (.inl rfl)]

theorem nextRecord_encodeTextFooter (minSlot maxSlot : UInt64) (recordCount : UInt32)
    (post : Bytes) : nextRecord C (encodeTextFooter C minSlot maxSlot recordCount ++ post) =
      .ok none := by
  obtain ⟨rest, hrest⟩ : ∃ rest, encodeTextFooter C minSlot maxSlot recordCount ++ post =
    footerTextMark ++ rest :=
    ⟨_, by simp only [encodeTextFooter, sealLine, intercalate_cons_cons, append_assoc]; rfl⟩
  have h11 : (footerTextMark ++ rest)[11]? = some 70 := by
    rw [getElem?_append_left (by decide)]; decide
  have ht : ¬ textMark.isPrefixOf (footerTextMark ++ rest) = true := by
    rw [Bool.not_eq_true]
    exact isPrefixOf_eq_false 11 (by rw [h11]; decide) (by decide)
  have hf : footerTextMark.isPrefixOf (footerTextMark ++ rest) = true :=
    isPrefixOf_iff_prefix.mpr (prefix_append _ _)
  have h4 : ¬ (footerTextMark ++ rest).length < 4 := by
    rw [length_append, show footerTextMark.length = 17 by decide]; omega
  simp only [hrest, nextRecord, if_neg h4, if_neg ht, if_pos hf]

theorem nextRecord_footer (w : SegmentWriter) (post : Bytes) :
    nextRecord C (w.footer C ++ post) = .ok none := by
  unfold SegmentWriter.footer
  split
  · exact nextRecord_encodeTextFooter C _ _ _ post
  · exact nextRecord_encodeFooter C _ _ _ post
  · exact nextRecord_encodeFooter C _ _ _ post

/-! ### Binary frames -/

variable {C} {bs : Bytes}

theorem frame_not_text (h : r.encode C = some bs) (htail : tail[4]? = bs[4]? ∨ tail[4]? = none) :
    textMark.isPrefixOf tail = false ∧ footerTextMark.isPrefixOf tail = false := by
  have h4 : bs[4]? = some 87 := by
    rw [(RawRecord.encode_eq_some C h).2, getElem?_append_right (by simp), leBytes_length,
      getElem?_append_left (by simp), RawRecord.headerBody,
      getElem?_append_left (by simp)]
    decide
  have hne : tail[4]? ≠ some 68 := by
    rcases htail with hb | hb
    · rw [hb, h4]; decide
    · rw [hb]; decide
  exact ⟨isPrefixOf_eq_false 4 hne (by decide), isPrefixOf_eq_false 4 hne (by decide)⟩

theorem frame_marker (h : r.encode C = some bs) (post : Bytes) :
    readLe 4 (bs ++ post) 0 = r.frameLen := by
  obtain ⟨hfit, hbs⟩ := RawRecord.encode_eq_some C h
  rw [hbs, append_assoc]
  exact readLe_zero _ hfit

theorem frameLen_pos (r : RawRecord) : 55 ≤ r.frameLen := by
  rw [RawRecord.frameLen, headerBodyLen]; omega

/-- A frame is read back, whatever follows it, unless its length is the number
    a footer starts with. -/
theorem nextRecord_frame (h : r.encode C = some bs) (post : Bytes) : nextRecord C (bs ++ post) =
      if r.frameLen = footerMagic then .ok none else .ok (some (r, bs.length)) := by
  have hlen := RawRecord.encode_length C h
  have hpos := frameLen_pos r
  have h5 : (bs ++ post)[4]? = bs[4]? := getElem?_append_left (by omega)
  obtain ⟨ht, hf⟩ := frame_not_text h (.inl h5)
  have hroom : ¬ ((bs ++ post).length < minRecordSize ∨ (bs ++ post).length < 4 + r.frameLen) := by
    simp only [length_append, minRecordSize, headerBodyLen]; omega
  rw [nextRecord_binary C (by rw [length_append]; omega) ht hf, frame_marker h, if_neg hroom,
    ← hlen, take_left, RawRecord.decode_encode C h]
  have h0 : r.frameLen ≠ 0 := by omega
  simp [h0, Except.map]

theorem textLine_eq (C : Crc32c) (r : RawRecord) :
    ∃ body, r.encodeTextLine C = (textMark ++ body) ++ [newline] ∧
      ∀ c ∈ textMark ++ body, c ≠ newline ∧ c < 0x80 := by
  set hex := renderPadded 16 8 (C.crc32c r.textBody).toNat with hhex
  obtain ⟨body, hbody⟩ : ∃ body, r.textBody = textMark ++ body :=
    ⟨_, by rw [RawRecord.textBody, RawRecord.textFields, intercalate_cons_cons, append_assoc]⟩
  have hcrc : ∀ c ∈ crcMark, c ≠ newline ∧ c < 0x80 := forall_mem_of_all (by decide)
  refine ⟨body ++ (crcMark ++ hex), ?_, ?_⟩
  · simp [RawRecord.encodeTextLine, sealLine, hbody, hhex]
  · intro c hc
    rw [← append_assoc, ← hbody] at hc
    rcases mem_append.mp hc with h | h
    · exact ⟨(r.textBody_bytes c h).1, (r.textBody_bytes c h).2.2⟩
    · rcases mem_append.mp h with h | h
      · exact hcrc c h
      · have := fieldSet_fieldByte.renderPadded 8 _ c h
        exact ⟨this.2.1, this.2.2.2⟩

theorem textMark_length : textMark.length = 15 := by decide

/-- **A text line is read back**, whatever follows it. -/
theorem nextRecord_textLine (r : RawRecord) (post : Bytes) :
    nextRecord C (r.encodeTextLine C ++ post) = .ok (some (r, (r.encodeTextLine C).length)) := by
  obtain ⟨body, hline, hbytes⟩ := textLine_eq C r
  have hsplit : splitOnce newline (r.encodeTextLine C ++ post) = some (textMark ++ body, post) := by
    rw [hline, append_assoc (textMark ++ body)]
    exact splitOnce_append (fun h => (hbytes _ h).1 rfl) post
  have hutf : utf8Valid (textMark ++ body ++ [newline]) = true := by
    refine utf8Valid_of_ascii fun c hc => ?_
    rcases mem_append.mp hc with h | h
    · exact (hbytes c h).2
    · rw [mem_singleton.mp h]; decide
  have hmark : textMark.isPrefixOf (r.encodeTextLine C ++ post) = true := by
    rw [hline, isPrefixOf_iff_prefix]
    exact ⟨body ++ ([newline] ++ post), by simp⟩
  have h4 : ¬ (r.encodeTextLine C ++ post).length < 4 := by
    simp only [hline, length_append, textMark_length]; omega
  have hdec : RawRecord.decodeTextLine C (textMark ++ body ++ [newline]) = .ok r := by
    rw [← hline]; exact r.decodeTextLine_encode C
  have hlen : (r.encodeTextLine C).length = (textMark ++ body).length + 1 := by
    rw [hline, length_append, length_singleton]
  rw [nextRecord, if_neg h4, if_pos hmark, nextTextRecord, hsplit]
  simp only [hutf, if_true, hdec, hlen]
  rfl

end

/-! ## Runs of records -/

/-- The records of a segment with their file offsets, from the offset `off` on. -/
def layout (C : Crc32c) (fmt : WalRecordFormat) : ℕ → List RawRecord → List (RawRecord × ℕ)
  | _, [] => []
  | off, r :: rs => (r, off) :: layout C fmt (off + (recordBytes C fmt r).length) rs

/-- The frame of the record does not declare the length `footerMagic`; a text
    line declares none. -/
def FooterFree (fmt : WalRecordFormat) (r : RawRecord) : Prop :=
  fmt = .textLine ∨ r.frameLen ≠ footerMagic
deriving Decidable

/-- The writer does not panic on the record. -/
def Encodable (C : Crc32c) (fmt : WalRecordFormat) (r : RawRecord) : Prop :=
  (encodeRecord C fmt r).isSome

section

variable {C : Crc32c} {fmt : WalRecordFormat}

theorem recordBytes_textLine (r : RawRecord) : recordBytes C .textLine r = r.encodeTextLine C := by
  simp [recordBytes, encodeRecord, EncodedRecord.ioSlices]

theorem encode_recordBytes (hfmt : fmt ≠ .textLine) (he : Encodable C fmt r) :
    r.encode C = some (recordBytes C fmt r) := by
  have henc : encodeRecord C fmt r = (r.encodeFrame C).map .binary := by
    cases fmt with
    | auto | binary => rfl
    | textLine => exact absurd rfl hfmt
  rw [Encodable, henc] at he
  obtain ⟨e, he⟩ := isSome_iff_exists.mp he
  obtain ⟨f, hf, -⟩ := map_eq_some_iff.mp he
  rw [recordBytes, henc, RawRecord.encode, hf]
  rfl

theorem nextRecord_recordBytes (he : Encodable C fmt r) (hf : FooterFree fmt r) (post : Bytes) :
    nextRecord C (recordBytes C fmt r ++ post) = .ok (some (r, (recordBytes C fmt r).length)) := by
  by_cases hfmt : fmt = .textLine
  · subst hfmt
    rw [recordBytes_textLine, nextRecord_textLine]
  · rw [nextRecord_frame (encode_recordBytes hfmt he), if_neg (hf.resolve_left hfmt)]

theorem nextRecord_not_footerFree (he : Encodable C fmt r) (hf : ¬ FooterFree fmt r) (post : Bytes) :
    nextRecord C (recordBytes C fmt r ++ post) = .ok none := by
  obtain ⟨hfmt, hlen⟩ := not_or.mp hf
  rw [nextRecord_frame (encode_recordBytes hfmt he), if_pos (not_not.mp hlen)]

theorem readFrom_done (h : nextRecord C tail = .ok none) (off : ℕ) :
    readFrom C tail off = ([], .done) := by
  rw [readFrom]
  split <;> simp_all

theorem readFrom_cons {n : ℕ} (h : nextRecord C tail = .ok (some (r, n))) (off : ℕ) :
    readFrom C tail off =
      ((r, off) :: (readFrom C (tail.drop n) (off + n)).1,
        (readFrom C (tail.drop n) (off + n)).2) := by
  rw [readFrom]
  split
  · simp_all
  · simp_all
  · rename_i r' n' h'
    rw [h] at h'
    simp only [Except.ok.injEq, some.injEq, Prod.mk.injEq] at h'
    obtain ⟨rfl, rfl⟩ := h'
    rfl

variable {rs : List RawRecord}

/-- **A run of records is read back** with its offsets; reading goes on behind it. -/
theorem readFrom_records (he : ∀ r ∈ rs, Encodable C fmt r) (hf : ∀ r ∈ rs, FooterFree fmt r)
    (post : Bytes) (off : ℕ) :
    readFrom C (rs.flatMap (recordBytes C fmt) ++ post) off =
      (layout C fmt off rs ++ (readFrom C post (off + (rs.flatMap (recordBytes C fmt)).length)).1,
        (readFrom C post (off + (rs.flatMap (recordBytes C fmt)).length)).2) := by
  induction rs generalizing off with
  | nil => simp [layout]
  | cons r _ ih =>
    rw [flatMap_cons, append_assoc,
      readFrom_cons (nextRecord_recordBytes (he r (by simp)) (hf r (by simp)) _), drop_left,
      ih (fun r hr => he r (by simp [hr])) (fun r hr => hf r (by simp [hr])),
      length_append, Nat.add_assoc]
    rfl

/-- Where a record ends. -/
def endOffset (C : Crc32c) (fmt : WalRecordFormat) (p : RawRecord × ℕ) : ℕ :=
  p.2 + (recordBytes C fmt p.1).length

end

end CrowDB
