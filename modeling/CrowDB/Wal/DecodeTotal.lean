/-
  Decoding arbitrary bytes (`WALRecord::decode` of `wal/record.rs`).

  `decode` of the codec speaks of buffers that the segment reader hands over.  `tryDecode` is the same
  function with every slice and subtraction checked: `none` is the panic. It panics on a frame that
  is shorter than the fields it reads, and it accepts a frame with bytes between the payload and the
  checksum, which no record encodes to.
-/
import CrowDB.Wal.Codec

namespace CrowDB

open Lib List Option

/-- A number of `w` bytes; `none` is the panic on a slice that ends behind the buffer. -/
def readChecked (w : ℕ) (buf : Bytes) (off : ℕ) : Option ℕ :=
  if off + w ≤ buf.length then some (readLe w buf off) else none

namespace RawRecord

variable (C : Crc32c)

/-- `decode`, with its panics. -/
def tryDecode (data : Bytes) : Option (Except RecordError (RawRecord × ℕ)) :=
  if data.length < minRecordSize then some (.error .truncated)
  else
    let frameLen := readLe 4 data 0
    let total := 4 + frameLen
    if data.length < total then some (.error .truncated)
    -- `frame_len - 4` underflows
    else if frameLen < 4 then none
    else do
      let body := (data.take total).drop 4
      let crcStored := UInt32.ofNat (readLe 4 body (frameLen - 4))
      let crcComputed := C.crc32c (body.take (frameLen - 4))
      if crcStored ≠ crcComputed then return .error (.badCrc crcComputed crcStored)
      let magic ← readChecked 4 body 0
      if magic ≠ walMagic then return .error (.badMagic magic)
      let version ← readChecked 2 body 4
      if version ≠ walVersion then return .error (.badVersion version)
      let tag ← body[6]?
      match RecordType.fromU8 tag with
      | none => return .error (.badRecordType tag)
      | some recordType => do
        let groupId ← readChecked 8 body 7
        let term ← readChecked 8 body 15
        let slot ← readChecked 8 body 23
        let ballotRound ← readChecked 8 body 31
        let ballotLeader ← readChecked 8 body 39
        let payloadLen ← readChecked 4 body 47
        if 51 + payloadLen + 4 > body.length then return .error .truncated
        return .ok ({
          recordType := recordType
          groupId := UInt64.ofNat groupId
          term := UInt64.ofNat term
          slot := UInt64.ofNat slot
          ballotRound := UInt64.ofNat ballotRound
          ballotLeaderId := UInt64.ofNat ballotLeader
          payload := (body.drop 51).take payloadLen }, total)

/-- What lies behind the length field. -/
def frameBody (data : Bytes) : Bytes := (data.take (4 + readLe 4 data 0)).drop 4

/-- The frame has the checksum of what is before it. -/
def CrcMatches (data : Bytes) : Prop :=
  UInt32.ofNat (readLe 4 (frameBody data) (readLe 4 data 0 - 4)) =
    C.crc32c ((frameBody data).take (readLe 4 data 0 - 4))
deriving Decidable

/-- The frame is as long as what is read of it before an error, and a record has nothing behind the
    payload but the checksum. -/
def FrameFits (data : Bytes) : Prop :=
  minRecordSize ≤ data.length → 4 + readLe 4 data 0 ≤ data.length → 4 ≤ readLe 4 data 0 ∧
    (CrcMatches C data → readLe 4 (frameBody data) 0 = walMagic → 6 ≤ readLe 4 data 0 ∧
      (readLe 2 (frameBody data) 4 = walVersion → 7 ≤ readLe 4 data 0 ∧
        ((RecordType.fromU8 ((frameBody data).getD 6 0)).isSome →
          headerBodyLen ≤ readLe 4 data 0 ∧ readLe 4 data 0 ≤ headerBodyLen +
            readLe 4 (frameBody data) 47 + 4)))
deriving Decidable

/-- There is a result, and a record encodes to what was consumed. -/
def Reencodes (data : Bytes) (o : Option (Except RecordError (RawRecord × ℕ))) : Prop :=
  ∃ res, o = some res ∧ ∀ r n, res = .ok (r, n) → n ≤ data.length ∧ r.encode C = some (data.take n)

variable {C} {data : Bytes} {off n : ℕ} {r : RawRecord}

theorem readChecked_eq {w : ℕ} {buf : Bytes} (h : off + w ≤ buf.length) :
    readChecked w buf off = some (readLe w buf off) := if_pos h

theorem body_length {frameLen : ℕ} (h : 4 + frameLen ≤ data.length) :
    ((data.take (4 + frameLen)).drop 4).length = frameLen := by
  rw [length_drop, length_take]
  omega

theorem tryDecode_eq_decode
    (h : minRecordSize ≤ data.length → 4 + readLe 4 data 0 ≤ data.length →
      headerBodyLen ≤ readLe 4 data 0) :
    tryDecode C data = some (decode C data) := by
  unfold tryDecode decode
  by_cases hmin : data.length < minRecordSize
  · rw [if_pos hmin, if_pos hmin]
  · rw [if_neg hmin, if_neg hmin]
    by_cases hwhole : data.length < 4 + readLe 4 data 0
    · rw [if_pos hwhole, if_pos hwhole]
    · have hlong : 51 ≤ readLe 4 data 0 := h (not_lt.1 hmin) (not_lt.1 hwhole)
      have hlen := body_length (not_lt.1 hwhole)
      rw [if_neg hwhole, if_neg hwhole, if_neg (by omega)]
      generalize (data.take (4 + readLe 4 data 0)).drop 4 = body at hlen ⊢
      have htag : body[6]? = some (body.getD 6 0) := by
        rw [getD_eq_getElem?_getD, getElem?_eq_getElem (by omega)]
        rfl
      simp only [readChecked_eq (show 0 + 4 ≤ body.length by omega),
        readChecked_eq (show 4 + 2 ≤ body.length by omega), htag,
        readChecked_eq (show 7 + 8 ≤ body.length by omega),
        readChecked_eq (show 15 + 8 ≤ body.length by omega),
        readChecked_eq (show 23 + 8 ≤ body.length by omega),
        readChecked_eq (show 31 + 8 ≤ body.length by omega),
        readChecked_eq (show 39 + 8 ≤ body.length by omega),
        readChecked_eq (show 47 + 4 ≤ body.length by omega), bind_eq_bind, bind_some]
      split
      · rfl
      · split
        · rfl
        · split
          · rfl
          · cases RecordType.fromU8 (body.getD 6 0) with
            | none => rfl
            | some =>
              dsimp only
              split <;> rfl

/-- The record that is read from the body of a frame. -/
structure ReadFrom (C : Crc32c) (body : Bytes) (r : RawRecord) : Prop where
  crc : UInt32.ofNat (readLe 4 body (body.length - 4)) = C.crc32c (body.take (body.length - 4))
  magic : readLe 4 body 0 = walMagic
  version : readLe 2 body 4 = walVersion
  recordType : RecordType.fromU8 (body.getD 6 0) = some r.recordType
  groupId : r.groupId = UInt64.ofNat (readLe 8 body 7)
  term : r.term = UInt64.ofNat (readLe 8 body 15)
  slot : r.slot = UInt64.ofNat (readLe 8 body 23)
  ballotRound : r.ballotRound = UInt64.ofNat (readLe 8 body 31)
  ballotLeaderId : r.ballotLeaderId = UInt64.ofNat (readLe 8 body 39)
  room : 51 + readLe 4 body 47 + 4 ≤ body.length
  payload : r.payload = (body.drop 51).take (readLe 4 body 47)

theorem decode_eq_ok (h : decode C data = .ok (r, n)) :
    n = 4 + readLe 4 data 0 ∧ n ≤ data.length ∧ minRecordSize ≤ data.length ∧
      ReadFrom C ((data.take n).drop 4) r := by
  unfold decode at h
  split at h
  · cases h
  · rename_i hmin
    dsimp only at h
    split at h
    · cases h
    · rename_i hwhole
      have hlen := body_length (not_lt.1 hwhole)
      split at h
      · cases h
      · rename_i hcrc
        split at h
        · cases h
        · rename_i hmagic
          split at h
          · cases h
          · rename_i hversion
            split at h
            · cases h
            · rename_i recordType htype
              split at h
              · cases h
              · rename_i hroom
                cases h
                refine ⟨rfl, not_lt.1 hwhole, not_lt.1 hmin, ?_, not_not.1 hmagic,
                  not_not.1 hversion, htype,
                  rfl, rfl, rfl, rfl, rfl, not_lt.1 hroom, rfl⟩
                rw [hlen]
                exact not_not.1 hcrc

theorem RecordType.toU8_fromU8 {tag : UInt8} {t : RecordType} (h : RecordType.fromU8 tag = some t) :
    t.toU8 = tag := by
  unfold RecordType.fromU8 at h
  split_ifs at h with h0 h1 h2
  · cases h
    exact h0.symm
  · cases h
    exact h1.symm
  · cases h
    exact h2.symm

theorem leBytes_u64 {body : Bytes} (h : off + 8 ≤ body.length) :
    leBytes 8 (UInt64.ofNat (readLe 8 body off)).toNat = (body.drop off).take 8 := by
  have hlt : readLe 8 body off < UInt64.size := readLe_lt body
  rw [UInt64.toNat_ofNat_of_lt' hlt, leBytes_readLe h]

theorem take_drop_append (body : Bytes) (off a b : ℕ) :
    (body.drop off).take a ++ (body.drop (off + a)).take b = (body.drop off).take (a + b) := by
  rw [take_add, drop_drop]

namespace ReadFrom

variable {body : Bytes}

theorem payload_length (h : ReadFrom C body r) : r.payload.length = readLe 4 body 47 := by
  have hroom := h.room
  rw [h.payload, length_take, length_drop]
  omega

theorem headerBody (h : ReadFrom C body r) : r.headerBody = body.take 51 := by
  have hroom := h.room
  have htag : [r.recordType.toU8] = (body.drop 6).take 1 := by
    rw [RecordType.toU8_fromU8 h.recordType, getD_eq_getElem?_getD,
      getElem?_eq_getElem (show 6 < body.length by omega), drop_eq_getElem_cons
        (show 6 < body.length by omega)]
    rfl
  rw [RawRecord.headerBody, ← h.magic, ← h.version, htag, h.groupId, h.term, h.slot, h.ballotRound,
    h.ballotLeaderId, h.payload_length, leBytes_readLe (by omega), leBytes_readLe (by omega),
    leBytes_u64 (by omega), leBytes_u64 (by omega), leBytes_u64 (by omega), leBytes_u64 (by omega),
    leBytes_u64 (by omega), leBytes_readLe (by omega)]
  -- the fields lie one behind the other
  rw [take_drop_append body 39 8 4, take_drop_append body 31 8 12, take_drop_append body 23 8 20,
    take_drop_append body 15 8 28, take_drop_append body 7 8 36, take_drop_append body 6 1 44,
    take_drop_append body 4 2 45, take_drop_append body 0 4 47]
  rfl

theorem encode (h : ReadFrom C body r) (hfull : body.length ≤ 51 + readLe 4 body 47 + 4)
    (hfit : body.length < 0x100000000) : r.encode C = some (leBytes 4 body.length ++ body) := by
  have hroom := h.room
  have hlen : r.frameLen = body.length := by
    rw [frameLen, h.payload_length, headerBodyLen]
    omega
  have hcut : body.length - 4 = 51 + readLe 4 body 47 := by omega
  have hbody : r.headerBody ++ r.payload = body.take (body.length - 4) := by
    rw [h.headerBody, h.payload, hcut, take_add]
  have hcrc : leBytes 4 (C.crc32c (r.headerBody ++ r.payload)).toNat =
    body.drop (body.length - 4) := by
    have hlt : readLe 4 body (body.length - 4) < UInt32.size := readLe_lt body
    rw [hbody, ← h.crc, UInt32.toNat_ofNat_of_lt' hlt, leBytes_readLe (by omega)]
    refine take_of_length_le ?_
    rw [length_drop]
    omega
  have hframe : r.frameLen < 2 ^ 32 := by
    rw [hlen]
    exact hfit
  rw [RawRecord.encode, encodeFrame, if_pos hframe, map_some, RecordFrame.ioSlices]
  simp only [flatten_cons, flatten_nil, append_nil]
  rw [Crc32c.crc32c, C.update_append, ← Crc32c.crc32c, hcrc, ← append_assoc r.headerBody,
    hbody, take_append_drop, hlen]

end ReadFrom

theorem encode_of_decode (h : decode C data = .ok (r, n))
    (hfull : readLe 4 data 0 ≤ headerBodyLen + readLe 4 (frameBody data) 47 + 4) :
    r.encode C = some (data.take n) := by
  obtain ⟨rfl, hn, _, hread⟩ := decode_eq_ok h
  have hlen := body_length hn
  have hframe : readLe 4 data 0 < 0x100000000 := readLe_lt data
  have htotal : data.take (4 + readLe 4 data 0) =
      leBytes 4 (readLe 4 data 0) ++ (data.take (4 + readLe 4 data 0)).drop 4 := by
    rw [leBytes_readLe (by omega), drop_zero]
    conv_lhs => rw [← take_append_drop 4 (data.take (4 + readLe 4 data 0))]
    rw [take_take, Nat.min_eq_left (by omega)]
  rw [hread.encode (by rw [hlen]; exact hfull) (by omega), hlen, ← htotal]

/-! ## When decoding is total -/

theorem reencodes_error (C : Crc32c) (data : Bytes) (e : RecordError) :
    Reencodes C data (some (.error e)) :=
  ⟨_, rfl, nofun⟩

theorem not_reencodes_none (C : Crc32c) (data : Bytes) : ¬ Reencodes C data none :=
  fun ⟨_, h, _⟩ => nomatch h

/-- A frame that is shorter than a header: an error, or the panic of a read past its end. -/
theorem reencodes_short_iff (hmin : minRecordSize ≤ data.length)
    (hwhole : 4 + readLe 4 data 0 ≤ data.length)
    (hshort : readLe 4 data 0 < headerBodyLen) : Reencodes C data (tryDecode C data) ↔
      FrameFits C data := by
  have hlen := body_length hwhole
  unfold tryDecode FrameFits CrcMatches frameBody
  simp only [if_neg hmin.not_gt, if_neg hwhole.not_gt, hmin, hwhole, true_imp_iff, hshort.not_ge,
    false_and, imp_false,
    Bool.not_eq_true, Option.isSome_eq_false_iff, Option.isNone_iff_eq_none]
  generalize (data.take (4 + readLe 4 data 0)).drop 4 = body at hlen ⊢
  generalize readLe 4 data 0 = frameLen at hlen hshort ⊢
  by_cases h4 : frameLen < 4
  · rw [if_pos h4]
    exact iff_of_false (not_reencodes_none C data) fun h => h4.not_ge h.1
  rw [if_neg h4]
  simp only [not_lt.mp h4, true_and]
  by_cases hcrc : UInt32.ofNat (readLe 4 body (frameLen - 4)) = C.crc32c (body.take (frameLen - 4))
  swap
  · rw [if_pos hcrc]
    exact iff_of_true (reencodes_error ..) fun h => absurd h hcrc
  simp only [hcrc, true_imp_iff, ne_eq, not_true_eq_false, if_false,
    readChecked_eq (show 0 + 4 ≤ body.length by omega), bind_eq_bind, bind_some]
  by_cases hmagic : readLe 4 body 0 = walMagic
  swap
  · rw [if_pos hmagic]
    exact iff_of_true (reencodes_error ..) fun h => absurd h hmagic
  simp only [hmagic, true_imp_iff, not_true_eq_false, if_false]
  by_cases h6 : frameLen < 6
  · rw [readChecked, if_neg (by omega)]
    exact iff_of_false (not_reencodes_none C data) fun h => h6.not_ge h.1
  simp only [not_lt.mp h6, true_and, readChecked_eq (show 4 + 2 ≤ body.length by omega), bind_some]
  by_cases hversion : readLe 2 body 4 = walVersion
  swap
  · rw [if_pos hversion]
    exact iff_of_true (reencodes_error ..) fun h => absurd h hversion
  simp only [hversion, true_imp_iff, not_true_eq_false, if_false]
  by_cases h7 : frameLen < 7
  · rw [getElem?_eq_none (by omega)]
    exact iff_of_false (not_reencodes_none C data) fun h => h7.not_ge h.1
  have htag : body[6]? = some (body.getD 6 0) := by
    rw [getD_eq_getElem?_getD, getElem?_eq_getElem (by omega)]
    rfl
  simp only [not_lt.mp h7, true_and, htag, bind_some]
  cases RecordType.fromU8 (body.getD 6 0) with
  | none => exact iff_of_true (reencodes_error ..) rfl
  | some recordType =>
    refine iff_of_false (fun ⟨res, hres, _⟩ => ?_) nofun
    -- the reads up to the length of the payload do not fit
    simp only [bind_eq_some_iff] at hres
    obtain ⟨_, -, _, -, _, -, _, -, _, -, payloadLen, hpayload, -⟩ := hres
    rw [readChecked, if_neg (by rw [hlen]; exact hshort.not_ge)] at hpayload
    cases hpayload

theorem reencodes_long_iff (hwhole : 4 + readLe 4 data 0 ≤ data.length)
    (hmin : minRecordSize ≤ data.length)
    (hlong : headerBodyLen ≤ readLe 4 data 0) : Reencodes C data (tryDecode C data) ↔
      FrameFits C data := by
  have hlong' : 51 ≤ readLe 4 data 0 := hlong
  have hlen := body_length hwhole
  rw [tryDecode_eq_decode fun _ _ => hlong]
  constructor
  · rintro ⟨_, ⟨⟩, hok⟩ - -
    refine ⟨by omega, fun hcrc hmagic =>
      ⟨by omega, fun hversion => ⟨by omega, fun htype => ⟨hlong, ?_⟩⟩⟩⟩
    by_contra hroom
    obtain ⟨recordType, htype⟩ := isSome_iff_exists.mp htype
    -- the record that is read is shorter than its frame
    have hdecode : ∃ r, decode C data = .ok (r, 4 + readLe 4 data 0) := by
      unfold CrcMatches frameBody at hcrc
      unfold frameBody at hmagic hversion htype hroom
      rw [headerBodyLen] at hroom
      simp only [decode, if_neg hmin.not_gt, if_neg hwhole.not_gt, hcrc, hmagic,
        hversion, htype, ne_eq,
        not_true_eq_false, if_false, hlen]
      rw [if_neg (by omega)]
      exact ⟨_, rfl⟩
    obtain ⟨r, hr⟩ := hdecode
    obtain ⟨-, -, -, hread⟩ := decode_eq_ok hr
    have hlength := encode_length C (hok r _ hr).2
    rw [frameLen, hread.payload_length, length_take, Nat.min_eq_left hwhole] at hlength
    unfold frameBody at hroom
    omega
  · intro h
    refine ⟨_, rfl, fun r n hok => ?_⟩
    obtain ⟨rfl, -, -, hread⟩ := decode_eq_ok hok
    have hcrc := hread.crc
    rw [hlen] at hcrc
    obtain ⟨-, hversion⟩ := (h hmin hwhole).2 hcrc hread.magic
    obtain ⟨-, htype⟩ := hversion hread.version
    exact ⟨hwhole, encode_of_decode hok (htype (isSome_iff_exists.mpr ⟨_, hread.recordType⟩)).2⟩

/-- **Decoding is total**, an error or a record that encodes to what was consumed, exactly when the
    frame fits. -/
theorem tryDecode_reencodes_iff (C : Crc32c) (data : Bytes) :
    Reencodes C data (tryDecode C data) ↔ FrameFits C data := by
  by_cases hmin : minRecordSize ≤ data.length
  · by_cases hwhole : 4 + readLe 4 data 0 ≤ data.length
    · rcases lt_or_ge (readLe 4 data 0) headerBodyLen with hshort | hlong
      · exact reencodes_short_iff hmin hwhole hshort
      · exact reencodes_long_iff hwhole hmin hlong
    · rw [tryDecode, if_neg hmin.not_gt, if_pos (not_le.mp hwhole)]
      exact iff_of_true (reencodes_error ..) fun _ h => absurd h hwhole
  · rw [tryDecode, if_pos (not_le.mp hmin)]
    exact iff_of_true (reencodes_error ..) fun h => absurd h hmin

/-- A promise of ballot `(2, 1)` in slot `5`. -/
def promise : RawRecord := ⟨.promised, 7, 3, 5, 2, 1, []⟩

/-! ### What is not read back -/

/-- The promise, with a byte that belongs to no field between the payload and the checksum. -/
def promiseAndByte (C : Crc32c) : Bytes :=
  leBytes 4 56 ++ (promise.headerBody ++
    ([7] ++ leBytes 4 (C.crc32c (promise.headerBody ++ [7])).toNat))

theorem decode_promiseAndByte (C : Crc32c) : decode C (promiseAndByte C) = .ok (promise, 60) := by
  have hlen : (promise.headerBody ++ [7]).length = 52 := by simp
  have hbody : promise.headerBody ++ [7] = promise.headerBody ++ (promise.payload ++ [7]) := rfl
  have h := decode_frame C hbody (by rw [hlen]; decide)
  rwa [hlen, append_assoc] at h

/-- A frame length of zero panics; and a record is read from sixty bytes that encodes to others. -/
theorem tryDecode_panics_and_drops :
    (∀ C : Crc32c, ¬ Reencodes C (List.replicate 59 0) (tryDecode C (List.replicate 59 0))) ∧
      ∀ C : Crc32c, ¬ Reencodes C (promiseAndByte C) (tryDecode C (promiseAndByte C)) := by
  refine ⟨fun C => not_reencodes_none C _, fun C ⟨res, hres, hok⟩ => ?_⟩
  have hframe : readLe 4 (promiseAndByte C) 0 = 56 := readLe_zero _ (by decide)
  rw [tryDecode_eq_decode fun _ _ => by rw [hframe]; decide, decode_promiseAndByte] at hres
  have hlen := encode_length C (hok _ _ (some.inj hres).symm).2
  simp [promiseAndByte, frameLen, promise, headerBodyLen] at hlen

end RawRecord

end CrowDB
