/-
  The WAL record codec (`wal/record.rs`): binary frames and text lines.

  `RawRecord` is the record as it is written, one struct with a type tag; `WALRecord.toRaw` and
  `RawRecord.toWALRecord` relate it to the three kinds of records the rest of the model speaks of.

  The checksum is ISA-L's `crc32_iscsi`, a library outside the repository: any function that may be
  continued over a second buffer (`Crc32c`).
-/
import CrowDB.Lib.ByteCodec
import CrowDB.Wal.Record

namespace CrowDB

open Lib List

/-- The checksum, by what `crc32c` needs of `crc32c_update`. -/
structure Crc32c where
  update : UInt32 → Bytes → UInt32
  update_append : ∀ c a b, update (update c a) b = update c (a ++ b)

/-- `crc32c`. -/
def Crc32c.crc32c (C : Crc32c) (data : Bytes) : UInt32 := C.update 0 data

/-! ## Records -/

/-- `RecordType`. -/
inductive RecordType where
  | promised
  | accepted
  | voteGranted
deriving DecidableEq

/-- Why a text line is refused (the text of `RecordError::BadText`). -/
inductive TextError where
  | missingCrc
  | missingPrefix
  | badPrefix (found : Bytes)
  | malformedField (field : Bytes)
  | unknownField (key : Bytes)
  | missingField (name : Bytes)
  | unknownRecordType (value : Bytes)
  | invalidNumber (field : Bytes) (e : ParseIntError)
  | oddPayloadHex
  | invalidHexDigit (c : UInt8)
  | invalidUtf8
deriving DecidableEq

/-- `RecordError`. -/
inductive RecordError where
  | truncated
  | badCrc (expected got : UInt32)
  | badMagic (magic : ℕ)
  | badVersion (version : ℕ)
  | badRecordType (tag : UInt8)
  | badText (msg : TextError)
deriving DecidableEq

namespace RecordType

/-- The tag of a type. -/
def toU8 : RecordType → UInt8
  | promised => 0
  | accepted => 1
  | voteGranted => 2

/-- The type of a tag. -/
def fromU8 (v : UInt8) : Option RecordType :=
  if v = 0 then some promised else if v = 1 then some accepted
  else if v = 2 then some voteGranted else none

/-- The name of a type. -/
def asStr : RecordType → Bytes
  | promised => ascii "Promised"
  | accepted => ascii "Accepted"
  | voteGranted => ascii "VoteGranted"

/-- The type of a name. -/
def fromName (value : Bytes) : Except RecordError RecordType :=
  if value = ascii "Promised" then .ok promised
  else if value = ascii "Accepted" then .ok accepted
  else if value = ascii "VoteGranted" then .ok voteGranted
  else .error (.badText (.unknownRecordType value))

@[simp] theorem fromU8_toU8 (t : RecordType) : fromU8 t.toU8 = some t := by cases t <;> rfl

@[simp] theorem fromName_asStr (t : RecordType) : fromName t.asStr = .ok t := by cases t <;> decide

end RecordType

/-- One WAL record, as the struct `WALRecord` of the source has it. -/
structure RawRecord where
  recordType : RecordType
  groupId : UInt64
  term : UInt64
  slot : UInt64
  ballotRound : UInt64
  ballotLeaderId : UInt64
  payload : Bytes
deriving DecidableEq

/-! ## Binary frames -/

def walMagic : ℕ := 0x43524F57
def walVersion : ℕ := 1
/-- Size of the header body, the magic through `payload_len`. -/
def headerBodyLen : ℕ := 51
/-- `frame_len`, header body and checksum. -/
def minRecordSize : ℕ := 4 + headerBodyLen + 4

namespace RawRecord

/-- The fixed-size header body, everything after `frame_len` and before the payload. -/
def headerBody (r : RawRecord) : Bytes :=
  leBytes 4 walMagic ++ (leBytes 2 walVersion ++ ([r.recordType.toU8] ++ (leBytes 8 r.groupId.toNat ++
    (leBytes 8 r.term.toNat ++ (leBytes 8 r.slot.toNat ++ (leBytes 8 r.ballotRound.toNat ++
      (leBytes 8 r.ballotLeaderId.toNat ++ leBytes 4 r.payload.length)))))))

/-- The length a frame declares: header body, payload and checksum. -/
def frameLen (r : RawRecord) : ℕ := headerBodyLen + r.payload.length + 4

end RawRecord

/-- A binary frame, in the pieces of one vectored write. -/
structure RecordFrame where
  frameLen : Bytes
  header : Bytes
  payload : Bytes
  crc : Bytes
deriving DecidableEq

namespace RecordFrame

/-- `total_len`. -/
def totalLen (f : RecordFrame) : ℕ := 4 + headerBodyLen + f.payload.length + 4

/-- `io_slices`. -/
def ioSlices (f : RecordFrame) : List Bytes := [f.frameLen, f.header, f.payload, f.crc]

end RecordFrame

namespace RawRecord

variable (C : Crc32c) {r : RawRecord} {bs : Bytes}

/-- The frame of a record; `none` is the panic on a length that does not fit `u32`. -/
def encodeFrame (r : RawRecord) : Option RecordFrame :=
  if r.frameLen < 2 ^ 32 then
    some {
      frameLen := leBytes 4 r.frameLen
      header := r.headerBody
      payload := r.payload
      crc := leBytes 4 (C.update (C.crc32c r.headerBody) r.payload).toNat }
  else none

/-- The on-disk layout of a binary record. -/
def encode (r : RawRecord) : Option Bytes := (r.encodeFrame C).map fun f => f.ioSlices.flatten

/-- One record from the start of `data`, and the bytes consumed.  With a declared length below `4` the
    source's `frame_len - 4` underflows and it panics; here it is `0`, and the frame has no magic. -/
def decode (data : Bytes) : Except RecordError (RawRecord × ℕ) :=
  if data.length < minRecordSize then .error .truncated
  else
    let frameLen := readLe 4 data 0
    let total := 4 + frameLen
    if data.length < total then .error .truncated
    else
      let body := (data.take total).drop 4
      let crcStored := UInt32.ofNat (readLe 4 body (frameLen - 4))
      let crcComputed := C.crc32c (body.take (frameLen - 4))
      let magic := readLe 4 body 0
      let version := readLe 2 body 4
      let tag := body.getD 6 0
      let payloadLen := readLe 4 body 47
      if crcStored ≠ crcComputed then .error (.badCrc crcComputed crcStored)
      else if magic ≠ walMagic then .error (.badMagic magic)
      else if version ≠ walVersion then .error (.badVersion version)
      else match RecordType.fromU8 tag with
        | none => .error (.badRecordType tag)
        | some recordType =>
          if 51 + payloadLen + 4 > body.length then .error .truncated
          else .ok ({
            recordType := recordType
            groupId := UInt64.ofNat (readLe 8 body 7)
            term := UInt64.ofNat (readLe 8 body 15)
            slot := UInt64.ofNat (readLe 8 body 23)
            ballotRound := UInt64.ofNat (readLe 8 body 31)
            ballotLeaderId := UInt64.ofNat (readLe 8 body 39)
            payload := (body.drop 51).take payloadLen }, total)

@[simp] theorem headerBody_length (r : RawRecord) : r.headerBody.length = 51 := by
  simp [headerBody]

theorem encode_eq_some (h : r.encode C = some bs) :
    r.frameLen < 2 ^ 32 ∧ bs = leBytes 4 r.frameLen ++ (r.headerBody ++ (r.payload ++
      leBytes 4 (C.crc32c (r.headerBody ++ r.payload)).toNat)) := by
  unfold encode encodeFrame at h
  split at h
  · rename_i hl
    refine ⟨hl, ?_⟩
    simp only [Option.map_some, Option.some.injEq] at h
    rw [← h, Crc32c.crc32c, Crc32c.crc32c, C.update_append]
    simp [RecordFrame.ioSlices]
  · simp at h

theorem encode_length (h : r.encode C = some bs) : bs.length = 4 + r.frameLen := by
  rw [(encode_eq_some C h).2]
  simp only [length_append, leBytes_length, headerBody_length, frameLen, headerBodyLen]
  omega

theorem headerBody_fields (hp : r.payload.length < 2 ^ 32) (post : Bytes) :
    readLe 4 (r.headerBody ++ post) 0 = walMagic ∧ readLe 2 (r.headerBody ++ post) 4 = walVersion ∧
      (r.headerBody ++ post).getD 6 0 = r.recordType.toU8 ∧
      readLe 8 (r.headerBody ++ post) 7 = r.groupId.toNat ∧
      readLe 8 (r.headerBody ++ post) 15 = r.term.toNat ∧
      readLe 8 (r.headerBody ++ post) 23 = r.slot.toNat ∧
      readLe 8 (r.headerBody ++ post) 31 = r.ballotRound.toNat ∧
      readLe 8 (r.headerBody ++ post) 39 = r.ballotLeaderId.toNat ∧
      readLe 4 (r.headerBody ++ post) 47 = r.payload.length := by
  have h64 : ∀ x : UInt64, x.toNat < 256 ^ 8 := fun x => x.toNat_lt
  have hp : r.payload.length < 256 ^ 4 := by omega
  have hmagic : walMagic < 256 ^ 4 := by decide
  have hversion : walVersion < 256 ^ 2 := by decide
  simp only [headerBody, append_assoc]
  refine ⟨readLe_zero _ hmagic, ?_, by simp [List.getElem?_append], ?_, ?_, ?_, ?_, ?_, ?_⟩
  all_goals simp [-Nat.reducePow, readLe_append_right, readLe_cons, readLe_zero, h64, hversion, hp]

theorem decode_frame {extra body : Bytes} (hbody : body = r.headerBody ++ (r.payload ++ extra))
    (hfit : body.length + 4 < 2 ^ 32) :
    decode C (leBytes 4 (body.length + 4) ++ (body ++ leBytes 4 (C.crc32c body).toNat)) =
      .ok (r, 4 + (body.length + 4)) := by
  set crc := C.crc32c body with hcrc
  have hlen : body.length = 51 + r.payload.length + extra.length := by
    rw [hbody, length_append, length_append, headerBody_length]; omega
  have hdata : (leBytes 4 (body.length + 4) ++ (body ++ leBytes 4 crc.toNat)).length =
    4 + (body.length + 4) := by
    simp
  have htake : ((leBytes 4 (body.length + 4) ++ (body ++ leBytes 4 crc.toNat)).take
    (4 + (body.length + 4))).drop 4 =
      body ++ leBytes 4 crc.toNat := by
    rw [← hdata, take_length]; exact drop_left' (leBytes_length 4 _)
  have hread : readLe 4 (body ++ leBytes 4 crc.toNat) body.length = crc.toNat := by
    have := readLe_append (w := 4) (n := crc.toNat) [] (rfl : body.length = body.length) crc.toNat_lt
    rwa [append_nil] at this
  have hsplit : body ++ leBytes 4 crc.toNat = r.headerBody ++
    (r.payload ++ (extra ++ leBytes 4 crc.toNat)) := by
    simp only [hbody, append_assoc]
  have hpay : ((body ++ leBytes 4 crc.toNat).drop 51).take r.payload.length = r.payload := by
    rw [hsplit, drop_left' (headerBody_length r)]; exact take_left' rfl
  obtain ⟨h1, h2, h3, h4, h5, h6, h7, h8, h9⟩ :=
    headerBody_fields (r := r) (by omega) (r.payload ++ (extra ++ leBytes 4 crc.toNat))
  rw [← hsplit] at h1 h2 h3 h4 h5 h6 h7 h8 h9
  have hroom : ¬ 51 + r.payload.length + 4 > (body ++ leBytes 4 crc.toNat).length := by
    rw [length_append, leBytes_length]; omega
  simp only [decode, hdata, readLe_zero (w := 4) _ hfit, htake, Nat.add_sub_cancel, hread,
    take_left, h1, h2, h3, h4,
    h5, h6, h7, h8, h9, hpay, RecordType.fromU8_toU8]
  rw [if_neg (by simp only [minRecordSize, headerBodyLen]; omega), if_neg (by omega),
    if_neg (by simp [hcrc]), if_neg (by simp),
    if_neg (by simp), if_neg hroom]
  simp

/-- **A frame is read back**, whatever follows it. -/
theorem decode_encode (h : r.encode C = some bs) : decode C bs = .ok (r, bs.length) := by
  have hlen := encode_length C h
  obtain ⟨hfit, hbs⟩ := encode_eq_some C h
  have hframe : (r.headerBody ++ r.payload).length + 4 = r.frameLen := by
    simp [frameLen, headerBodyLen]
  have hbody : r.headerBody ++ r.payload = r.headerBody ++ (r.payload ++ []) := by rw [append_nil]
  have hdec := decode_frame C hbody (hframe ▸ hfit)
  rwa [hframe, ← hlen, append_assoc, ← hbs] at hdec

theorem decode_consumed {data : Bytes} {n : ℕ} (h : decode C data = .ok (r, n)) : 4 ≤ n := by
  unfold decode at h
  dsimp only at h
  cases htag : RecordType.fromU8 (((data.take (4 + readLe 4 data 0)).drop 4).getD 6 0) with
  | none => rw [htag] at h; split_ifs at h
  | some =>
    rw [htag] at h
    split_ifs at h
    cases h
    omega

end RawRecord

/-! ## Text lines -/

/-- The first word of a line. -/
def textMark : Bytes := ascii "CROWDB_WAL_TEXT"

/-- What the checksum stands behind. -/
def crcMark : Bytes := ascii " crc32c="
def space : UInt8 := 32
def equalsSign : UInt8 := 61
def newline : UInt8 := 10

/-- A decimal field of a text line. -/
def decimal (n : ℕ) : Bytes := renderRadix 10 n

/-- `key=value`. -/
def keyed (key value : Bytes) : Bytes := key ++ equalsSign :: value

/-- `nibble_to_hex`. -/
def nibbleToHex (value : ℕ) : UInt8 := digitByte value

/-- `encode_hex`. -/
def encodeHex (bytes : Bytes) : Bytes :=
  bytes.flatMap fun b => [nibbleToHex (b.toNat / 16), nibbleToHex (b.toNat % 16)]

/-- `hex_to_nibble`. -/
def hexToNibble (value : UInt8) : Except RecordError ℕ :=
  match toDigit 16 value with
  | some d => .ok d
  | none => .error (.badText (.invalidHexDigit value))

/-- The loop of `decode_hex`. -/
def decodeHexPairs : Bytes → Except RecordError Bytes
  | high :: low :: rest => do
    let h ← hexToNibble high
    let l ← hexToNibble low
    let out ← decodeHexPairs rest
    return UInt8.ofNat (16 * h + l) :: out
  | _ => .ok []

/-- `decode_hex`. -/
def decodeHex (value : Bytes) : Except RecordError Bytes :=
  if value.length % 2 ≠ 0 then .error (.badText .oddPayloadHex) else decodeHexPairs value

/-- A number of a named field: `parse_u16`, `parse_u64` and `parse_hex_u32`. -/
def parseNumber (radix max : ℕ) (field value : Bytes) : Except RecordError ℕ :=
  match parseRadix radix max value with
  | .ok n => .ok n
  | .error e => .error (.badText (.invalidNumber field e))

/-- `parse_u16`. -/
def parseU16 (value field : Bytes) : Except RecordError ℕ := parseNumber 10 (2 ^ 16 - 1) field value

/-- `parse_u64`. -/
def parseU64 (value field : Bytes) : Except RecordError UInt64 :=
  (parseNumber 10 (2 ^ 64 - 1) field value).map UInt64.ofNat

/-- `parse_hex_u32`. -/
def parseHexU32 (value : Bytes) : Except RecordError UInt32 :=
  (parseNumber 16 (2 ^ 32 - 1) (ascii "crc32c") value).map UInt32.ofNat

/-- The line `body`, closed by its own checksum and a line end. -/
def sealLine (C : Crc32c) (body : Bytes) : Bytes :=
  body ++ (crcMark ++ (renderPadded 16 8 (C.crc32c body).toNat ++ [newline]))

/-- The body of a line whose checksum is right. -/
def openLine (C : Crc32c) (line : Bytes) : Except RecordError Bytes := do
  let line := trimEnd (fun c => c = 13 || c = newline) line
  let some (body, crcHex) := rsplitOnce crcMark line | throw (.badText .missingCrc)
  let got ← parseHexU32 crcHex
  let expected := C.crc32c body
  if got ≠ expected then throw (.badCrc expected got)
  return body

/-- The value of a field that has to be there. -/
def require {α : Type} (name : Bytes) : Option α → Except RecordError α
  | some a => .ok a
  | none => .error (.badText (.missingField name))

/-- The keys of a text line. -/
inductive TextKey where
  | v
  | type
  | groupId
  | term
  | slot
  | ballotRound
  | ballotLeaderId
  | payloadHex
deriving DecidableEq

namespace TextKey

/-- The key as written. -/
def text : TextKey → Bytes
  | v => ascii "v"
  | type => ascii "type"
  | groupId => ascii "group_id"
  | term => ascii "term"
  | slot => ascii "slot"
  | ballotRound => ascii "ballot_round"
  | ballotLeaderId => ascii "ballot_leader_id"
  | payloadHex => ascii "payload_hex"

/-- The key that is read. -/
def ofText (key : Bytes) : Option TextKey :=
  [v, type, groupId, term, slot, ballotRound, ballotLeaderId, payloadHex].find? (·.text = key)

@[simp] theorem ofText_text (k : TextKey) : ofText k.text = some k := by cases k <;> decide

theorem equalsSign_notMem_text (k : TextKey) : equalsSign ∉ k.text := by cases k <;> decide

end TextKey

/-- The fields of a text record seen so far. -/
structure TextFields where
  version : Option ℕ := none
  recordType : Option RecordType := none
  groupId : Option UInt64 := none
  term : Option UInt64 := none
  slot : Option UInt64 := none
  ballotRound : Option UInt64 := none
  ballotLeaderId : Option UInt64 := none
  payload : Option Bytes := none

namespace TextFields

/-- A field is read. -/
def set (t : TextFields) (key : TextKey) (value : Bytes) : Except RecordError TextFields := do
  match key with
  | .v => return { t with version := some (← parseU16 value key.text) }
  | .type => return { t with recordType := some (← RecordType.fromName value) }
  | .groupId => return { t with groupId := some (← parseU64 value key.text) }
  | .term => return { t with term := some (← parseU64 value key.text) }
  | .slot => return { t with slot := some (← parseU64 value key.text) }
  | .ballotRound => return { t with ballotRound := some (← parseU64 value key.text) }
  | .ballotLeaderId => return { t with ballotLeaderId := some (← parseU64 value key.text) }
  | .payloadHex => return { t with payload := some (← decodeHex value) }

/-- A `key=value` word is read. -/
def readField (t : TextFields) (field : Bytes) : Except RecordError TextFields :=
  match splitOnce equalsSign field with
  | none => .error (.badText (.malformedField field))
  | some (key, value) =>
    match TextKey.ofText key with
    | none => .error (.badText (.unknownField key))
    | some key => t.set key value

/-- The record, once every field has been seen. -/
def toRecord (t : TextFields) : Except RecordError RawRecord := do
  let version ← require TextKey.v.text t.version
  if version ≠ walVersion then throw (.badVersion version)
  return {
    recordType := ← require TextKey.type.text t.recordType
    groupId := ← require TextKey.groupId.text t.groupId
    term := ← require TextKey.term.text t.term
    slot := ← require TextKey.slot.text t.slot
    ballotRound := ← require TextKey.ballotRound.text t.ballotRound
    ballotLeaderId := ← require TextKey.ballotLeaderId.text t.ballotLeaderId
    payload := ← require TextKey.payloadHex.text t.payload }

end TextFields

namespace RawRecord

variable (C : Crc32c)

/-- The fields of a text line, in the order they are written. -/
def textFields (r : RawRecord) : List Bytes :=
  [keyed TextKey.v.text (decimal walVersion), keyed TextKey.type.text r.recordType.asStr,
    keyed TextKey.groupId.text (decimal r.groupId.toNat),
    keyed TextKey.term.text (decimal r.term.toNat), keyed TextKey.slot.text (decimal r.slot.toNat),
    keyed TextKey.ballotRound.text (decimal r.ballotRound.toNat),
    keyed TextKey.ballotLeaderId.text (decimal r.ballotLeaderId.toNat),
    keyed TextKey.payloadHex.text (encodeHex r.payload)]

/-- The text of a record, without its checksum. -/
def textBody (r : RawRecord) : Bytes := [space].intercalate (textMark :: r.textFields)

/-- `encode_text_line`. -/
def encodeTextLine (r : RawRecord) : Bytes := sealLine C r.textBody

/-- `decode_text_line`. -/
def decodeTextLine (line : Bytes) : Except RecordError RawRecord := do
  let body ← openLine C line
  match body.splitOn space with
  | [] => throw (.badText .missingPrefix)
  | mark :: fields =>
    if mark ≠ textMark then throw (.badText (.badPrefix mark))
    let t ← fields.foldlM TextFields.readField {}
    t.toRecord

end RawRecord

/-! ### Reading text lines back -/

@[simp] theorem ok_bind {ε α β : Type} (a : α) (f : α → Except ε β) :
    ((Except.ok a : Except ε α) >>= f) = f a := rfl

/-- A byte of a field: ASCII, and no separator of fields or lines. -/
def FieldByte (c : UInt8) : Prop := c ≠ space ∧ c ≠ newline ∧ c ≠ 13 ∧ c < 0x80
deriving Decidable

/-- A set of bytes with the digits and the sign between a key and its value. -/
structure FieldSet (P : UInt8 → Prop) : Prop where
  equalsSign : P equalsSign
  digit : ∀ d < 16, P (digitByte d)

theorem fieldSet_fieldByte : FieldSet FieldByte := ⟨by decide, by decide⟩

namespace FieldSet

variable {P : UInt8 → Prop} (h : FieldSet P) {key value : Bytes}
include h

theorem renderPadded (w n : ℕ) : ∀ c ∈ renderPadded 16 w n, P c := by
  intro c hc
  obtain ⟨d, hd, rfl⟩ := mem_renderPadded (by omega) hc
  exact h.digit d hd

theorem keyed (hk : ∀ c ∈ key, P c) (hv : ∀ c ∈ value, P c) : ∀ c ∈ keyed key value, P c := by
  intro c hc
  rcases mem_append.mp hc with hc | hc
  · exact hk c hc
  · rcases mem_cons.mp hc with rfl | hc
    · exact h.equalsSign
    · exact hv c hc

theorem decimal (hk : ∀ c ∈ key, P c) (n : ℕ) : ∀ c ∈ CrowDB.keyed key (decimal n), P c := by
  refine h.keyed hk fun c hc => ?_
  obtain ⟨d, hd, rfl⟩ := mem_renderRadix (by omega) hc
  exact h.digit d (by omega)

theorem encodeHex (hk : ∀ c ∈ key, P c) (bs : Bytes) :
    ∀ c ∈ CrowDB.keyed key (encodeHex bs), P c := by
  refine h.keyed hk fun c hc => ?_
  obtain ⟨b, -, hb⟩ := mem_flatMap.mp hc
  have hlt := b.toNat_lt
  rcases mem_pair.mp hb with rfl | rfl
  · exact h.digit _ (by omega)
  · exact h.digit _ (by omega)

theorem textFields (hmark : ∀ c ∈ textMark, P c) (htype : ∀ t : RecordType, ∀ c ∈ t.asStr, P c)
    (hkey : ∀ k : TextKey, ∀ c ∈ k.text, P c) (r : RawRecord) :
    ∀ f ∈ textMark :: r.textFields, ∀ c ∈ f, P c := by
  simp only [RawRecord.textFields, forall_mem_cons]
  exact ⟨hmark, h.decimal (hkey _) _, h.keyed (hkey _) (htype _), h.decimal (hkey _) _,
    h.decimal (hkey _) _,
    h.decimal (hkey _) _, h.decimal (hkey _) _, h.decimal (hkey _) _, h.encodeHex (hkey _) _, by simp⟩

end FieldSet

theorem hexToNibble_digitByte {d : ℕ} (h : d < 16) : hexToNibble (digitByte d) = .ok d := by
  rw [hexToNibble, toDigit_digitByte h le_rfl]

theorem decodeHex_encodeHex (bs : Bytes) : decodeHex (encodeHex bs) = .ok bs := by
  have hlen : ∀ bs : Bytes, (encodeHex bs).length = 2 * bs.length := by
    intro bs
    induction bs with
    | nil => rfl
    | cons _ _ ih =>
      simp only [encodeHex, flatMap_cons, length_append, length_cons, length_nil] at ih ⊢
      omega
  have hpairs : decodeHexPairs (encodeHex bs) = .ok bs := by
    induction bs with
    | nil => rfl
    | cons b _ ih =>
      have hlt := b.toNat_lt
      have hb : UInt8.ofNat (16 * (b.toNat / 16) + b.toNat % 16) = b := by
        rw [Nat.div_add_mod, UInt8.ofNat_toNat]
      rw [encodeHex, flatMap_cons, ← encodeHex]
      simp only [cons_append, nil_append, decodeHexPairs, nibbleToHex,
        hexToNibble_digitByte (d := b.toNat / 16) (by omega),
        hexToNibble_digitByte (d := b.toNat % 16) (by omega), ih, ok_bind, hb]
      rfl
  rw [decodeHex, if_neg (by rw [hlen]; omega), hpairs]

theorem parseU64_decimal (n : UInt64) (field : Bytes) : parseU64 (decimal n.toNat) field = .ok n := by
  have hn : n.toNat ≤ 2 ^ 64 - 1 := by have := n.toNat_lt; omega
  rw [parseU64, parseNumber, decimal, parseRadix_render (by omega) (by omega) hn]
  simp [Except.map]

theorem parseHexU32_renderPadded (n : UInt32) : parseHexU32 (renderPadded 16 8 n.toNat) = .ok n := by
  have hn : n.toNat ≤ 2 ^ 32 - 1 := by have := n.toNat_lt; omega
  rw [parseHexU32, parseNumber, parseRadix_renderPadded 8 (by omega) le_rfl hn]
  simp [Except.map]

theorem openLine_sealLine (C : Crc32c) {body : Bytes} (h : ∀ c ∈ body, c ≠ newline ∧ c ≠ 13) :
    openLine C (sealLine C body) = .ok body := by
  set hex := renderPadded 16 8 (C.crc32c body).toNat with hhex
  have hfield : ∀ c ∈ hex, FieldByte c := fieldSet_fieldByte.renderPadded 8 _
  have hmark : ∀ c ∈ crcMark, c ≠ 13 ∧ c ≠ newline := forall_mem_of_all (by decide)
  have htrim : trimEnd (fun c => c = 13 || c = newline) (sealLine C body) = body ++
    (crcMark ++ hex) := by
    have hline : sealLine C body = (body ++ (crcMark ++ hex)) ++ [newline] := by
      simp [sealLine, hhex]
    rw [hline]
    refine trimEnd_append ?_ (by simp)
    intro c hc
    rcases mem_append.mp hc with hb | hc
    · simp [h c hb]
    · rcases mem_append.mp hc with hm | hx
      · simp [hmark c hm]
      · simp [(hfield c hx).2.1, (hfield c hx).2.2.1]
  have hsplit : rsplitOnce crcMark (body ++ (crcMark ++ hex)) = some (body, hex) := by
    refine rsplitOnce_append ?_ body
    intro hs
    rcases mem_append.mp hs with hm | hx
    · revert hm; decide
    · exact (hfield _ hx).1 rfl
  simp only [openLine, htrim, hsplit]
  rw [hhex, parseHexU32_renderPadded, ok_bind, if_neg (by simp)]
  rfl

theorem mem_intercalate_space {P : UInt8 → Prop} {fields : List Bytes}
    (hf : ∀ f ∈ fields, ∀ c ∈ f, P c) :
    ∀ c ∈ [space].intercalate fields, c = space ∨ P c := by
  induction fields with
  | nil => intro c hc; simp at hc
  | cons f fs ih =>
    intro c hc
    have hfs := ih fun f' hf' => hf f' (by simp [hf'])
    cases fs with
    | nil => exact .inr (hf f (by simp) c (by simpa using hc))
    | cons =>
      rcases mem_append.mp hc with h | h
      · exact .inr (hf f (by simp) c h)
      · rcases mem_append.mp h with h | h
        · exact .inl (by simpa using h)
        · exact hfs c h

namespace RawRecord

theorem fieldByte_textFields (r : RawRecord) :
    ∀ f ∈ textMark :: r.textFields, ∀ c ∈ f, FieldByte c := by
  refine fieldSet_fieldByte.textFields (forall_mem_of_all (by decide)) (fun t => ?_) (fun k => ?_) r
  · cases t <;> exact forall_mem_of_all (by decide)
  · cases k <;> exact forall_mem_of_all (by decide)

theorem textBody_bytes (r : RawRecord) : ∀ c ∈ r.textBody, c ≠ newline ∧ c ≠ 13 ∧ c < 0x80 := by
  intro c hc
  rcases mem_intercalate_space r.fieldByte_textFields c hc with rfl | h
  · decide
  · exact h.2

theorem splitOn_textBody (r : RawRecord) : r.textBody.splitOn space = textMark :: r.textFields :=
  splitOn_intercalate space (fun f hf hc => (r.fieldByte_textFields f hf space hc).1 rfl) (by simp)

end RawRecord

theorem TextFields.readField_keyed (t : TextFields) (k : TextKey) (value : Bytes) :
    t.readField (keyed k.text value) = t.set k value := by
  have hsplit : splitOnce equalsSign (keyed k.text value) = some (k.text, value) :=
    splitOnce_append k.equalsSign_notMem_text value
  simp only [readField, hsplit, TextKey.ofText_text]

theorem parseU16_version (field : Bytes) : parseU16 (decimal walVersion) field = .ok walVersion := by
  rw [parseU16, parseNumber, decimal, parseRadix_render (by omega) (by omega) (by decide)]

namespace RawRecord

theorem foldlM_textFields (r : RawRecord) : r.textFields.foldlM TextFields.readField {} = .ok (
      { version := some walVersion, recordType := some r.recordType, groupId := some r.groupId,
        term := some r.term, slot := some r.slot, ballotRound := some r.ballotRound,
        ballotLeaderId := some r.ballotLeaderId, payload := some r.payload } : TextFields) := by
  simp only [textFields, foldlM_cons, foldlM_nil, TextFields.readField_keyed,
    TextFields.set, parseU16_version, RecordType.fromName_asStr, parseU64_decimal,
    decodeHex_encodeHex, ok_bind]
  rfl

/-- **A text line is read back.** -/
theorem decodeTextLine_encode (C : Crc32c) (r : RawRecord) :
    decodeTextLine C (r.encodeTextLine C) = .ok r := by
  have hbody : openLine C (sealLine C r.textBody) = .ok r.textBody :=
    openLine_sealLine C fun c hc => ⟨(r.textBody_bytes c hc).1, (r.textBody_bytes c hc).2.1⟩
  simp only [decodeTextLine, encodeTextLine, hbody, ok_bind, splitOn_textBody]
  rw [if_neg (by simp), foldlM_textFields]
  rfl

end RawRecord

/-! ## The three kinds of records -/

/-- The struct of a record of group `groupId` (`from_promised`, `from_accepted`,
    `from_vote_granted`). -/
def WALRecord.toRaw (groupId : ℕ) : WALRecord → RawRecord
  | .promised term slot ballot =>
    ⟨.promised, .ofNat groupId, .ofNat term, .ofNat slot, .ofNat ballot.round,
      .ofNat ballot.leaderId, []⟩
  | .accepted entry =>
    ⟨.accepted, .ofNat groupId, .ofNat entry.term, .ofNat entry.slot, .ofNat entry.ballot.round,
      .ofNat entry.ballot.leaderId, entry.payload⟩
  | .voteGranted term votedFor =>
    ⟨.voteGranted, .ofNat groupId, .ofNat term, 0, 0, 0, leBytes 8 votedFor⟩

/-- What replay makes of a struct (`to_log_entry`, `voted_for_id`). -/
def RawRecord.toWALRecord (r : RawRecord) : Option WALRecord :=
  let ballot : PxBallot := ⟨r.ballotRound.toNat, r.ballotLeaderId.toNat⟩
  match r.recordType with
  | .promised => some (.promised r.term.toNat r.slot.toNat ballot)
  | .accepted => some (.accepted ⟨r.slot.toNat, ballot, r.term.toNat, r.payload⟩)
  | .voteGranted =>
    if r.payload.length < 8 then none else some (.voteGranted r.term.toNat (readLe 8 r.payload 0))

/-- The numbers of a record fit the `u64` fields they are written to. -/
def WALRecord.FitsU64 : WALRecord → Prop
  | .promised term slot ballot =>
    term < 2 ^ 64 ∧ slot < 2 ^ 64 ∧ ballot.round < 2 ^ 64 ∧ ballot.leaderId < 2 ^ 64
  | .accepted entry => entry.term < 2 ^ 64 ∧ entry.slot < 2 ^ 64 ∧ entry.ballot.round < 2 ^ 64 ∧
      entry.ballot.leaderId < 2 ^ 64
  | .voteGranted term votedFor => term < 2 ^ 64 ∧ votedFor < 2 ^ 64

theorem WALRecord.toWALRecord_toRaw (groupId : ℕ) {r : WALRecord} (h : r.FitsU64) :
    (r.toRaw groupId).toWALRecord = some r := by
  have hn : ∀ {n : ℕ}, n < 2 ^ 64 → (UInt64.ofNat n).toNat = n := fun h =>
    UInt64.toNat_ofNat_of_lt (by simpa [UInt64.size] using h)
  cases r with
  | promised term slot ballot | accepted entry =>
    obtain ⟨h1, h2, h3, h4⟩ := h
    simp [toRaw, RawRecord.toWALRecord, hn h1, hn h2, hn h3, hn h4]
  | voteGranted _ votedFor =>
    obtain ⟨h1, h2⟩ := h
    have hread : readLe 8 (leBytes 8 votedFor) 0 = votedFor := by
      simpa using readLe_zero (w := 8) [] h2
    simp [toRaw, RawRecord.toWALRecord, hn h1, hread]

end CrowDB
