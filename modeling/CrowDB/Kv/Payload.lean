/-
  The payloads of KV writes (`kv/op.rs`, the encoders of `cluster/px_kv_store.rs`).

  A payload is the number of operations as a `u16` and one record per operation; a record is a kind
  byte, the key and the value, both behind their length.  The encoders narrow the number and the
  lengths to their fields, and the decoder puts an empty string for a key or a value that the payload
  is too short for (`readCut`).
-/
import CrowDB.Lib.ByteCodec
import CrowDB.Paxos.Roles

namespace CrowDB.Kv

open Lib List

/-! ## Operations and records -/

/-- A put or a delete. -/
inductive Op where
  | put (value : Bytes)
  | delete
deriving DecidableEq

/-- `BatchOp`. -/
structure BatchOp where
  key : Bytes
  op : Op
deriving DecidableEq

namespace Op

/-- `0` for a put, `1` for a delete. -/
def kind : Op → UInt8
  | .put _ => 0
  | .delete => 1

/-- A delete is written with an empty value. -/
def value : Op → Bytes
  | .put v => v
  | .delete => []

/-- The operation with its value cut off. -/
def clear : Op → Op
  | .put _ => .put []
  | .delete => .delete

end Op

/-- One record; the lengths are narrowed to `u32`. -/
def encodeRecord (kind : UInt8) (key value : Bytes) : Bytes :=
  kind :: (leBytes 4 key.length ++ (key ++ (leBytes 4 value.length ++ value)))

variable (o : BatchOp)

/-- The record of an operation. -/
def BatchOp.encode : Bytes := encodeRecord o.op.kind o.key o.op.value

/-- `encode_kv_payload`: keys with a value, or without one for a delete. -/
def encodeKvPayload (ops : List (Bytes × Option Bytes)) : Bytes :=
  leBytes 2 ops.length ++ ops.flatMap fun p =>
    encodeRecord (if p.2.isNone then 1 else 0) p.1 (p.2.getD [])

/-- `KvBatchItem`. -/
structure KvBatchItem where
  key : Bytes
  value : Bytes
  isDelete : Bool
deriving DecidableEq

/-- `encode_kv_batch_items`. -/
def encodeKvBatchItems (items : List KvBatchItem) : Bytes :=
  leBytes 2 items.length ++ items.flatMap fun item =>
    encodeRecord (if item.isDelete then 1 else 0) item.key (if item.isDelete then [] else item.value)

/-- The operation of an item. -/
def KvBatchItem.op (item : KvBatchItem) : BatchOp :=
  ⟨item.key, if item.isDelete then .delete else .put item.value⟩

/-- The operation of a pair. -/
def opOf (p : Bytes × Option Bytes) : BatchOp := ⟨p.1, p.2.elim .delete .put⟩

/-! ## The decoder -/

/-- `read_u32_le`: zero where the buffer is too short. -/
def readU32Le (buf : Bytes) (offset : ℕ) : ℕ :=
  if offset + 4 ≤ buf.length then readLe 4 buf offset else 0

/-- A part of the buffer, empty where the buffer is too short. -/
def slice (buf : Bytes) (offset len : ℕ) : Bytes :=
  if offset + len ≤ buf.length then (buf.drop offset).take len else []

/-- The loop of `Batch::decode` from an offset on. -/
def decodeOps (payload : Bytes) : ℕ → ℕ → List BatchOp
  | 0, _ => []
  | count + 1, offset =>
    match payload[offset]? with
    | none => []
    | some kind =>
      let keyLen := readU32Le payload (offset + 1)
      let key := slice payload (offset + 5) keyLen
      let valueLen := readU32Le payload (offset + 5 + keyLen)
      let value := slice payload (offset + 9 + keyLen) valueLen
      ⟨key, if kind = 0 then .put value else .delete⟩ :: decodeOps payload count
        (offset + 9 + keyLen + valueLen)

/-- `Batch::decode`. -/
def decode (payload : Bytes) : List BatchOp :=
  if payload = [] then [] else decodeOps payload (leNat [payload[0]?.getD 0, payload[1]?.getD 0]) 2

/-! ## Reading records -/

variable {buf : Bytes} {offset len n : ℕ} {o : BatchOp}

theorem readU32Le_drop (buf : Bytes) (offset k : ℕ) :
    readU32Le buf (offset + k) = readU32Le (buf.drop offset) k := by
  have hlen : offset + k + 4 ≤ buf.length ↔ k + 4 ≤ (buf.drop offset).length := by
    rw [length_drop]
    omega
  simp [readU32Le, hlen, readLe, drop_drop]

theorem slice_drop (buf : Bytes) (offset k len : ℕ) (h : offset ≤ buf.length) :
    slice buf (offset + k) len = slice (buf.drop offset) k len := by
  have hlen : offset + k + len ≤ buf.length ↔ k + len ≤ (buf.drop offset).length := by
    rw [length_drop]
    omega
  simp [slice, hlen, drop_drop]

theorem decodeOps_drop (payload : Bytes) (count offset k : ℕ) :
    decodeOps payload count (offset + k) = decodeOps (payload.drop offset) count k := by
  induction count generalizing k with
  | zero => rfl
  | succ _ ih =>
    rw [decodeOps, decodeOps, getElem?_drop]
    cases hkind : payload[offset + k]? with
    | none => rfl
    | some =>
      have hlt : offset ≤ payload.length := by
        have := (List.getElem?_eq_some_iff.1 hkind).1
        omega
      simp [Nat.add_assoc, readU32Le_drop, slice_drop _ _ _ _ hlt, ih]

theorem readU32Le_take (h : n ≤ buf.length) :
    readU32Le (buf.take n) offset = if offset + 4 ≤ n then readU32Le buf offset else 0 := by
  rw [readU32Le, length_take, Nat.min_eq_left h]
  split
  · rename_i hle
    rw [readU32Le, if_pos (hle.trans h), readLe, readLe, drop_take, take_take,
      Nat.min_eq_left (by omega)]
  · rfl

theorem slice_take (h : n ≤ buf.length) :
    slice (buf.take n) offset len = if offset + len ≤ n then slice buf offset len else [] := by
  rw [slice, length_take, Nat.min_eq_left h]
  split
  · rename_i hle
    rw [slice, if_pos (hle.trans h), drop_take, take_take, Nat.min_eq_left (by omega)]
  · rfl

theorem slice_append {pre mid : Bytes} (post : Bytes) (hoffset : pre.length = offset)
    (hlen : mid.length = len) :
    slice (pre ++ (mid ++ post)) offset len = mid := by
  have hle : offset + len ≤ (pre ++ (mid ++ post)).length := by
    simp only [length_append]
    omega
  rw [slice, if_pos hle, drop_left' hoffset, take_left' hlen]

theorem readU32Le_append {pre : Bytes} (post : Bytes) (hoffset : pre.length = offset)
    (hn : n < 256 ^ 4) :
    readU32Le (pre ++ (leBytes 4 n ++ post)) offset = n := by
  have hle : offset + 4 ≤ (pre ++ (leBytes 4 n ++ post)).length := by
    simp only [length_append, leBytes_length]
    omega
  rw [readU32Le, if_pos hle, readLe_append post hoffset hn]

namespace BatchOp

variable {j : ℕ}

/-- Key and value are short enough for their length fields. -/
def Fits (o : BatchOp) : Prop := o.key.length < 256 ^ 4 ∧ o.op.value.length < 256 ^ 4
deriving Decidable

theorem length_encode (o : BatchOp) : o.encode.length = 9 + o.key.length + o.op.value.length := by
  simp only [encode, encodeRecord, length_cons, length_append, leBytes_length]
  omega

theorem kind_encode (o : BatchOp) (rest : Bytes) : (o.encode ++ rest)[0]? = some o.op.kind := rfl

theorem keyLen_encode (h : o.Fits) (rest : Bytes) :
    readU32Le (o.encode ++ rest) 1 = o.key.length := by
  have hshape : o.encode ++ rest = [o.op.kind] ++ (leBytes 4 o.key.length ++
      (o.key ++ (leBytes 4 o.op.value.length ++ o.op.value) ++ rest)) := by
    simp [encode, encodeRecord]
  rw [hshape]
  exact readU32Le_append _ rfl h.1

theorem key_encode (o : BatchOp) (rest : Bytes) :
      slice (o.encode ++ rest) 5 o.key.length = o.key := by
  have hshape : o.encode ++ rest = (o.op.kind :: leBytes 4 o.key.length) ++
      (o.key ++ (leBytes 4 o.op.value.length ++ o.op.value ++ rest)) := by
    simp [encode, encodeRecord]
  rw [hshape]
  exact slice_append _ (by simp) rfl

theorem valueLen_encode (h : o.Fits) (rest : Bytes) :
    readU32Le (o.encode ++ rest) (5 + o.key.length) = o.op.value.length := by
  have hshape : o.encode ++ rest = (o.op.kind :: (leBytes 4 o.key.length ++ o.key)) ++
      (leBytes 4 o.op.value.length ++ (o.op.value ++ rest)) := by
    simp [encode, encodeRecord]
  rw [hshape]
  refine readU32Le_append _ ?_ h.2
  simp only [length_cons, length_append, leBytes_length]
  omega

theorem value_encode (o : BatchOp) (rest : Bytes) :
    slice (o.encode ++ rest) (9 + o.key.length) o.op.value.length = o.op.value := by
  have hshape : o.encode ++ rest =
    (o.op.kind :: (leBytes 4 o.key.length ++ o.key ++ leBytes 4 o.op.value.length)) ++
      (o.op.value ++ rest) := by
    simp [encode, encodeRecord]
  rw [hshape]
  refine slice_append _ ?_ rfl
  simp only [length_cons, length_append, leBytes_length]
  omega

end BatchOp

theorem op_of_kind (op : Op) (value : Bytes) :
    (if op.kind = 0 then Op.put value else .delete) =
      match op with | .put _ => .put value | .delete => .delete := by
  cases op <;> rfl

theorem decodeOps_nil (count : ℕ) : decodeOps [] count 0 = [] := by
  cases count <;> rfl

theorem decodeOps_record (h : o.Fits) (rest : Bytes) (count : ℕ) :
    decodeOps (o.encode ++ rest) (count + 1) 0 = o :: decodeOps rest count 0 := by
  have hnext : decodeOps (o.encode ++ rest) count (9 + o.key.length + o.op.value.length) =
    decodeOps rest count 0 := by
    have hdrop := decodeOps_drop (o.encode ++ rest) count (9 + o.key.length + o.op.value.length) 0
    rw [drop_left' o.length_encode] at hdrop
    exact hdrop
  rw [decodeOps, o.kind_encode]
  simp only [Nat.zero_add, BatchOp.keyLen_encode h, BatchOp.key_encode, BatchOp.valueLen_encode h,
    BatchOp.value_encode, hnext, op_of_kind]
  obtain ⟨key, op⟩ := o
  cases op <;> rfl

/-! ## Cut records -/

/-- What is read of a record that is cut after `j` bytes. -/
def BatchOp.cut (j : ℕ) : BatchOp := ⟨if 5 + o.key.length ≤ j then o.key else [], o.op.clear⟩

/-- A cut after `j` bytes spares the key, and there is no value. -/
def BatchOp.Spared (j : ℕ) : Prop := (o.key = [] ∨ 5 + o.key.length ≤ j) ∧ o.op.value = []
deriving Decidable

theorem BatchOp.cut_eq_iff (o : BatchOp) (j : ℕ) : o.cut j = o ↔ o.Spared j := by
  obtain ⟨key, op⟩ := o
  have hkey : (if 5 + key.length ≤ j then key else []) = key ↔ key = [] ∨ 5 + key.length ≤ j := by
    split
    · exact iff_of_true rfl (.inr ‹_›)
    · exact ⟨fun h => .inl h.symm, fun h => (h.resolve_right ‹_›).symm⟩
  have hop : op.clear = op ↔ op.value = [] := by
    cases op with
    | put => exact ⟨fun h => (Op.put.inj h).symm, fun h => congrArg Op.put h.symm⟩
    | delete => exact iff_of_true rfl rfl
  rw [BatchOp.cut, BatchOp.mk.injEq, hkey, hop]
  rfl

theorem decodeOps_cut (h : o.Fits) {j : ℕ} (hpos : 0 < j) (hlt : j < o.encode.length) (count : ℕ) :
    decodeOps (o.encode.take j) (count + 1) 0 = [o.cut j] := by
  have hkind : (o.encode.take j)[0]? = some o.op.kind := by
    rw [getElem?_take_of_lt hpos]
    rfl
  have hread : ∀ offset, readU32Le (o.encode.take j) offset = if offset + 4 ≤ j then
    readU32Le o.encode offset else 0 :=
    fun offset => readU32Le_take hlt.le
  have hslice : ∀ offset len, slice (o.encode.take j) offset len = if offset + len ≤ j then
    slice o.encode offset len else [] :=
    fun offset len => slice_take hlt.le
  have hend : ∀ offset, j ≤ offset → decodeOps (o.encode.take j) count offset = [] := by
    intro offset hle
    cases count with
    | zero => rfl
    | succ =>
      rw [decodeOps, getElem?_eq_none (by rw [length_take]; omega)]
  have hlen := o.length_encode
  have hkeyLen := BatchOp.keyLen_encode h []
  have hkey := o.key_encode []
  have hvalueLen := BatchOp.valueLen_encode h []
  rw [append_nil] at hkeyLen hkey hvalueLen
  -- whatever is missing, the value is read as empty and nothing is left behind it
  have hclear : (if o.op.kind = 0 then Op.put [] else .delete) = o.op.clear := by
    cases o.op <;> rfl
  rw [decodeOps, hkind]
  simp only [Nat.zero_add, hread, hslice]
  by_cases hheader : j < 5
  · have hvalue : ¬ 9 ≤ j := by omega
    simp only [show ¬ 1 + 4 ≤ j by omega, if_false, Nat.add_zero, hvalue, hclear]
    rw [hend 9 (by omega), BatchOp.cut, if_neg (by omega)]
  simp only [show 1 + 4 ≤ j by omega, if_true, hkeyLen, hkey, hvalueLen]
  by_cases hvalueLen' : 5 + o.key.length + 4 ≤ j
  · have hvalue : ¬ 9 + o.key.length + o.op.value.length ≤ j := by omega
    simp only [hvalueLen', if_true, hvalue, if_false, hclear]
    rw [hend _ (by omega), BatchOp.cut]
  · have hvalue : ¬ 9 + o.key.length ≤ j := by omega
    simp only [hvalueLen', if_false, Nat.add_zero, hvalue, hclear]
    rw [hend _ (by omega), BatchOp.cut]

/-- What is read from the first `j` bytes of the records. -/
def readCut : List BatchOp → ℕ → List BatchOp
  | [], _ => []
  | o :: ops, j =>
    if j = 0 then [] else if j < o.encode.length then [o.cut j] else o :: readCut ops
      (j - o.encode.length)

/-- The record that a cut after `j` bytes goes through, with what is left of it. -/
def cutRecord : List BatchOp → ℕ → Option (BatchOp × ℕ)
  | [], _ => none
  | o :: ops, j =>
    if j = 0 then none else if j < o.encode.length then some (o, j) else cutRecord ops
      (j - o.encode.length)

variable {ops : List BatchOp}

theorem decodeOps_take (h : ∀ o ∈ ops, o.Fits) (count j : ℕ) :
    decodeOps ((ops.flatMap BatchOp.encode).take j) count 0 = readCut (ops.take count) j := by
  induction ops generalizing count j with
  | nil => simpa [readCut] using decodeOps_nil count
  | cons o _ ih =>
    cases count with
    | zero => rfl
    | succ count =>
      have ho := h o mem_cons_self
      rw [flatMap_cons, take_append, take_succ_cons, readCut]
      by_cases hzero : j = 0
      · rw [if_pos hzero, hzero, Nat.zero_sub, take_zero, take_zero, append_nil]
        exact decodeOps_nil _
      by_cases hlt : j < o.encode.length
      · rw [if_neg hzero, if_pos hlt, Nat.sub_eq_zero_of_le hlt.le, take_zero, append_nil]
        exact decodeOps_cut ho (Nat.pos_of_ne_zero hzero) hlt count
      · rw [if_neg hzero, if_neg hlt, take_of_length_le (not_lt.1 hlt), decodeOps_record ho,
          ih fun o ho => h o (mem_cons_of_mem _ ho)]

/-- The first operations are read exactly if the cut spares what it goes through. -/
theorem readCut_isPrefix_iff (ops : List BatchOp) (j : ℕ) :
    readCut ops j <+: ops ↔ ∀ p ∈ cutRecord ops j, p.1.Spared p.2 := by
  induction ops generalizing j with
  | nil => simp [readCut, cutRecord]
  | cons o _ ih =>
    rw [readCut, cutRecord]
    by_cases hzero : j = 0
    · simp [hzero]
    by_cases hlt : j < o.encode.length
    · simp only [if_neg hzero, if_pos hlt, Option.mem_some_iff, forall_eq', ← BatchOp.cut_eq_iff]
      rw [cons_prefix_cons]
      refine and_iff_left ?_
      exact nil_prefix
    · rw [if_neg hzero, if_neg hlt, if_neg hzero, if_neg hlt, cons_prefix_cons, ih]
      exact and_iff_right rfl

theorem readCut_of_le {j : ℕ} (h : (ops.flatMap BatchOp.encode).length ≤ j) :
    readCut ops j = ops := by
  induction ops generalizing j with
  | nil => rfl
  | cons o _ ih =>
    have hpos := o.length_encode
    rw [flatMap_cons, length_append] at h
    rw [readCut, if_neg (by omega), if_neg (by omega), ih (by omega)]

theorem length_readCut_le (ops : List BatchOp) (j : ℕ) : (readCut ops j).length ≤ ops.length := by
  induction ops generalizing j with
  | nil => exact le_rfl
  | cons _ _ ih =>
    rw [readCut]
    split_ifs
    · exact Nat.zero_le _
    · exact Nat.succ_le_succ (Nat.zero_le _)
    · exact Nat.succ_le_succ (ih _)

theorem decodeOps_flatMap (h : ∀ o ∈ ops, o.Fits) (count : ℕ) :
    decodeOps (ops.flatMap BatchOp.encode) count 0 = ops.take count := by
  have hall := decodeOps_take h count (ops.flatMap BatchOp.encode).length
  rw [take_length] at hall
  rw [hall]
  exact readCut_of_le ((take_sublist _ _).flatMap _).length_le

/-! ## Payloads -/

/-- The payload of operations, as both encoders write it. -/
def encodeOps (ops : List BatchOp) : Bytes := leBytes 2 ops.length ++ ops.flatMap BatchOp.encode

theorem encodeKvBatchItems_eq (items : List KvBatchItem) :
    encodeKvBatchItems items = encodeOps (items.map KvBatchItem.op) := by
  rw [encodeKvBatchItems, encodeOps, length_map, flatMap_map]
  congr 1
  apply flatMap_congr
  intro item _
  obtain ⟨key, value, isDelete⟩ := item
  cases isDelete <;> rfl

theorem encodeKvPayload_eq (ops : List (Bytes × Option Bytes)) :
    encodeKvPayload ops = encodeOps (ops.map opOf) := by
  rw [encodeKvPayload, encodeOps, length_map, flatMap_map]
  congr 1
  apply flatMap_congr
  rintro ⟨key, value⟩ _
  cases value <;> rfl

theorem leNat_leBytes_two (n : ℕ) : leNat (leBytes 2 n) = n % 65536 := by
  have hbyte : ∀ m, (UInt8.ofNat (m % 256)).toNat = m % 256 := fun m =>
    UInt8.toNat_ofNat_of_lt (by simp only [UInt8.size]; omega)
  simp only [leBytes, leNat, hbyte]
  omega

theorem decode_leBytes_append (n : ℕ) (rest : Bytes) :
    decode (leBytes 2 n ++ rest) = decodeOps rest (n % 65536) 0 := by
  have hcount := leNat_leBytes_two n
  have hdrop := decodeOps_drop (leBytes 2 n ++ rest) (n % 65536) 2 0
  rw [drop_left' (leBytes_length 2 n)] at hdrop
  rw [← hdrop, ← hcount]
  exact if_neg (cons_ne_nil _ _)

theorem decode_take (h : ∀ o ∈ ops, o.Fits) (n : ℕ) :
    decode ((encodeOps ops).take n) = readCut (ops.take (ops.length % 65536)) (n - 2) := by
  have hzero : ∀ ops, readCut ops 0 = [] := by
    intro ops
    cases ops <;> rfl
  match n with
  | 0 => exact (hzero _).symm
  | 1 =>
    -- one byte: a number of operations, and no record
    have hend : ∀ b count, decodeOps [b] count 2 = [] := by
      intro b count
      cases count <;> rfl
    exact (hend _ _).trans (hzero _).symm
  | n + 2 =>
    rw [encodeOps, take_append, take_of_length_le (by rw [leBytes_length]; omega), leBytes_length,
      Nat.add_sub_cancel, decode_leBytes_append, decodeOps_take h]

theorem KvBatchItem.fits_op {item : KvBatchItem} (hkey : item.key.length < 256 ^ 4)
    (hvalue : item.value.length < 256 ^ 4) : item.op.Fits := by
  refine ⟨hkey, ?_⟩
  obtain ⟨key, value, isDelete⟩ := item
  cases isDelete
  · exact hvalue
  · exact Nat.pow_pos (by omega)

/-- A payload is read back iff the number of operations fits the field; its beginning is read as the
    first operations iff the record that is cut loses nothing. -/
theorem decode_encodeKvBatchItems (items : List KvBatchItem)
    (h : ∀ item ∈ items, item.key.length < 256 ^ 4 ∧ item.value.length < 256 ^ 4) :
    (decode (encodeKvBatchItems items) = items.map KvBatchItem.op ↔ items.length < 65536) ∧
    ∀ n < (encodeKvBatchItems items).length, (decode ((encodeKvBatchItems items).take n) <+:
      items.map KvBatchItem.op ↔
        ∀ p ∈ cutRecord ((items.map KvBatchItem.op).take (items.length % 65536))
          (n - 2), p.1.Spared p.2) := by
  have hfits : ∀ o ∈ items.map KvBatchItem.op, o.Fits := by
    intro o ho
    obtain ⟨item, hitem, rfl⟩ := mem_map.1 ho
    exact KvBatchItem.fits_op (h item hitem).1 (h item hitem).2
  rw [encodeKvBatchItems_eq]
  refine ⟨?_, ?_⟩
  · rw [encodeOps, decode_leBytes_append, decodeOps_flatMap hfits, take_eq_self_iff, length_map]
    omega
  · intro n _
    rw [decode_take hfits, length_map, ← readCut_isPrefix_iff]
    -- what is read is no longer than what is counted
    have hlen := length_readCut_le ((items.map KvBatchItem.op).take (items.length % 65536)) (n - 2)
    rw [prefix_take_iff]
    refine (and_iff_left (hlen.trans ?_)).symm
    rw [length_take]
    exact Nat.min_le_left _ _

/-- A put behind a delete, also with a cut behind the key of the delete. -/
theorem decode_put_delete :
    decode ((encodeKvBatchItems [⟨[1], [], true⟩, ⟨[2], [3], false⟩]).take 9) <+:
      [⟨[1], .delete⟩, ⟨[2], .put [3]⟩] ∧
      decode (encodeKvBatchItems [⟨[1], [], true⟩, ⟨[2], [3], false⟩]) =
        [⟨[1], .delete⟩, ⟨[2], .put [3]⟩] := by
  have hlaw := decode_encodeKvBatchItems [⟨[1], [], true⟩, ⟨[2], [3], false⟩] (by decide)
  exact ⟨(hlaw.2 9 (by decide)).2 (by decide), hlaw.1.2 (by decide)⟩

/-- Without its last byte, a put of one byte is read as a put of the empty value; and of `65536`
    operations none is read back. -/
theorem decode_loses_value :
    (∃ items : List KvBatchItem,
      (∀ item ∈ items, item.key.length < 256 ^ 4 ∧ item.value.length < 256 ^ 4) ∧
      ∃ n < (encodeKvBatchItems items).length,
        decode ((encodeKvBatchItems items).take n) = [⟨[1], .put []⟩] ∧
          ⟨[1], .put []⟩ ∉ items.map KvBatchItem.op) ∧
    ∃ items : List KvBatchItem,
      (∀ item ∈ items, item.key.length < 256 ^ 4 ∧ item.value.length < 256 ^ 4) ∧
      items.length = 65536 ∧ decode (encodeKvBatchItems items) = [] := by
  refine ⟨⟨[⟨[1], [2], false⟩], by decide, 12, by decide, by decide, by decide⟩,
    replicate 65536 ⟨[1], [2], false⟩, fun item hitem => ?_, length_replicate, ?_⟩
  · obtain rfl := eq_of_mem_replicate hitem
    decide
  · rw [encodeKvBatchItems, length_replicate, decode_leBytes_append]
    rfl

end CrowDB.Kv
