/-
  Binary keys (`key/encoding.rs`, `key/diskdb.rs`): a magic byte, a type tag, and fields of fixed
  widths, big-endian.  A `DiskId` is two fields.
-/
import CrowDB.Lib.ByteCodec
import CrowDB.Lib.Fallible

namespace CrowDB

open Lib List

/-- `KeyError`. -/
inductive KeyError where
  | badMagic
  | badTag
  | shortInput
  | trailingBytes
deriving DecidableEq

/-- The kinds of keys. -/
inductive KeyKind where
  | diskGroup
  | disk
  | zone
  | busyBlock
  | freeBlock
  | ownerMap
  | bindMap
deriving DecidableEq

namespace KeyKind

/-- The type tag of a kind. -/
def typeTag : KeyKind → ℕ
  | diskGroup => 0x0003
  | disk => 0x0004
  | zone => 0x0005
  | busyBlock => 0x0006
  | freeBlock => 0x0007
  | ownerMap => 0x0008
  | bindMap => 0x0009

/-- The widths of its fields. -/
def widths : KeyKind → List ℕ
  | diskGroup | ownerMap | bindMap => [8, 8, 8]
  | disk => [8, 8, 8, 8, 8]
  | zone => [8, 8, 4]
  | busyBlock | freeBlock => [8, 8, 4, 8]

end KeyKind

/-! ## Encoding and decoding -/

/-- `encode_header`. -/
def encodeHeader (typeTag : ℕ) : List UInt8 := 0xC0 :: beBytes 2 typeTag

/-- `encode_u64`, `encode_u32`: the fields that are given, one after the other. -/
def encodeFields : List ℕ → List ℕ → List UInt8
  | w :: ws, n :: ns => beBytes w n ++ encodeFields ws ns
  | _, _ => []

/-- `decode_header`. -/
def decodeHeader (buf : List UInt8) (expectedTag : ℕ) : Except KeyError (List UInt8) :=
  if buf.length < 3 then .error .shortInput
  else if buf.head? ≠ some 0xC0 then .error .badMagic
  else if beNat ((buf.drop 1).take 2) ≠ expectedTag then .error .badTag
  else .ok (buf.drop 3)

/-- `decode_u64`, `decode_u32` at an offset, for each width: the fields and the new offset. -/
def decodeFields (buf : List UInt8) : List ℕ → ℕ → Except KeyError (List ℕ × ℕ)
  | [], o => .ok ([], o)
  | w :: ws, o =>
    if buf.length < o + w then .error .shortInput
    else (decodeFields buf ws (o + w)).bind fun p => .ok (beNat ((buf.drop o).take w) :: p.1, p.2)

/-- Nothing is left over. -/
def checkExact (buf : List UInt8) (ns : List ℕ) (consumed : ℕ) : Except KeyError (List ℕ) :=
  if consumed = buf.length then .ok ns else .error .trailingBytes

/-- `decode` of a kind. -/
def KeyKind.decode (kind : KeyKind) (buf : List UInt8) : Except KeyError (List ℕ) :=
  (decodeHeader buf kind.typeTag).bind fun fields =>
    (decodeFields fields kind.widths 0).bind fun p => checkExact fields p.1 p.2

/-- `prefix_all`, `prefix_for_rack` and the others: the header and the leading fields. -/
def KeyKind.scanFor (kind : KeyKind) (leading : List ℕ) : List UInt8 :=
  encodeHeader kind.typeTag ++ encodeFields kind.widths leading

/-- Each number fits its width. -/
def FieldsFit (ws ns : List ℕ) : Prop := Forall₂ (fun w n => n < 256 ^ w) ws ns

/-- A key that can be encoded. -/
structure Key where
  kind : KeyKind
  fields : List ℕ
  fits : FieldsFit kind.widths fields

/-- `encode`. -/
def Key.encode (k : Key) : List UInt8 :=
  encodeHeader k.kind.typeTag ++ encodeFields k.kind.widths k.fields

/-! ## Fields -/

variable {ws ns ns' : List ℕ} {buf : List UInt8} {o o' : ℕ}

theorem decodeFields_encodeFields (h : FieldsFit ws ns) (pre : List UInt8) :
    decodeFields (pre ++ encodeFields ws ns) ws pre.length =
      .ok (ns, (pre ++ encodeFields ws ns).length) := by
  induction h generalizing pre with
  | nil => simp [decodeFields, encodeFields]
  | @cons w n ws ns hn _ ih =>
    have hrest := ih (pre ++ beBytes w n)
    rw [length_append, beBytes_length, append_assoc] at hrest
    rw [encodeFields, decodeFields, if_neg (by simp), hrest]
    simp [Except.bind, beNat_beBytes hn]

theorem encodeFields_of_decodeFields (h : decodeFields buf ws o = .ok (ns, o')) :
    FieldsFit ws ns ∧ buf.drop o = encodeFields ws ns ++ buf.drop o' := by
  induction ws generalizing ns o with
  | nil =>
    cases h
    exact ⟨.nil, rfl⟩
  | cons w _ ih =>
    rw [decodeFields] at h
    split_ifs at h with hshort
    obtain ⟨p, hrest, ⟨⟩⟩ := bind_eq_ok.1 h
    obtain ⟨hfits, hdrop⟩ := ih hrest
    have hlength : ((buf.drop o).take w).length = w := by
      rw [length_take, length_drop]
      omega
    have hlt := beNat_lt ((buf.drop o).take w)
    have hbytes := beBytes_beNat ((buf.drop o).take w)
    rw [hlength] at hlt hbytes
    refine ⟨.cons hlt hfits, ?_⟩
    rw [encodeFields, hbytes, append_assoc, ← hdrop, ← drop_drop, take_append_drop]

theorem encodeFields_lt_iff (h : FieldsFit ws ns) (h' : FieldsFit ws ns') :
    encodeFields ws ns < encodeFields ws ns' ↔ ns < ns' := by
  induction h generalizing ns' with
  | nil =>
    cases h'
    simp [encodeFields]
  | @cons w n ws ns hn _ ih =>
    cases h' with
    | @cons _ n' _ ns' hn' h' =>
      rw [encodeFields, encodeFields, append_lt_append_iff _ _ (by simp), beBytes_lt_iff hn hn',
        beBytes_inj hn hn', ih h',
        List.cons_lt_cons_iff]

theorem encodeFields_prefix_iff (h : FieldsFit ws ns) (h' : FieldsFit ws ns') (m : ℕ) :
    encodeFields ws (ns.take m) <+: encodeFields ws ns' ↔ ns.take m <+: ns' := by
  induction h generalizing ns' m with
  | nil => simp [encodeFields]
  | @cons w n ws ns hn _ ih =>
    cases m with
    | zero => simp [encodeFields]
    | succ m =>
      cases h' with
      | @cons _ n' _ ns' hn' h' =>
        rw [take_succ_cons, encodeFields, encodeFields, cons_prefix_cons, ← ih h' m,
          ← beBytes_inj hn hn']
        constructor
        · intro hpre
          have heq : beBytes w n = beBytes w n' := by
            have := prefix_iff_eq_take.1 ((prefix_append ..).trans hpre)
            rwa [beBytes_length, take_left' (beBytes_length ..)] at this
          rw [heq] at hpre
          exact ⟨heq, (prefix_append_right_inj _).1 hpre⟩
        · rintro ⟨heq, hpre⟩
          rw [heq]
          exact (prefix_append_right_inj _).2 hpre

/-! ## Keys -/

namespace Key

theorem typeTag_lt (kind : KeyKind) : kind.typeTag < 256 ^ 2 := by cases kind <;> decide

theorem encodeHeader_inj {kind kind' : KeyKind}
    (h : encodeHeader kind.typeTag = encodeHeader kind'.typeTag) :
    kind = kind' := by
  have htag : kind.typeTag = kind'.typeTag :=
    (beBytes_inj (typeTag_lt _) (typeTag_lt _)).1 (cons.inj h).2
  revert htag
  cases kind <;> cases kind' <;> decide

theorem decodeHeader_append (kind : KeyKind) (fields : List UInt8) :
    decodeHeader (encodeHeader kind.typeTag ++ fields) kind.typeTag = .ok fields := by
  simp [decodeHeader, encodeHeader, beNat_beBytes (typeTag_lt kind)]

theorem append_of_decodeHeader {fields : List UInt8} {tag : ℕ}
    (h : decodeHeader buf tag = .ok fields) :
    buf = encodeHeader tag ++ fields := by
  rw [decodeHeader] at h
  split_ifs at h with hlen hmagic htag
  match buf with
  | [] | [_] | [_, _] => simp at hlen
  | a :: b :: c :: rest =>
    have hbytes := beBytes_beNat [b, c]
    simp_all [encodeHeader]

theorem scanFor_prefix_iff (k k' : Key) (m : ℕ) :
    k.kind.scanFor (k.fields.take m) <+: k'.encode ↔ k'.kind = k.kind ∧ k.fields.take m <+:
      k'.fields := by
  obtain ⟨kind, ns, h⟩ := k
  obtain ⟨kind', ns', h'⟩ := k'
  constructor
  · intro hpre
    have hhead := prefix_iff_eq_take.1 ((prefix_append ..).trans hpre)
    obtain rfl : kind = kind' := encodeHeader_inj (by simpa [encode, encodeHeader] using hhead)
    exact ⟨rfl, (encodeFields_prefix_iff h h' m).1 ((prefix_append_right_inj _).1 hpre)⟩
  · rintro ⟨rfl, hpre⟩
    exact (prefix_append_right_inj _).2 ((encodeFields_prefix_iff h h' m).2 hpre)

theorem decode_encode (k : Key) : k.kind.decode k.encode = .ok k.fields := by
  have hfields : decodeFields (encodeFields k.kind.widths k.fields) k.kind.widths 0 =
    .ok (k.fields, _) :=
    decodeFields_encodeFields k.fits []
  rw [KeyKind.decode, encode, decodeHeader_append, Except.bind, hfields]
  exact if_pos rfl

theorem exists_of_decode {kind : KeyKind} (h : kind.decode buf = .ok ns) :
    ∃ k : Key, k.kind = kind ∧ k.fields = ns ∧ k.encode = buf := by
  obtain ⟨fields, hheader, h⟩ := bind_eq_ok.1 h
  obtain ⟨p, hfields, h⟩ := bind_eq_ok.1 h
  rw [checkExact] at h
  split_ifs at h with hend
  cases h
  obtain ⟨hfits, hdrop⟩ := encodeFields_of_decodeFields hfields
  rw [hend, drop_length, append_nil, drop_zero] at hdrop
  refine ⟨⟨kind, p.1, hfits⟩, rfl, rfl, ?_⟩
  rw [append_of_decodeHeader hheader, encode, hdrop]

/-- Keys are read back, what is read is a key, the bytes have the order of the fields, and scan
    prefixes are exact. -/
theorem encode_exact :
    (∀ k : Key, k.kind.decode k.encode = .ok k.fields) ∧
    (∀ kind buf ns, KeyKind.decode kind buf = .ok ns → ∃ k : Key, k.kind = kind ∧ k.fields = ns ∧
      k.encode = buf) ∧
    (∀ k k' : Key, k.kind = k'.kind → (k.encode < k'.encode ↔ k.fields < k'.fields)) ∧
    (∀ (k k' : Key) (m : ℕ), k.kind.scanFor (k.fields.take m) <+: k'.encode ↔
      k'.kind = k.kind ∧ k.fields.take m <+: k'.fields) ∧
    ∀ k k' : Key, k.encode = k'.encode → k.kind = k'.kind ∧ k.fields = k'.fields := by
  refine ⟨decode_encode, fun _ _ _ => exists_of_decode, ?_, scanFor_prefix_iff, ?_⟩
  · rintro ⟨kind, ns, h⟩ ⟨_, ns', h'⟩ rfl
    rw [← encodeFields_lt_iff h h', encode, encode, append_lt_append_iff _ _ rfl]
    simp
  · intro k k' heq
    obtain ⟨hkind, -⟩ := (scanFor_prefix_iff k k' 0).1
      (heq ▸ by simp [KeyKind.scanFor, encode, encodeFields])
    have hread := k.decode_encode
    rw [heq, ← hkind, k'.decode_encode] at hread
    exact ⟨hkind.symm, (Except.ok.inj hread).symm⟩

end Key

end CrowDB
