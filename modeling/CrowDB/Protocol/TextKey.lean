/-
  Text keys of group 0 (`TextKey` of `key/encoding.rs` and its kinds, `InstanceKey::from_path`): a
  path of segments.

  A string is its UTF-8 bytes. The parsers of the segments take more than the writers write: a sign
  and leading zeros of a number, upper-case digits of a disk id; and the cut of a disk id at byte 16
  panics inside a character.
-/
import CrowDB.Protocol.BinaryKey

namespace CrowDB

open Lib List

/-- What a parser ends with other than a key. -/
inductive PathError where
  | error (e : KeyError)
  | panics
deriving DecidableEq

/-- The types of segments. -/
inductive PathSegment where
  | u64
  | u32
  | diskId
  /-- the service of an `InstanceKey` -/
  | service
deriving DecidableEq

/-- The value of a segment. -/
inductive SegmentValue where
  | number (n : ℕ)
  | diskId (high low : ℕ)
  | service (name : List UInt8)
deriving DecidableEq

/-- `encode_path_u64`, `encode_path_disk_id`. -/
def SegmentValue.encode : SegmentValue → List UInt8
  | number n => renderRadix 10 n
  | diskId high low => renderPadded 16 16 high ++ renderPadded 16 16 low
  | service name => name

/-- A number in a radix. -/
def decodeNumber (radix : ℕ) (part : List UInt8) : Except PathError ℕ :=
  match parseRadix radix 0xFFFFFFFFFFFFFFFF part with
  | .ok n => .ok n
  | .error _ => .error (.error .shortInput)

/-- `decode_path_u64`, `decode_path_disk_id`. -/
def PathSegment.decode (part : List UInt8) : PathSegment → Except PathError SegmentValue
  | u64 => (decodeNumber 10 part).bind fun n => .ok (.number n)
  | u32 => (decodeNumber 10 part).bind fun n => if n ≤ 0xFFFFFFFF then .ok (.number n) else .error
      (.error .shortInput)
  | diskId =>
    if part.length ≠ 32 then .error (.error .shortInput)
    -- a string is cut at the boundary of a character only
    else if (part.drop 16).head?.any isCont then .error .panics
    else (decodeNumber 16 (part.take 16)).bind fun high =>
      (decodeNumber 16 (part.drop 16)).bind fun low => .ok (.diskId high low)
  | service => .ok (.service part)

/-- The kinds of paths. -/
inductive TextKind where
  | rack
  | node
  | diskGroup
  | disk
  | ownerMap
  | bindMap
  | diskGroupUsage
  | kvStore
  | kvGroup
  | kvReplica
  | chunkdbRangeBinding
  | chunkdbRangeMigration
deriving DecidableEq

namespace TextKind

/-- `PATH_MAGIC`, without its slash. -/
def pathMagic : TextKind → List UInt8
  | rack | node | diskGroup | disk | ownerMap | bindMap | diskGroupUsage => ascii "hw"
  | kvStore | kvGroup | kvReplica => ascii "kv"
  | chunkdbRangeBinding | chunkdbRangeMigration => ascii "chunkdb"

/-- The second segment. -/
def pathType : TextKind → List UInt8
  | rack => ascii "rack"
  | node => ascii "node"
  | diskGroup => ascii "dg"
  | disk => ascii "disk"
  | ownerMap => ascii "dg_owner"
  | bindMap => ascii "dg_bind"
  | diskGroupUsage => ascii "dg_usage"
  | kvStore => ascii "store"
  | kvGroup => ascii "group"
  | kvReplica => ascii "replica"
  | chunkdbRangeBinding => ascii "range_bind"
  | chunkdbRangeMigration => ascii "range_mig"

/-- The other segments. -/
def segments : TextKind → List PathSegment
  | rack | diskGroupUsage | kvStore => [.u64]
  | node | kvGroup => [.u64, .u64]
  | diskGroup | ownerMap | bindMap | kvReplica => [.u64, .u64, .u64]
  | disk => [.u64, .u64, .u64, .diskId]
  | chunkdbRangeBinding | chunkdbRangeMigration => [.u32]

end TextKind

/-- The fields of `decode_path`, one after the other. -/
def decodeParts : List PathSegment → List (List UInt8) → Except PathError (List SegmentValue)
  | [], _ | _, [] => .ok []
  | seg :: segs, part :: parts => (seg.decode part).bind fun v =>
      (decodeParts segs parts).bind fun vs => .ok (v :: vs)

/-- `from_path`. -/
def TextKind.fromPath (kind : TextKind) (s : List UInt8) : Except PathError (List SegmentValue) :=
  match s.splitOn 47 with
  | [] :: magic :: type :: parts =>
    if magic ≠ kind.pathMagic then .error (.error .badMagic)
    else if type ≠ kind.pathType then .error (.error .badTag)
    else if parts.length < kind.segments.length then .error (.error .shortInput)
    else (decodeParts kind.segments parts).bind fun vs =>
      if parts.length = kind.segments.length then .ok vs else .error (.error .trailingBytes)
  | _ => .error (.error .shortInput)

/-- The path of these segments. -/
def toPath (header : List (List UInt8)) (vs : List SegmentValue) : List UInt8 :=
  [47].intercalate ([] :: header ++ vs.map SegmentValue.encode)

/-- `InstanceKey::from_path`. -/
def instanceFromPath (s : List UInt8) : Except PathError (List SegmentValue) :=
  match s.splitOn 47 with
  | [[], magic, service, id] =>
    if magic ≠ ascii "srv" then
      .error (.error .badMagic) else decodeParts [.service, .u64] [service, id]
  | _ => .error (.error .badMagic)

/-! ## Spellings -/

/-- Digits of the radix only, those above nine in lower case. -/
def Digits (radix : ℕ) (part : List UInt8) : Prop := ∀ c ∈ part, c ∈ (List.range radix).map digitByte
deriving Decidable

/-- No sign, no needless zero, no capitals. -/
def PathSegment.Canonical (part : List UInt8) : PathSegment → Prop
  | u64 | u32 => Digits 10 part ∧ (part.head? = some (digitByte 0) → part.length = 1)
  | diskId => Digits 16 part
  | service => True

/-- A disk id of the right length whose byte 16 is inside a character. -/
def PathSegment.CutInside (part : List UInt8) : PathSegment → Prop
  | diskId => part.length = 32 ∧ (part.drop 16).head?.any isCont
  | _ => False

/-- `from_str_radix` of a `u64` takes the text. -/
def Numeral (radix : ℕ) (part : List UInt8) : Prop :=
  ∃ n, parseRadix radix 0xFFFFFFFFFFFFFFFF part = .ok n

/-- The number parsers take the segment, in whatever spelling. -/
def PathSegment.Reads (part : List UInt8) : PathSegment → Prop
  | u64 => Numeral 10 part
  | u32 => ∃ n ≤ 0xFFFFFFFF, parseRadix 10 0xFFFFFFFFFFFFFFFF part = .ok n
  | diskId => part.length = 32 ∧ ¬ (part.drop 16).head?.any isCont ∧
      Numeral 16 (part.take 16) ∧ Numeral 16 (part.drop 16)
  | service => True

/-- Behind segments that read no disk id is cut inside a character, and if the segments are as many
    as the fields and all of them read, then they are canonical. -/
structure Spelled (segs : List PathSegment) (parts : List (List UInt8)) : Prop where
  uncut : ∀ (k : ℕ) (p : PathSegment × List UInt8), (segs.zip parts)[k]? = some p →
    (∀ q ∈ (segs.zip parts).take k, q.1.Reads q.2) → ¬ p.1.CutInside p.2
  canonical : parts.length = segs.length → (∀ p ∈ segs.zip parts, p.1.Reads p.2) →
    ∀ p ∈ segs.zip parts, p.1.Canonical p.2

/-- If the path has this header and enough segments, these are `Spelled`. -/
def SpelledPath (header : List (List UInt8)) (segs : List PathSegment) (s : List UInt8) : Prop :=
  ∀ parts, s.splitOn 47 = [] :: header ++ parts → segs.length ≤ parts.length → Spelled segs parts

/-! ## Numerals -/

variable {radix max acc d n w : ℕ} {cs part : List UInt8} {x : Except PathError α} {P : α → Prop}
  {s : List UInt8}

theorem renderPadded_digit (hd : d < radix) :
    renderPadded radix (w + 1) d = replicate w (digitByte 0) ++
    [digitByte d] := by
  have hdigit : renderRadix radix d = [digitByte d] := by
    rw [renderRadix]
    split_ifs with hzero
    · rw [hzero]
    · rw [Nat.digits_of_lt radix d hzero hd]
      rfl
  rw [renderPadded, hdigit]
  rfl

theorem renderPadded_succ (h1 : 1 < radix) (hw : 0 < w) (hd : d < radix) :
    renderPadded radix (w + 1) (acc * radix + d) = renderPadded radix w acc ++ [digitByte d] := by
  by_cases hacc : acc = 0
  · obtain ⟨w, rfl⟩ := Nat.exists_eq_succ_of_ne_zero (Nat.ne_of_gt hw)
    rw [hacc, Nat.zero_mul, Nat.zero_add, renderPadded_digit hd, renderPadded_digit (by omega),
      replicate_succ']
  · have hne : acc * radix + d ≠ 0 :=
      Nat.ne_of_gt (Nat.add_pos_left (Nat.mul_pos (Nat.pos_of_ne_zero hacc) (by omega)) _)
    have hdigits : renderRadix radix (acc * radix + d) = renderRadix radix acc ++ [digitByte d] := by
      rw [renderRadix, if_neg hne, renderRadix, if_neg hacc, Nat.add_comm, Nat.mul_comm,
        Nat.digits_add radix h1 d acc hd (.inr hacc)]
      simp
    rw [renderPadded, hdigits, renderPadded]
    simp

theorem Digits.cons {c : UInt8} (h : Digits radix (c :: cs)) :
    ∃ d < radix, c = digitByte d ∧ Digits radix cs := by
  obtain ⟨d, hd, rfl⟩ := mem_map.1 (h c mem_cons_self)
  exact ⟨d, mem_range.1 hd, rfl, fun c hc => h c (mem_cons_of_mem _ hc)⟩

theorem renderPadded_of_parseDigits (h1 : 1 < radix) (hr : radix ≤ 16) (hw : 0 < w)
    (hcs : Digits radix cs) (h : parseDigits radix max acc cs = .ok n) :
    renderPadded radix (w + cs.length) n = renderPadded radix w acc ++ cs := by
  induction cs generalizing acc w with
  | nil =>
    cases h
    simp
  | cons c cs ih =>
    obtain ⟨d, hd, rfl, htail⟩ := hcs.cons
    rw [parseDigits, toDigit_digitByte hd hr] at h
    simp only at h
    split_ifs at h
    have hrest := ih (w := w + 1) (Nat.succ_pos w) htail h
    rw [renderPadded_succ h1 hw hd, append_assoc] at hrest
    rw [length_cons, Nat.add_comm cs.length, ← Nat.add_assoc]
    exact hrest

/-! ## What the parsers answer -/

/-- No panic, and a value that is returned has `P`. -/
def Answers (P : α → Prop) : Except PathError α → Prop
  | .ok a => P a
  | .error e => e ≠ .panics

theorem Answers.iff : Answers P x ↔ x ≠ .error .panics ∧ ∀ a, x = .ok a → P a := by
  cases x <;> simp [Answers]

theorem decodeNumber_answers (h1 : 1 < radix) (hr : radix ≤ 16) (hcs : Digits radix cs) :
    Answers (fun n => renderPadded radix cs.length n = cs) (decodeNumber radix cs) := by
  rw [decodeNumber]
  split
  · rename_i hparse
    cases cs with
    | nil => cases hparse
    | cons c cs =>
      have hsign : ∀ b ∈ c :: cs, b ≠ 43 ∧ b ≠ 45 := by
        intro b hb
        obtain ⟨d, hd, rfl⟩ := mem_map.1 (hcs b hb)
        exact digitByte_ne_sign ((mem_range.1 hd).trans_le hr)
      rw [parseRadix_of_digits (cons_ne_nil _ _) hsign] at hparse
      obtain ⟨d, hd, rfl, htail⟩ := hcs.cons
      rw [parseDigits, toDigit_digitByte hd hr] at hparse
      simp only at hparse
      split_ifs at hparse
      rw [Nat.zero_mul, Nat.zero_add] at hparse
      have := renderPadded_of_parseDigits h1 hr Nat.one_pos htail hparse
      rwa [renderPadded_digit hd, Nat.add_comm] at this
  · exact PathError.noConfusion

theorem decodeNumber_answers_render (hcs : Digits 10 cs)
    (hzero : cs.head? = some (digitByte 0) → cs.length = 1) :
    Answers (renderRadix 10 · = cs) (decodeNumber 10 cs) := by
  refine Answers.iff.2 ⟨(Answers.iff.1 (decodeNumber_answers (by decide) (by decide) hcs)).1,
    fun n h => ?_⟩
  have hpad := (Answers.iff.1 (decodeNumber_answers (by decide) (by decide) hcs)).2 n h
  have hpos : 0 < (renderRadix 10 n).length := length_pos_iff.2 (renderRadix_ne_nil _ _)
  cases hk : cs.length - (renderRadix 10 n).length with
  | zero =>
    rw [renderPadded, hk] at hpad
    exact hpad
  | succ =>
    rw [renderPadded, hk, replicate_succ] at hpad
    have := hzero (by rw [← hpad]; rfl)
    omega

theorem head_renderRadix (h : (renderRadix 10 n).head? = some (digitByte 0)) :
    (renderRadix 10 n).length = 1 := by
  by_cases hn : n = 0
  · rw [hn]
    rfl
  have hne : Nat.digits 10 n ≠ [] := Nat.digits_ne_nil_iff_ne_zero.2 hn
  rw [renderRadix, if_neg hn, head?_map, head?_reverse, getLast?_eq_some_getLast hne, Option.map_some,
    Option.some_inj] at h
  have hlt : (Nat.digits 10 n).getLast hne < 10 := Nat.digits_lt_base (by decide) (getLast_mem hne)
  have hinj : ∀ d < 10, digitByte d = digitByte 0 → d = 0 := by decide
  exact absurd (hinj _ hlt h) (Nat.getLast_digit_ne_zero 10 hn)

theorem canonical_render (n : ℕ) : PathSegment.Canonical (renderRadix 10 n) .u64 := by
  refine ⟨fun c hc => ?_, head_renderRadix⟩
  obtain ⟨d, hd, rfl⟩ := mem_renderRadix (by decide) hc
  exact mem_map_of_mem (mem_range.2 hd)

theorem digits_renderPadded (w n : ℕ) : Digits 16 (renderPadded 16 w n) := by
  intro c hc
  obtain ⟨d, hd, rfl⟩ := mem_renderPadded (by decide) hc
  exact mem_map_of_mem (mem_range.2 hd)

theorem decodeNumber_cases (radix : ℕ) (part : List UInt8) :
    (∃ n, parseRadix radix 0xFFFFFFFFFFFFFFFF part = .ok n ∧ decodeNumber radix part = .ok n) ∨
      ¬ Numeral radix part ∧ decodeNumber radix part = .error (.error .shortInput) := by
  rw [decodeNumber]
  split
  · rename_i n hn
    exact .inl ⟨n, hn, rfl⟩
  · rename_i hn
    refine .inr ⟨fun ⟨n, hok⟩ => ?_, rfl⟩
    rw [hok] at hn
    cases hn

theorem render_iff_canonical (h : decodeNumber 10 part = .ok n) :
    renderRadix 10 n = part ↔ PathSegment.Canonical part .u64 := by
  constructor
  · rintro rfl
    exact canonical_render n
  · intro hcanon
    exact (Answers.iff.1 (decodeNumber_answers_render hcanon.1 hcanon.2)).2 n h

theorem renderPadded_of_digits (hlength : part.length = w) (hcanon : Digits 16 part)
    (h : decodeNumber 16 part = .ok n) : renderPadded 16 w n = part := by
  rw [← hlength]
  exact (Answers.iff.1 (decodeNumber_answers (by decide) le_rfl hcanon)).2 n h

namespace PathSegment

/-- What `decode` does with a segment. -/
theorem decode_cases (seg : PathSegment) (part : List UInt8) :
    (seg.CutInside part ∧ ¬ seg.Reads part ∧ seg.decode part = .error .panics) ∨
    (¬ seg.CutInside part ∧ ¬ seg.Reads part ∧ seg.decode part = .error (.error .shortInput)) ∨
    (¬ seg.CutInside part ∧ seg.Reads part ∧
      ∃ v, seg.decode part = .ok v ∧ (v.encode = part ↔ seg.Canonical part)) := by
  cases seg with
  | u64 =>
    obtain ⟨n, hn, hok⟩ | ⟨hn, herr⟩ := decodeNumber_cases 10 part
    · exact .inr (.inr ⟨id, ⟨n, hn⟩, .number n, by rw [decode, hok]; rfl, render_iff_canonical hok⟩)
    · exact .inr (.inl ⟨id, hn, by rw [decode, herr]; rfl⟩)
  | u32 =>
    obtain ⟨n, hn, hok⟩ | ⟨hn, herr⟩ := decodeNumber_cases 10 part
    · by_cases hle : n ≤ 0xFFFFFFFF
      · refine .inr (.inr ⟨id, ⟨n, hle, hn⟩, .number n, ?_, render_iff_canonical hok⟩)
        rw [decode, hok, Except.bind, if_pos hle]
      · refine .inr (.inl ⟨id, fun ⟨m, hm, hparse⟩ =>
          ?_, by rw [decode, hok, Except.bind, if_neg hle]⟩)
        cases hn.symm.trans hparse
        exact hle hm
    · exact .inr (.inl ⟨id, fun ⟨n, _, h⟩ => hn ⟨n, h⟩, by rw [decode, herr]; rfl⟩)
  | diskId =>
    rw [decode]
    split_ifs with hlength hcut
    · exact .inr (.inl ⟨fun h => hlength h.1, fun h => hlength h.1, rfl⟩)
    · exact .inl ⟨⟨not_not.1 hlength, hcut⟩, fun h => h.2.1 hcut, rfl⟩
    rw [not_not] at hlength
    have hcutInside : ¬ CutInside part diskId := fun h => hcut h.2
    obtain ⟨high, hhigh, hok⟩ | ⟨hn, herr⟩ := decodeNumber_cases 16 (part.take 16)
    · rw [hok]
      obtain ⟨low, hlow, hok'⟩ | ⟨hn, herr⟩ := decodeNumber_cases 16 (part.drop 16)
      · rw [hok']
        refine .inr (.inr ⟨hcutInside, ⟨hlength, hcut, ⟨high, hhigh⟩, low, hlow⟩, .diskId high low,
          rfl, ?_, fun h => ?_⟩)
        · rintro rfl
          exact forall_mem_append.2 ⟨digits_renderPadded _ _, digits_renderPadded _ _⟩
        · rw [SegmentValue.encode, renderPadded_of_digits (by simp; omega)
            (fun c hc => h c (mem_of_mem_take hc)) hok,
            renderPadded_of_digits (by simp; omega) (fun c hc => h c (mem_of_mem_drop hc)) hok',
              take_append_drop]
      · exact .inr (.inl ⟨hcutInside, fun h => hn h.2.2.2, by rw [herr]; rfl⟩)
    · exact .inr (.inl ⟨hcutInside, fun h => hn h.2.2.1, by rw [herr]; rfl⟩)
  | service => exact .inr (.inr ⟨id, trivial, .service part, rfl, iff_of_true rfl trivial⟩)

end PathSegment

variable {segs : List PathSegment} {parts : List (List UInt8)} {header : List (List UInt8)}

theorem decodeParts_ne_panics_iff :
    decodeParts segs parts ≠ .error .panics ↔
      ∀ (k : ℕ) (p : PathSegment × List UInt8), (segs.zip parts)[k]? = some p →
        (∀ q ∈ (segs.zip parts).take k, q.1.Reads q.2) → ¬ p.1.CutInside p.2 := by
  induction segs generalizing parts with
  | nil => simp [decodeParts]
  | cons seg segs ih =>
    cases parts with
    | nil => simp [decodeParts]
    | cons part parts =>
      rw [decodeParts, zip_cons_cons]
      obtain ⟨hcut, _, hd⟩ | ⟨hcut, hreads, hd⟩ | ⟨hcut, hreads, v, hd, -⟩ :=
        seg.decode_cases part
      · rw [hd]
        exact iff_of_false (fun h => h rfl) fun h => h 0 _ rfl (by simp) hcut
      · rw [hd]
        refine iff_of_true (by simp [Except.bind]) fun k p hp hall => ?_
        cases k with
        | zero =>
          cases hp
          exact hcut
        | succ k => exact absurd (hall _ mem_cons_self) hreads
      · have htail : (decodeParts segs parts).bind (fun vs => .ok (v :: vs)) ≠ .error .panics ↔
            decodeParts segs parts ≠ .error .panics := by
          cases decodeParts segs parts <;> simp [Except.bind]
        rw [hd, Except.bind, htail, ih]
        constructor
        · intro h k p hp hall
          cases k with
          | zero =>
            cases hp
            exact hcut
          | succ k => exact h k p hp fun q hq => hall q (mem_cons_of_mem _ hq)
        · intro h k p hp hall
          exact h (k + 1) p hp (forall_mem_cons.2 ⟨hreads, hall⟩)

/-- Segments that all read give values, and their paths are the segments if these are canonical. -/
theorem decodeParts_cases (segs : List PathSegment) (parts : List (List UInt8)) :
    (¬ (∀ p ∈ segs.zip parts, p.1.Reads p.2) ∧ ∀ vs, decodeParts segs parts ≠ .ok vs) ∨
    ((∀ p ∈ segs.zip parts, p.1.Reads p.2) ∧ ∃ vs, decodeParts segs parts = .ok vs ∧
      (vs.map SegmentValue.encode = parts.take segs.length ↔ ∀ p ∈ segs.zip parts,
        p.1.Canonical p.2)) := by
  induction segs generalizing parts with
  | nil => exact .inr ⟨by simp, [], by rw [decodeParts], by simp⟩
  | cons seg segs ih =>
    cases parts with
    | nil => exact .inr ⟨by simp, [], by simp [decodeParts], by simp⟩
    | cons part parts =>
      rw [decodeParts, zip_cons_cons, forall_mem_cons, forall_mem_cons]
      obtain ⟨-, hreads, hd⟩ | ⟨-, hreads, hd⟩ | ⟨-, hreads, v, hd, hv⟩ := seg.decode_cases part
      · rw [hd]
        exact .inl ⟨fun h => hreads h.1, by simp [Except.bind]⟩
      · rw [hd]
        exact .inl ⟨fun h => hreads h.1, by simp [Except.bind]⟩
      rw [hd, Except.bind]
      obtain ⟨hall, hnone⟩ | ⟨hall, vs, hvs, hcanon⟩ := ih parts
      · refine .inl ⟨fun h => hall h.2, fun vs h => ?_⟩
        cases hok : decodeParts segs parts with
        | error e =>
          rw [hok] at h
          cases h
        | ok vs => exact hnone vs hok
      · refine .inr ⟨⟨hreads, hall⟩, v :: vs, by rw [hvs]; rfl, ?_⟩
        rw [map_cons, length_cons, take_succ_cons, cons.injEq, hv, hcanon]

theorem not_mem_of_mem_splitOn {c : UInt8} (h : part ∈ s.splitOn c) : c ∉ part := by
  induction s generalizing part with
  | nil =>
    rw [splitOn_nil, mem_singleton] at h
    simp [h]
  | cons b s ih =>
    obtain ⟨p, ps, hps⟩ := exists_cons_of_ne_nil (splitOn_ne_nil c s)
    rw [splitOn_cons_eq_if_modifyHead, hps] at h
    rw [hps] at ih
    split_ifs at h with hb
    · obtain rfl | h := mem_cons.1 h
      · exact not_mem_nil
      · exact ih h
    · obtain rfl | h := mem_cons.1 h
      · rw [mem_cons, not_or]
        exact ⟨fun h => hb (beq_iff_eq.2 h.symm), ih mem_cons_self⟩
      · exact ih (mem_cons_of_mem _ h)

theorem PathSegment.slash_not_mem_encode {seg : PathSegment} {v : SegmentValue} (hs : 47 ∉ part)
    (h : seg.decode part = .ok v) : 47 ∉ v.encode := by
  have hdigit : ∀ d < 16, digitByte d ≠ 47 := by decide
  cases v with
  | number n =>
    intro hc
    obtain ⟨d, hd, heq⟩ := mem_renderRadix (by decide) hc
    exact hdigit d (by omega) heq.symm
  | diskId high low =>
    intro hc
    obtain hc | hc := mem_append.1 hc <;> obtain ⟨d, hd, heq⟩ := mem_renderPadded (by decide) hc <;>
      exact hdigit d hd heq.symm
  | service name =>
    cases seg with
    | service =>
      cases h
      exact hs
    | _ =>
      simp only [decode, Except.bind] at h
      grind

theorem slash_not_mem_decodeParts (hs : ∀ p ∈ parts, (47 : UInt8) ∉ p) {vs : List SegmentValue}
    (h : decodeParts segs parts = .ok vs) : ∀ p ∈ vs.map SegmentValue.encode, 47 ∉ p := by
  induction segs generalizing parts vs with
  | nil =>
    rw [decodeParts] at h
    cases h
    simp
  | cons seg segs ih =>
    cases parts with
    | nil =>
      cases h
      simp
    | cons part parts =>
      rw [decodeParts] at h
      obtain ⟨hpart, hparts⟩ := forall_mem_cons.1 hs
      cases hv : seg.decode part with
      | error =>
        rw [hv] at h
        cases h
      | ok v =>
        cases hvs : decodeParts segs parts with
        | error =>
          rw [hv, hvs] at h
          cases h
        | ok vs =>
          rw [hv, hvs] at h
          cases h
          exact forall_mem_cons.2 ⟨PathSegment.slash_not_mem_encode hpart hv, ih hparts hvs⟩

theorem toPath_eq_iff (hsplit : s.splitOn 47 = [] :: header ++ parts) {vs : List SegmentValue}
    (h : decodeParts segs parts = .ok vs) :
      toPath header vs = s ↔ vs.map SegmentValue.encode = parts := by
  have hs : ∀ p ∈ [] :: header ++ parts, (47 : UInt8) ∉ p := by
    rw [← hsplit]
    exact fun p => not_mem_of_mem_splitOn
  obtain ⟨hheader, hparts⟩ := forall_mem_append.1 hs
  constructor
  · intro heq
    have hvs := forall_mem_append.2 ⟨hheader, slash_not_mem_decodeParts hparts h⟩
    have := splitOn_intercalate 47 hvs (by simp)
    rw [← heq, toPath, this] at hsplit
    exact append_cancel_left hsplit
  · intro heq
    rw [toPath, heq, ← hsplit, intercalate_splitOn]

/-- A parser that has checked the header and the number of segments. -/
theorem exact_iff_spelled (hsplit : s.splitOn 47 = [] :: header ++ parts)
    (hlength : parts.length = segs.length) :
    (decodeParts segs parts ≠ .error .panics ∧ ∀ vs, decodeParts segs parts = .ok vs →
      toPath header vs = s) ↔
      Spelled segs parts := by
  rw [decodeParts_ne_panics_iff]
  refine ⟨fun ⟨huncut, hexact⟩ => ⟨huncut, fun _ hreads => ?_⟩, fun h => ⟨h.uncut, fun vs hvs => ?_⟩⟩
  · obtain ⟨hnot, -⟩ | ⟨-, vs, hvs, hcanon⟩ := decodeParts_cases segs parts
    · exact absurd hreads hnot
    · rw [← hcanon, ← hlength, take_length, ← toPath_eq_iff hsplit hvs]
      exact hexact vs hvs
  · obtain ⟨-, hnone⟩ | ⟨hreads, vs', hvs', hcanon⟩ := decodeParts_cases segs parts
    · exact absurd hvs (hnone vs)
    · cases hvs.symm.trans hvs'
      rw [toPath_eq_iff hsplit hvs]
      have := hcanon.2 (h.canonical hlength hreads)
      rwa [← hlength, take_length] at this

theorem SpelledPath.iff_of_split (hsplit : s.splitOn 47 = [] :: header ++ parts)
    (hlength : segs.length ≤ parts.length) : SpelledPath header segs s ↔ Spelled segs parts := by
  refine ⟨fun h => h parts hsplit hlength, fun h parts' hsplit' _ => ?_⟩
  rwa [← append_cancel_left (hsplit.symm.trans hsplit')]

/-- A path without the header or with too few segments is answered with an error. -/
theorem TextKind.fromPath_cases (kind : TextKind) (s : List UInt8) :
    (∃ parts, s.splitOn 47 = [] :: [kind.pathMagic, kind.pathType] ++ parts ∧
      kind.segments.length ≤ parts.length ∧
      kind.fromPath s = (decodeParts kind.segments parts).bind fun vs =>
        if parts.length = kind.segments.length then .ok vs else .error (.error .trailingBytes)) ∨
    SpelledPath [kind.pathMagic, kind.pathType] kind.segments s ∧ ∃ e, kind.fromPath s =
      .error (.error e) := by
  rw [fromPath]
  split
  · rename_i magic type parts hsplit
    by_cases hheader : magic = kind.pathMagic ∧ type = kind.pathType ∧
      kind.segments.length ≤ parts.length
    · obtain ⟨hmagic, htype, hle⟩ := hheader
      refine .inl ⟨parts, by rw [hsplit, hmagic, htype]; rfl, hle, ?_⟩
      rw [if_neg (not_not.2 hmagic), if_neg (not_not.2 htype), if_neg (Nat.not_lt.2 hle)]
    · refine .inr ⟨fun parts' h hle => absurd ?_ hheader, ?_⟩
      · cases hsplit.symm.trans h
        exact ⟨rfl, rfl, hle⟩
      · by_cases hmagic : magic = kind.pathMagic
        · by_cases htype : type = kind.pathType
          · have hlt : parts.length < kind.segments.length :=
              Nat.not_le.1 fun hle => hheader ⟨hmagic, htype, hle⟩
            exact ⟨.shortInput, by simp [hmagic, htype, hlt]⟩
          · exact ⟨.badTag, by simp [hmagic, htype]⟩
        · exact ⟨.badMagic, by simp [hmagic]⟩
  · rename_i hno
    exact .inr ⟨fun parts h _ => absurd h (hno _ _ _), _, rfl⟩

theorem TextKind.fromPath_exact_iff (kind : TextKind) :
    (kind.fromPath s ≠ .error .panics ∧
        ∀ vs, kind.fromPath s = .ok vs → toPath [kind.pathMagic, kind.pathType] vs = s) ↔
      SpelledPath [kind.pathMagic, kind.pathType] kind.segments s := by
  obtain ⟨parts, hsplit, hle, hfrom⟩ | ⟨hspelled, e, hfrom⟩ := kind.fromPath_cases s
  · rw [SpelledPath.iff_of_split hsplit hle, hfrom]
    by_cases hlength : parts.length = kind.segments.length
    · rw [← exact_iff_spelled hsplit hlength]
      simp only [if_pos hlength]
      cases decodeParts kind.segments parts <;> rfl
    · -- with segments to spare the result is an error, or a panic on the way
      have hspelled : Spelled kind.segments parts ↔ decodeParts kind.segments parts ≠
        .error .panics := by
        rw [decodeParts_ne_panics_iff]
        exact ⟨Spelled.uncut, fun h => ⟨h, fun heq => absurd heq hlength⟩⟩
      rw [hspelled]
      simp only [if_neg hlength]
      cases decodeParts kind.segments parts <;> simp [Except.bind]
  · exact iff_of_true (by simp [hfrom]) hspelled

theorem instanceFromPath_exact_iff :
    (instanceFromPath s ≠ .error .panics ∧ ∀ vs, instanceFromPath s = .ok vs →
      toPath [ascii "srv"] vs = s) ↔
      SpelledPath [ascii "srv"] [.service, .u64] s := by
  -- there is no disk id
  have huncut (parts : List (List UInt8)) (hlength : parts.length ≠ 2) :
    Spelled [.service, .u64] parts := by
    refine ⟨fun k p hp _ => ?_, fun heq => absurd heq hlength⟩
    have hseg : p.1 ∈ [PathSegment.service, .u64] := (of_mem_zip (mem_of_getElem? hp)).1
    cases h : p.1 <;> simp_all [PathSegment.CutInside]
  by_cases hparts : ∃ service id, s.splitOn 47 = [] :: [ascii "srv"] ++ [service, id]
  · obtain ⟨service, id, hsplit⟩ := hparts
    rw [SpelledPath.iff_of_split hsplit le_rfl, ← exact_iff_spelled hsplit rfl,
      instanceFromPath, hsplit]
    simp
  · have herror : instanceFromPath s = .error (.error .badMagic) := by
      rw [instanceFromPath]
      split
      · rename_i magic service id hsplit
        rw [if_pos]
        rintro rfl
        exact hparts ⟨service, id, hsplit⟩
      · rfl
    refine iff_of_true (by simp [herror]) fun parts hsplit _ => huncut parts fun hlength => hparts ?_
    obtain ⟨service, id, rfl⟩ := length_eq_two.1 hlength
    exact ⟨service, id, hsplit⟩

/-- The parser of every kind: no panic, and a key that is returned is written as the string, exactly
    if the segments are `Spelled`. -/
theorem fromPath_toPath_iff (s : List UInt8) :
    (∀ kind : TextKind, (kind.fromPath s ≠ .error .panics ∧
        ∀ vs, kind.fromPath s = .ok vs → toPath [kind.pathMagic, kind.pathType] vs = s) ↔
      SpelledPath [kind.pathMagic, kind.pathType] kind.segments s) ∧
    ((instanceFromPath s ≠ .error .panics ∧ ∀ vs, instanceFromPath s = .ok vs →
      toPath [ascii "srv"] vs = s) ↔
      SpelledPath [ascii "srv"] [.service, .u64] s) :=
  ⟨fun kind => kind.fromPath_exact_iff, instanceFromPath_exact_iff⟩

/-- Two paths of one rack, and a disk path that panics. -/
theorem fromPath_inexact :
    TextKind.rack.fromPath (ascii "/hw/rack/007") = .ok [.number 7] ∧
    toPath [TextKind.rack.pathMagic, TextKind.rack.pathType] [.number 7] = ascii "/hw/rack/7" ∧
    TextKind.disk.fromPath (ascii "/hw/disk/1/2/3/000000000000000" ++ [0xC3, 0xA9] ++
      ascii "000000000000000") =
      .error .panics := by
  decide +kernel

end CrowDB
