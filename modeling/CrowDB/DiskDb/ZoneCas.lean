/-
  Concurrent claims in one zone (`allocate` and `rollback_allocate` of `model/zone.rs`, `cas_bit` of
  `bitmap.rs`): every load of a word and every compare-and-swap is a step.

  A range is claimed bit by bit, and given back bit by bit when a compare-and-swap fails.  That fails
  when any bit of the word has changed since it was loaded.  Where bits are given back the failure is
  ignored, or taken for a bit that is clear already, so units may stay set that nobody owns; but no
  unit ever has two owners.
-/
import CrowDB.DiskDb.Zone
import CrowDB.Lib.Lists
import CrowDB.Lib.Runs

namespace CrowDB

open Lib List

/-- The atomics of a zone. -/
structure ZoneAtomics where
  usageBits : UsageBitmap := ∅
  lastPos64 : ℕ := 0
  usedCount : ℕ := 0
deriving DecidableEq

namespace ZoneAtomics

variable (z : ZoneAtomics)

/-- The word of a bit, as the set of its set bits. -/
def word (bit : ℕ) : UsageBitmap := z.usageBits.filter (· / 64 = bit / 64)

/-- A bit is set. -/
def set (bit : ℕ) : ZoneAtomics := { z with usageBits := insert bit z.usageBits }

/-- A bit is cleared. -/
def clear (bit : ℕ) : ZoneAtomics := { z with usageBits := z.usageBits.erase bit }

end ZoneAtomics

/-! ## The calls -/

/-- Where `allocate` stands.  A loaded word waits for its compare-and-swap; `j` counts the bits of the
    range, `k` those that are given back. -/
inductive AllocPhase where
  | begin
  | word
  | pick
  | verify (j : ℕ)
  | set (j : ℕ) (current : Option UsageBitmap)
  | undo (j k : ℕ) (current : Option UsageBitmap)
  | recheck (j : ℕ)
  | storePos
  | addCount
  | returned (unitOffset : Option ℕ)
  | panicked
deriving DecidableEq

/-- A call of `allocate`. -/
structure AllocCall where
  unitCount : ℕ
  casRetryLimit : ℕ
  phase : AllocPhase := .begin
  startWord : ℕ := 0
  i : ℕ := 0
  /-- the bits of the word that are set or tried -/
  bitScan : UsageBitmap := ∅
  startBit : ℕ := 0
  totalRetries : ℕ := 0
deriving DecidableEq

/-- The bit of a unit. -/
def bitAt (start j : ℕ) : ℕ := wrap32 (start + j)

/-- The bits of a range from the `k`-th to before the `j`-th. -/
def bitsOf (start k j : ℕ) : List ℕ := (List.range' k (j - k)).map (bitAt start)

variable (unitCapacity : ℕ) {z z' : ZoneAtomics} {c : ZoneCall}

namespace AllocCall

variable (c : AllocCall)

/-- The words of the bitmap. -/
def wordCount : ℕ := (unitCapacity + 63) / 64

/-- The word to search. -/
def wordIdx : ℕ := (c.startWord + c.i) % wordCount unitCapacity

/-- The next word. -/
def nextWord : AllocCall := { c with i := c.i + 1, phase := .word }

/-- The range is given up, and the next clear bit of the word is tried. -/
def nextBit : AllocCall := { c with bitScan := insert c.startBit c.bitScan, phase := .pick }

/-- A swap failed: undo. -/
def casFailed (j : ℕ) : AllocCall :=
  { c with totalRetries := c.totalRetries + 1, phase := .undo j 0 none }

/-- One load or swap of `allocate`. -/
def step (z : ZoneAtomics) : Option (ZoneAtomics × AllocCall) :=
  let goto := fun phase => some (z, { c with phase })
  match c.phase with
  | .begin =>
    if z.usedCount < unitCapacity ∧ c.unitCount ≠ 0 ∧ c.unitCount ≤ unitCapacity then
      some (z, { c with startWord := z.lastPos64 % wordCount unitCapacity, phase := .word })
    else goto (.returned none)
  | .word =>
    if c.i < wordCount unitCapacity then
      some (z, { c with bitScan := z.word (c.wordIdx unitCapacity * 64), phase := .pick })
    else goto (.returned none)
  | .pick =>
    match (List.range' (c.wordIdx unitCapacity * 64) 64).find? fun bit =>
      decide (bit ∉ c.bitScan) with
    | none => some (z, c.nextWord)
    | some bit =>
      if unitCapacity < bitAt bit c.unitCount then some (z, c.nextWord)
      else some (z, { c with startBit := bit, phase := .verify 0 })
  | .verify j =>
    if j < c.unitCount then
      if wordCount unitCapacity ≤ bitAt c.startBit j / 64 then goto .panicked
      else if bitAt c.startBit j ∈ z.usageBits then some (z, c.nextBit)
      else goto (.verify (j + 1))
    else goto (.set 0 none)
  | .set j none =>
    if j < c.unitCount then goto (.set j (some (z.word (bitAt c.startBit j)))) else goto .storePos
  | .set j (some current) =>
    if bitAt c.startBit j ∉ current ∧ z.word (bitAt c.startBit j) = current then
      some (z.set (bitAt c.startBit j), { c with phase := .set (j + 1) none })
    else some (z, c.casFailed j)
  | .undo j k none =>
    if k < j then goto (.undo j k (some (z.word (bitAt c.startBit k))))
    else if c.totalRetries < c.casRetryLimit then goto (.recheck j)
    else some (z, c.nextBit)
  | .undo j k (some current) =>
    -- a failure is ignored
    if bitAt c.startBit k ∈ current ∧ z.word (bitAt c.startBit k) = current then
      some (z.clear (bitAt c.startBit k), { c with phase := .undo j (k + 1) none })
    else goto (.undo j (k + 1) none)
  | .recheck j => if bitAt c.startBit j ∈ z.usageBits then some (z, c.nextBit) else goto (.verify 0)
  | .storePos => some ({ z with lastPos64 := c.wordIdx unitCapacity }, { c with phase := .addCount })
  | .addCount =>
    some ({ z with usedCount := wrap32 (z.usedCount + c.unitCount) },
      { c with phase := .returned (some c.startBit) })
  | .returned _ | .panicked => none

end AllocCall

/-- Where `rollback_allocate` stands. -/
inductive RollbackPhase where
  | check
  | verify (j : ℕ)
  | clear (j : ℕ) (current : Option UsageBitmap)
  | reset (j k : ℕ) (current : Option UsageBitmap)
  | subCount
  | returned (ok : Bool)
deriving DecidableEq

/-- A call of `rollback_allocate`. -/
structure RollbackCall where
  unitOffset : ℕ
  unitCount : ℕ
  phase : RollbackPhase := .check
deriving DecidableEq

/-- One load or swap of `rollback_allocate`. -/
def RollbackCall.step (c : RollbackCall) (z : ZoneAtomics) : Option (ZoneAtomics × RollbackCall) :=
  let goto := fun phase => some (z, { c with phase })
  match c.phase with
  | .check =>
    if c.unitCount = 0 ∨ unitCapacity < bitAt c.unitOffset c.unitCount then goto
      (.returned false) else goto (.verify 0)
  | .verify j =>
    if j < c.unitCount then
      if bitAt c.unitOffset j ∈ z.usageBits then goto (.verify (j + 1)) else goto (.returned false)
    else goto (.clear 0 none)
  | .clear j none =>
    if j < c.unitCount then goto (.clear j (some (z.word (bitAt c.unitOffset j)))) else goto .subCount
  | .clear j (some current) =>
    if bitAt c.unitOffset j ∈ current ∧ z.word (bitAt c.unitOffset j) = current then
      some (z.clear (bitAt c.unitOffset j), { c with phase := .clear (j + 1) none })
    else goto (.reset j 0 none)
  | .reset j k none =>
    if k < j then goto (.reset j k (some (z.word (bitAt c.unitOffset k)))) else goto (.returned false)
  | .reset j k (some current) =>
    if bitAt c.unitOffset k ∉ current ∧ z.word (bitAt c.unitOffset k) = current then
      some (z.set (bitAt c.unitOffset k), { c with phase := .reset j (k + 1) none })
    else goto (.reset j (k + 1) none)
  | .subCount =>
    some ({ z with usedCount := wrap32 (z.usedCount + (2 ^ 32 - wrap32 c.unitCount)) },
      { c with phase := .returned true })
  | .returned _ => none

/-- A call of either kind. -/
inductive ZoneCall where
  | allocate (c : AllocCall)
  | rollback (c : RollbackCall)
deriving DecidableEq

/-- One load or swap. -/
def ZoneCall.step (z : ZoneAtomics) : ZoneCall → Option (ZoneAtomics × ZoneCall)
  | allocate c => (c.step unitCapacity z).map fun p => (p.1, .allocate p.2)
  | rollback c => (c.step unitCapacity z).map fun p => (p.1, .rollback p.2)

/-- The zone and the calls on it. -/
structure ZoneCas where
  zone : ZoneAtomics
  calls : List ZoneCall := []
deriving DecidableEq

/-- A call begins, or goes on. -/
inductive ZoneCasEvent where
  | allocate (unitCount casRetryLimit : ℕ)
  /-- the owner of the range that call `i` has returned gives it back -/
  | rollback (i : ℕ)
  | advance (i : ℕ)
deriving DecidableEq

namespace ZoneCas

/-- One step. -/
def step (s : ZoneCas) : ZoneCasEvent → Option ZoneCas
  | .allocate unitCount casRetryLimit =>
    some { s with calls := s.calls ++ [.allocate { unitCount, casRetryLimit }] }
  | .rollback i =>
    match s.calls[i]? with
    | some (.allocate { unitCount, phase := .returned (some unitOffset), .. }) =>
      some { s with calls := s.calls.set i (.rollback { unitOffset, unitCount }) }
    | _ => none
  | .advance i => s.calls[i]?.bind fun c => (c.step unitCapacity s.zone).map fun p =>
      ⟨p.1, s.calls.set i p.2⟩

end ZoneCas

/-! ## Who owns a bit -/

/-- The bits that the call has set and not given back, or given up. -/
def AllocCall.owned (c : AllocCall) : List ℕ :=
  match c.phase with
  | .set j _ => bitsOf c.startBit 0 j
  | .undo j k none => bitsOf c.startBit k j
  | .undo j k (some _) => bitAt c.startBit k :: bitsOf c.startBit (k + 1) j
  | .storePos | .addCount => bitsOf c.startBit 0 c.unitCount
  | .returned (some unitOffset) => bitsOf unitOffset 0 c.unitCount
  | _ => []

/-- The bits it has still to clear. -/
def RollbackCall.owned (c : RollbackCall) : List ℕ :=
  match c.phase with
  | .check | .verify _ => bitsOf c.unitOffset 0 c.unitCount
  | .clear j none => bitsOf c.unitOffset j c.unitCount
  | .clear j (some _) => bitAt c.unitOffset j :: bitsOf c.unitOffset (j + 1) c.unitCount
  | _ => []

namespace ZoneCall

/-- The bits that a call owns. -/
def owned : ZoneCall → List ℕ
  | allocate c => c.owned
  | rollback c => c.owned

/-- The bits of a range that was returned and not given back. -/
def held : ZoneCall → List ℕ
  | allocate { unitCount, phase := .returned (some unitOffset), .. } => bitsOf unitOffset 0 unitCount
  | _ => []

/-- The call is over. -/
def hasReturned : ZoneCall → Bool
  | allocate { phase := .returned _, .. } | rollback { phase := .returned _, .. } => true
  | _ => false

/-- The bits that `used_count` has been raised for. -/
def counted : ZoneCall → List ℕ
  | rollback { phase := .returned true, .. } => []
  | rollback { unitOffset, unitCount, .. } => bitsOf unitOffset 0 unitCount
  | c => c.held

/-- A call that is about to give a bit back finds the word as it has loaded it. -/
def unhindered (z : ZoneAtomics) : ZoneCall → Bool
  | allocate { phase := .undo _ k (some current), startBit, .. } =>
      z.word (bitAt startBit k) = current
  | rollback { phase := .clear j (some current), unitOffset, .. } =>
      z.word (bitAt unitOffset j) = current
  | _ => true

/-- The range fits, and no rollback has failed. -/
def Ok : ZoneCall → Prop
  | allocate c =>
    match c.phase with
    | .begin | .panicked | .returned none => True
    | .word | .pick => c.unitCount ≠ 0
    | .set j none => (c.unitCount ≠ 0 ∧ bitAt c.startBit c.unitCount ≤ unitCapacity) ∧ j ≤ c.unitCount
    | .set j (some _) => (c.unitCount ≠ 0 ∧ bitAt c.startBit c.unitCount ≤ unitCapacity) ∧
        j < c.unitCount
    | .returned (some unitOffset) => c.unitCount ≠ 0 ∧ bitAt unitOffset c.unitCount ≤ unitCapacity
    | _ => c.unitCount ≠ 0 ∧ bitAt c.startBit c.unitCount ≤ unitCapacity
  | rollback c =>
    match c.phase with
    | .check => c.unitCount ≠ 0 ∧ bitAt c.unitOffset c.unitCount ≤ unitCapacity
    | .reset _ _ _ | .returned false => False
    | _ => True

/-- The call cannot lose a bit in its next step. -/
structure Fine (z : ZoneAtomics) (c : ZoneCall) : Prop where
  ok : c.Ok unitCapacity
  owned : ∀ u ∈ c.owned, u ∈ z.usageBits
  unhindered : c.unhindered z = true

end ZoneCall

theorem bitsOf_succ (start j : ℕ) : bitsOf start 0 (j + 1) = bitsOf start 0 j ++ [bitAt start j] := by
  simp [bitsOf, range'_1_concat]

theorem bitsOf_cons {start k j : ℕ} (h : k < j) :
    bitsOf start k j = bitAt start k :: bitsOf start (k + 1) j := by
  rw [bitsOf, show j - k = (j - (k + 1)) + 1 by omega, range'_succ]
  rfl

theorem bitsOf_nil (start : ℕ) {k j : ℕ} (h : j ≤ k) : bitsOf start k j = [] := by
  rw [bitsOf, Nat.sub_eq_zero_of_le h]
  rfl

theorem ZoneAtomics.mem_word {bit : ℕ} : bit ∈ z.word bit ↔ bit ∈ z.usageBits := by
  simp [word]

/-- What a step does to the bitmap and to the bits of the call, up to bits that `R` lets it lose. -/
inductive Moves (R : List ℕ → List ℕ → Prop) (z z' : ZoneAtomics) (own own' : List ℕ) : Prop
  | keep (hz : z'.usageBits = z.usageBits) (hown : R own' own)
  | set (b : ℕ) (hb : b ∉ z.usageBits) (hz : z'.usageBits = insert b z.usageBits)
      (hown : R own' (own ++ [b]))
  | clear (b : ℕ) (hz : z'.usageBits = z.usageBits.erase b) (hown : own = b :: own')

namespace Moves

variable {R : List ℕ → List ℕ → Prop} {own own' rest : List ℕ}

/-- **No bit gets a second owner.** -/
theorem owns (h : Moves R z z' own own') (hR : ∀ {a b}, R a b → a.Sublist b)
    (ho : (own ++ rest).Nodup ∧ ∀ u ∈ own ++ rest, u ∈ z.usageBits) :
    (own' ++ rest).Nodup ∧ ∀ u ∈ own' ++ rest, u ∈ z'.usageBits := by
  cases h with
  | keep hz hown =>
    have hsub := (hR hown).append (Sublist.refl rest)
    exact ⟨ho.1.sublist hsub, fun u hu => hz ▸ ho.2 u (hsub.subset hu)⟩
  | set b hb hz hown =>
    have hsub := (hR hown).append (Sublist.refl rest)
    have hnew : (own ++ [b] ++ rest).Nodup := by
      rw [append_assoc, singleton_append]
      exact nodup_middle.mpr (nodup_cons.mpr ⟨fun hmem => hb (ho.2 b hmem), ho.1⟩)
    refine ⟨hnew.sublist hsub, fun u hu => ?_⟩
    rw [hz, Finset.mem_insert]
    rcases mem_append.mp (hsub.subset hu) with hu | hu
    · rcases mem_append.mp hu with hu | hu
      · exact .inr (ho.2 u (mem_append_left _ hu))
      · exact .inl (mem_singleton.mp hu)
    · exact .inr (ho.2 u (mem_append_right _ hu))
  | clear b hz hown =>
    subst hown
    obtain ⟨hb, hnodup⟩ := nodup_cons.mp ho.1
    refine ⟨hnodup, fun u hu => ?_⟩
    rw [hz, Finset.mem_erase]
    exact ⟨fun heq => hb (heq ▸ hu), ho.2 u (mem_cons_of_mem _ hu)⟩

theorem covers (h : Moves R z z' own own') (hR : ∀ {a b}, R a b → a = b)
    (hc : ∀ u ∈ z.usageBits, u ∈ own ++ rest) :
    ∀ u ∈ z'.usageBits, u ∈ own' ++ rest := by
  intro u hu
  cases h with
  | keep hz hown => exact hR hown ▸ hc u (hz ▸ hu)
  | set _ _ hz hown =>
    rw [hz, Finset.mem_insert] at hu
    rw [hR hown, append_assoc, mem_append, singleton_append, mem_cons]
    rcases hu with rfl | hu
    · exact .inr (.inl rfl)
    · exact (mem_append.mp (hc u hu)).imp_right .inr
  | clear b hz hown =>
    rw [hz, Finset.mem_erase] at hu
    have hold := hc u hu.2
    rw [hown, cons_append, mem_cons] at hold
    exact hold.resolve_left hu.1

end Moves

/-- What a step does to the bits of its call. -/
structure CallEffect (z z' : ZoneAtomics) (c c' : ZoneCall) : Prop where
  moves : Moves (fun own' own => own'.Sublist own ∧ (c.Fine unitCapacity z → own' = own))
    z z' c.owned c'.owned
  ok : c.Fine unitCapacity z → c'.Ok unitCapacity
  counts : wrap32 (z'.usedCount + c.counted.length) = wrap32 (z.usedCount + c'.counted.length)

section effect

variable {unitCapacity : ℕ} {c' : ZoneCall}

theorem CallEffect.same (hz : z'.usageBits = z.usageBits) (hown : c'.owned = c.owned)
    (hok : c.Fine unitCapacity z → c'.Ok unitCapacity)
    (hcount : wrap32 (z'.usedCount + c.counted.length) = wrap32 (z.usedCount + c'.counted.length)) :
    CallEffect unitCapacity z z' c c' :=
  ⟨.keep hz ⟨hown ▸ .refl _, fun _ => hown⟩, hok, hcount⟩

theorem AllocCall.effect {c c' : AllocCall} (h : c.step unitCapacity z = some (z', c')) :
    CallEffect unitCapacity z z' (.allocate c) (.allocate c') := by
  obtain ⟨n, limit, phase, startWord, i, bitScan, start, retries⟩ := c
  cases phase with
  | begin =>
    simp only [step] at h
    split at h
    · next hn => cases h; exact .same rfl rfl (fun _ => hn.2.1) rfl
    · cases h; exact .same rfl rfl (fun _ => trivial) rfl
  | word =>
    simp only [step] at h
    split at h
    · cases h; exact .same rfl rfl (fun hf => hf.ok) rfl
    · cases h; exact .same rfl rfl (fun _ => trivial) rfl
  | pick =>
    simp only [step] at h
    split at h
    · cases h; exact .same rfl rfl (fun hf => hf.ok) rfl
    · split at h
      · cases h; exact .same rfl rfl (fun hf => hf.ok) rfl
      · next hle => cases h; exact .same rfl rfl (fun hf => ⟨hf.ok, not_lt.mp hle⟩) rfl
  | verify =>
    simp only [step] at h
    split at h
    · split at h
      · cases h; exact .same rfl rfl (fun _ => trivial) rfl
      · split at h
        · cases h; exact .same rfl rfl (fun hf => hf.ok.1) rfl
        · cases h; exact .same rfl rfl (fun hf => hf.ok) rfl
    · cases h; exact .same rfl rfl (fun hf => ⟨hf.ok, Nat.zero_le n⟩) rfl
  | set j current =>
    cases current with
    | none =>
      simp only [step] at h
      split at h
      · next hj => cases h; exact .same rfl rfl (fun hf => ⟨hf.ok.1, hj⟩) rfl
      · next hj =>
        cases h
        refine ⟨.keep rfl ⟨?_, fun hf => ?_⟩, fun hf => hf.ok.1, rfl⟩
        · exact (range'_sublist_right.mpr (not_lt.mp hj)).map _
        · rw [ZoneCall.owned, owned, le_antisymm (not_lt.mp hj) hf.ok.2]
          rfl
    | some =>
      simp only [step] at h
      split at h
      · next hb =>
        cases h
        have hclear : bitAt start j ∉ z.usageBits :=
          fun hmem => hb.1 (hb.2 ▸ ZoneAtomics.mem_word.mpr hmem)
        exact ⟨.set _ hclear rfl ⟨bitsOf_succ start j ▸ .refl _, fun _ => bitsOf_succ start j⟩,
          fun hf => ⟨hf.ok.1, hf.ok.2⟩, rfl⟩
      · cases h; exact .same rfl rfl (fun hf => hf.ok.1) rfl
  | undo j k current =>
    cases current with
    | none =>
      simp only [step] at h
      split at h
      · next hk => cases h; exact .same rfl (bitsOf_cons hk).symm (fun hf => hf.ok) rfl
      · next hk =>
        have hnil := (bitsOf_nil start (not_lt.mp hk)).symm
        split at h
        · cases h; exact .same rfl hnil (fun hf => hf.ok) rfl
        · cases h; exact .same rfl hnil (fun hf => hf.ok.1) rfl
    | some current =>
      simp only [step] at h
      split at h
      · cases h; exact ⟨.clear _ rfl rfl, fun hf => hf.ok, rfl⟩
      · next hb =>
        cases h
        refine ⟨.keep rfl ⟨sublist_cons_self _ _, fun hf => ?_⟩, fun hf => hf.ok, rfl⟩
        have hword : z.word (bitAt start k) = current := of_decide_eq_true hf.unhindered
        exact absurd ⟨hword ▸ ZoneAtomics.mem_word.mpr (hf.owned _ (mem_cons_self ..)), hword⟩ hb
  | recheck =>
    simp only [step] at h
    split at h
    · cases h; exact .same rfl rfl (fun hf => hf.ok.1) rfl
    · cases h; exact .same rfl rfl (fun hf => hf.ok) rfl
  | storePos => cases h; exact .same rfl rfl (fun hf => hf.ok) rfl
  | addCount =>
    cases h
    refine .same rfl rfl (fun hf => hf.ok) ?_
    simp [ZoneCall.counted, ZoneCall.held, bitsOf, wrap32]
  | returned => cases h
  | panicked => cases h

theorem RollbackCall.effect {c c' : RollbackCall} (h : c.step unitCapacity z = some (z', c')) :
    CallEffect unitCapacity z z' (.rollback c) (.rollback c') := by
  obtain ⟨o, n, phase⟩ := c
  cases phase with
  | check =>
    simp only [step] at h
    split at h
    · next hbad =>
      have hnot : ¬ ZoneCall.Fine unitCapacity z (.rollback ⟨o, n, .check⟩) := fun hf =>
        hbad.elim hf.ok.1 (not_lt.mpr hf.ok.2)
      cases h
      exact ⟨.keep rfl ⟨nil_sublist _, fun hf => absurd hf hnot⟩, fun hf => absurd hf hnot, rfl⟩
    · cases h; exact .same rfl rfl (fun _ => trivial) rfl
  | verify j =>
    simp only [step] at h
    split at h
    · next hj =>
      split at h
      · cases h; exact .same rfl rfl (fun _ => trivial) rfl
      · next hb =>
        have hnot : ¬ ZoneCall.Fine unitCapacity z (.rollback ⟨o, n, .verify j⟩) := fun hf =>
          hb (hf.owned _ (mem_map_of_mem (mem_range'_1.mpr ⟨Nat.zero_le j, by simpa using hj⟩)))
        cases h
        exact ⟨.keep rfl ⟨nil_sublist _, fun hf => absurd hf hnot⟩, fun hf => absurd hf hnot, rfl⟩
    · cases h; exact .same rfl rfl (fun _ => trivial) rfl
  | clear j current =>
    cases current with
    | none =>
      simp only [step] at h
      split at h
      · next hj => cases h; exact .same rfl (bitsOf_cons hj).symm (fun _ => trivial) rfl
      · next hj => cases h; exact .same rfl (bitsOf_nil o (not_lt.mp hj)).symm (fun _ => trivial) rfl
    | some current =>
      simp only [step] at h
      split at h
      · cases h; exact ⟨.clear _ rfl rfl, fun _ => trivial, rfl⟩
      · next hb =>
        have hnot : ¬ ZoneCall.Fine unitCapacity z (.rollback ⟨o, n, .clear j (some current)⟩) :=
          fun hf =>
          have hword : z.word (bitAt o j) = current := of_decide_eq_true hf.unhindered
          hb ⟨hword ▸ ZoneAtomics.mem_word.mpr (hf.owned _ (mem_cons_self ..)), hword⟩
        cases h
        exact ⟨.keep rfl ⟨nil_sublist _, fun hf => absurd hf hnot⟩, fun hf => absurd hf hnot, rfl⟩
  | reset j k current =>
    have hnot : ¬ ZoneCall.Fine unitCapacity z (.rollback ⟨o, n, .reset j k current⟩) :=
      fun hf => hf.ok
    cases current with
    | none =>
      simp only [step] at h
      split at h <;> (cases h; exact .same rfl rfl (fun hf => absurd hf hnot) rfl)
    | some =>
      simp only [step] at h
      split at h
      · next hb =>
        cases h
        have hclear : bitAt o k ∉ z.usageBits :=
          fun hmem => hb.1 (hb.2 ▸ ZoneAtomics.mem_word.mpr hmem)
        exact ⟨.set _ hclear rfl ⟨nil_sublist _, fun hf => absurd hf hnot⟩, fun hf =>
          absurd hf hnot, rfl⟩
      · cases h; exact .same rfl rfl (fun hf => absurd hf hnot) rfl
  | subCount =>
    cases h
    refine .same rfl rfl (fun _ => trivial) ?_
    simp only [ZoneCall.counted, bitsOf, length_map, length_range', wrap32, length_nil]
    omega
  | returned => cases h

theorem ZoneCall.effect (h : c.step unitCapacity z = some (z', c')) :
    CallEffect unitCapacity z z' c c' := by
  cases c with
  | allocate c | rollback c =>
    obtain ⟨⟨z₁, c₁⟩, hc, heq⟩ := Option.map_eq_some_iff.mp h
    cases heq
    exact c.effect hc

end effect

theorem ZoneCall.held_subset : c.held ⊆ c.owned := by
  intro u hu
  unfold ZoneCall.held at hu
  split at hu
  · exact hu
  · cases hu

namespace ZoneCas

variable {unitCapacity} {s s' : ZoneCas} {e : ZoneCasEvent}

/-! ## No unit has two owners -/

/-- The bits that are set for good (`kept`) and those of the calls are set, and each has one owner. -/
def Owns (kept : List ℕ) (s : ZoneCas) : Prop :=
  (kept ++ s.calls.flatMap ZoneCall.owned).Nodup ∧ ∀ u ∈ kept ++ s.calls.flatMap ZoneCall.owned, u ∈
    s.zone.usageBits

/-- A call that gives a bit back finds the word as it has loaded it. -/
def unhindered (s : ZoneCas) : ZoneCasEvent → Bool
  | .advance i => s.calls[i]?.all (·.unhindered s.zone)
  | _ => true

theorem step_cases (h : s.step unitCapacity e = some s') :
    (∃ c : AllocCall, c.phase = .begin ∧ s' = { s with calls := s.calls ++ [.allocate c] }) ∨
    ∃ i c z' c', s.calls[i]? = some c ∧ (s.unhindered e = true → c.unhindered s.zone = true) ∧
      CallEffect unitCapacity s.zone z' c c' ∧ s' = ⟨z', s.calls.set i c'⟩ := by
  cases e with
  | allocate => exact .inl ⟨_, rfl, (Option.some.inj h).symm⟩
  | rollback i =>
    simp only [step] at h
    split at h
    · next n _ o _ _ _ _ _ hi =>
      exact .inr ⟨i, _, _, .rollback ⟨o, n, .check⟩, hi, fun _ => rfl,
        .same rfl rfl (fun hf => hf.ok) rfl,
        (Option.some.inj h).symm⟩
    · cases h
  | advance i =>
    obtain ⟨c, hi, h⟩ := Option.bind_eq_some_iff.mp h
    obtain ⟨⟨z', c'⟩, hc, rfl⟩ := Option.map_eq_some_iff.mp h
    exact .inr ⟨i, c, z', c', hi, by simp [unhindered, hi], ZoneCall.effect hc, rfl⟩

theorem perm_of_call (kept : List ℕ) {i : ℕ} (hi : s.calls[i]? = some c) :
    ∃ rest, (kept ++ s.calls.flatMap ZoneCall.owned).Perm (c.owned ++ rest) ∧
      ∀ c', (kept ++ (s.calls.set i c').flatMap ZoneCall.owned).Perm (c'.owned ++ rest) := by
  obtain ⟨rest, hold, hnew⟩ := flatMap_set_perm hi ZoneCall.owned
  have hmove : ∀ own : List ℕ, (kept ++ (own ++ rest)).Perm (own ++ (kept ++ rest)) := fun own => by
    rw [← append_assoc, ← append_assoc]
    exact perm_append_comm.append_right rest
  exact ⟨kept ++ rest, (hold.append_left kept).trans (hmove _), fun c' =>
    ((hnew c').append_left kept).trans (hmove _)⟩

theorem Owns.step {kept : List ℕ} (ho : Owns kept s) (h : s.step unitCapacity e = some s') :
    Owns kept s' := by
  obtain ⟨c, hc, rfl⟩ | ⟨i, c, z', c', hi, -, heff, rfl⟩ := step_cases h
  · have hnil : ZoneCall.owned (.allocate c) = [] := by rw [ZoneCall.owned, AllocCall.owned, hc]
    simpa only [Owns, flatMap_append, flatMap_singleton, hnil, append_nil] using ho
  · obtain ⟨rest, hold, hnew⟩ := perm_of_call kept hi
    have hafter := heff.moves.owns And.left ⟨hold.nodup_iff.mp ho.1, fun u hu =>
      ho.2 u (hold.mem_iff.mpr hu)⟩
    exact ⟨(hnew c').nodup_iff.mpr hafter.1, fun u hu => hafter.2 u ((hnew c').mem_iff.mp hu)⟩

/-- **Ranges that are held at the same time are disjoint**, whatever the order of the steps. -/
theorem disjoint_of_reach (hr : Reach (step unitCapacity) (fun _ _ => True) { zone := z } s) :
    s.calls.Pairwise fun c d => c.held.Disjoint d.held := by
  have ho : Owns [] s := hr.invariant (P := Owns []) (by simp [Owns]) fun ho _ hstep => ho.step hstep
  refine (nodup_flatMap.mp ho.1).2.imp fun hdis u hu hu' => ?_
  exact hdis (ZoneCall.held_subset hu) (ZoneCall.held_subset hu')

/-- Call `i` takes `n` steps. -/
def advances (i n : ℕ) : List ZoneCasEvent := List.replicate n (.advance i)

/-- Two calls race for the first unit; the loser takes the next one. -/
theorem disjoint_after_race : ∃ s, Reach (step 64) (fun _ _ => True) { zone := {} } s ∧
    s.calls.map ZoneCall.held = [[0], [1]] ∧ s.calls.Pairwise fun c d => c.held.Disjoint d.held := by
  exact Reach.exists_and_of_run
    ([.allocate 1 1, .allocate 1 1] ++ advances 0 6 ++ advances 1 6 ++ advances 0 4 ++
    advances 1 10)
      (by decide +kernel) fun s hr _ => disjoint_of_reach hr

/-! ## No unit is lost while the words stay as they were loaded -/

/-- Every set bit has an owner, and `used_count` counts the bits that were set at first and those of
    the calls. -/
structure Accounts (unitCapacity : ℕ) (z : ZoneAtomics) (s : ZoneCas) : Prop where
  owns : Owns z.usageBits.toList s
  covers : ∀ u ∈ s.zone.usageBits, u ∈ z.usageBits.toList ++ s.calls.flatMap ZoneCall.owned
  ok : ∀ c ∈ s.calls, c.Ok unitCapacity
  counts : wrap32 s.zone.usedCount = wrap32 (z.usedCount + (s.calls.flatMap ZoneCall.counted).length)

theorem Accounts.step (ha : Accounts unitCapacity z s) (hu : s.unhindered e = true)
    (h : s.step unitCapacity e = some s') : Accounts unitCapacity z s' := by
  have howns := ha.owns.step h
  obtain ⟨c, hc, rfl⟩ | ⟨i, c, z', c', hi, hword, heff, rfl⟩ := step_cases h
  · obtain ⟨n, limit, phase⟩ := c
    cases hc
    refine ⟨howns, fun u hu => ?_, forall_mem_concat ha.ok trivial, ?_⟩
    · simpa [ZoneCall.owned, AllocCall.owned] using ha.covers u hu
    · simpa [ZoneCall.counted, ZoneCall.held] using ha.counts
  · obtain ⟨rest, hold, hnew⟩ := perm_of_call z.usageBits.toList hi
    obtain ⟨crest, hcold, hcnew⟩ := flatMap_set_perm hi ZoneCall.counted
    have hfine : c.Fine unitCapacity s.zone := by
      refine ⟨ha.ok c (mem_of_getElem? hi), fun u hu => ?_, hword hu⟩
      exact ha.owns.2 u (hold.mem_iff.mpr (mem_append_left _ hu))
    refine ⟨howns, fun u hu => ?_, ?_, ?_⟩
    · exact (hnew c').mem_iff.mpr
        (heff.moves.covers (fun hR => hR.2 hfine) (fun u hu => hold.mem_iff.mp (ha.covers u hu)) u hu)
    · exact forall_mem_set ha.ok (heff.ok hfine)
    · have hcounts := heff.counts
      have hbefore := ha.counts
      rw [hcold.length_eq, length_append] at hbefore
      rw [(hcnew c').length_eq, length_append]
      change wrap32 z'.usedCount = _
      unfold wrap32 at *
      omega

theorem ZoneCall.owned_eq_held (hret : c.hasReturned = true) (hok : c.Ok unitCapacity) :
    c.owned = c.held ∧ c.counted = c.held := by
  unfold ZoneCall.hasReturned at hret
  split at hret
  · next n limit o w i b st r => cases o <;> exact ⟨rfl, rfl⟩
  · next o n ok => cases ok with
    | false => exact hok.elim
    | true => exact ⟨rfl, rfl⟩
  · cases hret

/-- **No unit is lost while the words stay as they were loaded whenever a bit is given back**: once
    all calls have returned, the set bits are those of the start and those that are held, and
    `used_count` is their number. -/
theorem accounted_of_reach (hcount : z.usedCount = wrap32 z.usageBits.card)
    (hr : Reach (step unitCapacity) (fun s e => s.unhindered e = true) { zone := z } s)
    (hret : ∀ c ∈ s.calls, c.hasReturned = true) :
    (∀ u, u ∈ s.zone.usageBits ↔ u ∈ z.usageBits ∨ u ∈ s.calls.flatMap ZoneCall.held) ∧
      wrap32 s.zone.usedCount = wrap32 s.zone.usageBits.card := by
  have ha : Accounts unitCapacity z s := by
    refine hr.invariant (P := Accounts unitCapacity z) ⟨⟨?_, ?_⟩, ?_, ?_, rfl⟩ fun ha hu hstep =>
      ha.step hu hstep
    · simpa using z.usageBits.nodup_toList
    · simp
    · simp
    · simp
  have howned : s.calls.flatMap ZoneCall.owned = s.calls.flatMap ZoneCall.held :=
    flatMap_congr fun c hc => (ZoneCall.owned_eq_held (hret c hc) (ha.ok c hc)).1
  have hcounted : s.calls.flatMap ZoneCall.counted = s.calls.flatMap ZoneCall.held :=
    flatMap_congr fun c hc => (ZoneCall.owned_eq_held (hret c hc) (ha.ok c hc)).2
  have hbits : s.zone.usageBits = (z.usageBits.toList ++ s.calls.flatMap ZoneCall.held).toFinset := by
    ext u
    rw [mem_toFinset, ← howned]
    exact ⟨ha.covers u, ha.owns.2 u⟩
  refine ⟨fun u => by rw [hbits]; simp, ?_⟩
  have hnodup := ha.owns.1
  rw [howned] at hnodup
  rw [ha.counts, hcounted, hbits, toFinset_card_of_nodup hnodup, length_append,
    Finset.length_toList, hcount]
  unfold wrap32
  omega

theorem accounted_after_rollback : ∃ s, Reach (step 64) (fun s e => s.unhindered e = true)
    { zone := {} } s ∧
    (∀ c ∈ s.calls, c.hasReturned = true) ∧ s.calls.map ZoneCall.held = [[], [2]] ∧
    ((∀ u, u ∈ s.zone.usageBits ↔ u ∈ (∅ : UsageBitmap) ∨ u ∈ s.calls.flatMap ZoneCall.held) ∧
      wrap32 s.zone.usedCount = wrap32 s.zone.usageBits.card) := by
  exact Reach.exists_imp_of_run (fun s => (∀ c ∈ s.calls, c.hasReturned = true) ∧
    s.calls.map ZoneCall.held = [[],
      [2]])
    ([.allocate 2 3, .allocate 1 3] ++ advances 0 13 ++ advances 1 10 ++
      [.rollback 0] ++ advances 0 10)
      (by decide +kernel) fun s hr ⟨hret, hheld⟩ => ⟨hret, hheld, accounted_of_reach rfl hr hret⟩

/-- The first call finds its second bit taken; a third call changes the word while the first bit is
    given back, and that bit stays set. -/
theorem unit_leaked : ∃ s, Reach (step 64) (fun _ _ => True) { zone := {} } s ∧
    (∀ c ∈ s.calls, c.hasReturned = true) ∧ s.zone.usageBits = {0, 1, 2, 3, 4} ∧
    s.calls.map ZoneCall.held = [[3, 4], [1], [2]] ∧ s.zone.usedCount = 4 :=
  Reach.exists_of_run ([.allocate 2 3, .allocate 1 3, .allocate 1 3] ++ advances 0 9 ++
    advances 1 10 ++ advances 0 2 ++
    advances 2 10 ++ advances 0 18) (by decide +kernel)

end ZoneCas

end CrowDB
