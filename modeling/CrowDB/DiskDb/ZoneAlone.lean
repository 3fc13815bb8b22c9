/-
  One `allocate` alone on its zone (`model/zone.rs`), in the arithmetic of 32 bits.

  With one caller no compare-and-swap fails. A sum of a start and a unit count wraps, and a word
  past the bitmap panics: `allocate32_panics`.
-/
import CrowDB.DiskDb.Zone

namespace CrowDB.DdbZone

open List

section

variable (z : DdbZone)

/-- `try_claim_range`; the outer `none` is a panic. -/
def tryClaimRange32 (startBit unitCount : ℕ) : Option (Option UsageBitmap) :=
  let clear := (List.range unitCount).allM fun i =>
    if z.wordCount ≤ wrap32 (startBit + i) / 64 then none else some
      (decide (wrap32 (startBit + i) ∉ z.usageBits))
  clear.map fun clear =>
    if clear then some ((List.range unitCount).foldl
      (fun b i => insert (wrap32 (startBit + i)) b) z.usageBits) else none

/-- `claim_in_word`: the first clear bit of the word from which the range can be claimed. -/
def claimInWord32 (wordIdx unitCount : ℕ) : Option (Option (ℕ × UsageBitmap)) :=
  let starts := ((List.range' (wordIdx * 64) 64).filter fun bit =>
    decide (bit ∉ z.usageBits)).takeWhile
    fun bit => decide (wrap32 (bit + unitCount) ≤ z.unitCapacity)
  starts.findSomeM? fun bit => (z.tryClaimRange32 bit unitCount).map fun claim => claim.map (bit, ·)

/-- The zone after a claim in the word, and the offset of the range. -/
def recordClaim (word unitCount : ℕ) (claim : ℕ × UsageBitmap) : DdbZone × ℕ :=
  ({ z with
      usageBits := claim.2
      lastPos64 := word
      usedCount := wrap32 (z.usedCount + unitCount) }, claim.1)

/-- `allocate`; the outer `none` is a panic. -/
def allocate32 (unitCount : ℕ) : Option (Option (DdbZone × ℕ)) :=
  if ¬ z.allocatable ∨ unitCount = 0 then some none
  else if unitCount > z.unitCapacity then some none
  else
    let words := (List.range z.wordCount).map fun i => (z.lastPos64 % z.wordCount + i) % z.wordCount
    words.findSomeM? fun word =>
      (z.claimInWord32 word unitCount).map fun claim => claim.map (z.recordClaim word unitCount)

/-! ## When the search is exact -/

/-- `try_claim_range` does not refuse the start: no bit of the range is set, up to the first one
    past the bitmap. -/
def Unrefused (start unitCount : ℕ) : Prop :=
  ∀ i < unitCount, (∀ j ≤ i, wrap32 (start + j) / 64 < z.wordCount) → wrap32 (start + i) ∉ z.usageBits

/-- The search in a word comes to the start bit and does not go on from it. -/
structure StopsAt (wordIdx unitCount start : ℕ) : Prop where
  inWord : start ∈ range' (wordIdx * 64) 64
  clear : start ∉ z.usageBits
  /-- neither a clear bit before it nor itself ends the loop over the word -/
  tried : ∀ bit ∈ range' (wordIdx * 64) 64, bit ≤ start → bit ∉ z.usageBits →
    wrap32 (bit + unitCount) ≤ z.unitCapacity
  unrefused : z.Unrefused start unitCount

/-- The units from the offset on are in the zone and clear. -/
def FreeRun (unitCount offset : ℕ) : Prop :=
  offset + unitCount ≤ z.unitCapacity ∧ Disjoint (units offset unitCount) z.usageBits

/-- The word that the search looks at as its `i`-th. -/
def searched (i : ℕ) : ℕ := (z.lastPos64 % z.wordCount + i) % z.wordCount

/-- An exact answer: a free run, which is then set and counted, or none when there is no run. -/
def AllocatesExactly (unitCount : ℕ) : Prop :=
  (∃ z' offset, z.allocate32 unitCount = some (some (z', offset)) ∧ z.FreeRun unitCount offset ∧
      z'.usageBits = z.usageBits ∪ units offset unitCount ∧ z'.usedCount = z.usedCount + unitCount) ∨
    z.allocate32 unitCount = some none ∧ ∀ offset, ¬ z.FreeRun unitCount offset

/-- Bits past the capacity, which count as used, do not hide a run; and the search does not stop at
    a start whose end wraps around before it has come to a word with a run. -/
structure Searchable (unitCount : ℕ) : Prop where
  counted : ∀ offset, z.FreeRun unitCount offset →
    z.usedCount < z.unitCapacity ∧ z.usedCount + unitCount < 2 ^ 32
  unwrapped : z.usedCount < z.unitCapacity → unitCount ≤ z.unitCapacity → ∀ i < z.wordCount, ∀ start,
    z.StopsAt (z.searched i) unitCount start → z.unitCapacity < start + unitCount →
      ∃ j ≤ i, ∃ offset ∈ range' (z.searched j * 64) 64, z.FreeRun unitCount offset

end

variable {z : DdbZone} {unitCount start word : ℕ} {α : Type*}

/-! ## Loops that may panic -/

/-- Nothing is found, or the answer is that of the first element at which the loop stops. -/
theorem findSomeM?_cases {α β : Type} (l : List α) (f : α → Option (Option β)) :
    (l.findSomeM? f = some none ∧ ∀ a ∈ l, f a = some none) ∨
      ∃ before a after, l = before ++ a :: after ∧ (∀ b ∈ before, f b = some none) ∧ f a ≠ some none ∧
        l.findSomeM? f = f a := by
  induction l with
  | nil => exact .inl ⟨rfl, nofun⟩
  | cons a l ih =>
    rw [findSomeM?]
    by_cases ha : f a = some none
    · rw [ha]
      rcases ih with ⟨hnone, hall⟩ | ⟨before, b, after, rfl, hbefore, hb, heq⟩
      · exact .inl ⟨hnone, forall_mem_cons.mpr ⟨ha, hall⟩⟩
      · exact .inr ⟨a :: before, b, after, rfl, forall_mem_cons.mpr ⟨ha, hbefore⟩, hb, heq⟩
    · refine .inr ⟨[], a, l, rfl, nofun, ha, ?_⟩
      match f a, ha with
      | none, _ => rfl
      | some (some _), _ => rfl

theorem map_map_eq_some_none {β γ : Type*} {f : β → γ} {o : Option (Option β)} :
    (o.map fun a => a.map f) = some none ↔ o = some none := by
  rcases o with _ | _ | _ <;> simp

theorem allM_cases (l : List α) (f : α → Option Bool) :
    (l.allM f = some true ∧ ∀ a ∈ l, f a = some true) ∨
      ∃ before a after, l = before ++ a :: after ∧ (∀ b ∈ before, f b = some true) ∧ f a ≠ some true ∧
        l.allM f = f a := by
  induction l with
  | nil => exact .inl ⟨rfl, nofun⟩
  | cons a l ih =>
    rw [allM]
    by_cases ha : f a = some true
    · rw [ha]
      rcases ih with ⟨hall, hmem⟩ | ⟨before, b, after, rfl, hbefore, hb, heq⟩
      · exact .inl ⟨hall, forall_mem_cons.mpr ⟨ha, hmem⟩⟩
      · exact .inr ⟨a :: before, b, after, rfl, forall_mem_cons.mpr ⟨ha, hbefore⟩, hb, heq⟩
    · refine .inr ⟨[], a, l, rfl, nofun, ha, ?_⟩
      match f a, ha with
      | none, _ => rfl
      | some false, _ => rfl

theorem of_map_range_eq {n : ℕ} {g : ℕ → α} {before after : List α} {a : α}
    (h : (range n).map g = before ++ a :: after) :
    before.length < n ∧ a = g before.length ∧ ∀ j < before.length, g j ∈ before := by
  have hlen := congrArg length h
  rw [length_map, length_range, length_append, length_cons] at hlen
  have hget : ∀ j < n, (before ++ a :: after)[j]? = some (g j) := by
    intro j hj
    rw [← h, getElem?_map, getElem?_range hj]
    rfl
  refine ⟨by omega, ?_, fun j hj => ?_⟩
  · have := hget before.length (by omega)
    rw [getElem?_append_right le_rfl, Nat.sub_self, getElem?_cons_zero] at this
    exact Option.some.inj this
  · have := hget j (by omega)
    rw [getElem?_append_left hj] at this
    exact mem_of_getElem? this

theorem allM_eq {l : List α} {f : α → Option Bool} {p : α → Bool} (h : ∀ a ∈ l, f a = some (p a)) :
    l.allM f = some (l.all p) := by
  induction l with
  | nil => rfl
  | cons a l ih =>
    rw [allM, h a mem_cons_self, all_cons]
    cases p a with
    | true => exact ih fun b hb => h b (mem_cons_of_mem _ hb)
    | false => rfl

theorem tryClaimRange32_eq {start : ℕ} (hfit : start + unitCount ≤ z.unitCapacity)
    (hcap : start + unitCount ≤ 2 ^ 32) :
    z.tryClaimRange32 start unitCount = some (z.tryClaimRange start unitCount) := by
  have hbit : ∀ i ∈ range unitCount, wrap32 (start + i) = start + i := by
    intro i hi
    have := mem_range.mp hi
    exact Nat.mod_eq_of_lt (by omega)
  have hclear : ((range unitCount).allM fun i =>
      if z.wordCount ≤ wrap32 (start + i) / 64 then none else some
        (decide (wrap32 (start + i) ∉ z.usageBits))) =
      some ((range unitCount).all fun i => decide (start + i ∉ z.usageBits)) := by
    refine allM_eq fun i hi => ?_
    have hlt := mem_range.mp hi
    rw [hbit i hi, if_neg]
    unfold wordCount
    omega
  have hset : (range unitCount).foldl (fun b i => insert (wrap32 (start + i)) b) z.usageBits =
      (range unitCount).foldl (fun b i => insert (start + i) b) z.usageBits :=
    foldl_ext _ _ _ fun b i hi => by rw [hbit i hi]
  rw [tryClaimRange32, hclear, hset]
  rfl

theorem tryClaimRange32_refuses_iff : z.tryClaimRange32 start unitCount = some none ↔
      ¬ z.Unrefused start unitCount := by
  unfold tryClaimRange32 Unrefused
  rcases allM_cases (range unitCount) fun i => if z.wordCount ≤ wrap32 (start + i) / 64 then none
    else some (decide (wrap32 (start + i) ∉ z.usageBits)) with ⟨hall, hmem⟩ | ⟨before, a,
      after, hsplit, hbefore, ha, heq⟩
  · rw [hall]
    simp only [Option.map_some, if_true, Option.some.injEq, reduceCtorEq, false_iff, not_not]
    intro i hi _
    have := hmem i (mem_range.mpr hi)
    split_ifs at this
    simpa using this
  · obtain ⟨hlt, rfl, hmem⟩ := of_map_range_eq ((map_id _).trans hsplit)
    rw [heq]
    have hin : ∀ j < before.length, wrap32 (start + j) / 64 < z.wordCount ∧
      wrap32 (start + j) ∉ z.usageBits := by
      intro j hj
      have := hbefore j (hmem j hj)
      split_ifs at this with hout
      exact ⟨not_le.mp hout, by simpa using this⟩
    split_ifs at ha ⊢ with hout
    · simp only [Option.map_none, reduceCtorEq, false_iff, not_not]
      intro i _ hall
      by_cases hia : i < before.length
      · exact (hin i hia).2
      · exact absurd (hall _ (not_lt.mp hia)) (not_lt.mpr hout)
    · have hset : wrap32 (start + id before.length) ∈ z.usageBits := by simpa using ha
      simp only [hset, not_true_eq_false, decide_false, Option.map_some, Bool.false_eq_true,
        if_false, true_iff]
      intro hall
      refine hall before.length hlt (fun j hj => ?_) hset
      rcases hj.lt_or_eq with hj | rfl
      · exact (hin j hj).1
      · exact not_le.mp hout

theorem StopsAt.claim_ne (h : z.StopsAt word unitCount start) :
    z.tryClaimRange32 start unitCount ≠ some none :=
  fun hr => tryClaimRange32_refuses_iff.mp hr h.unrefused

theorem mem_takeWhile_iff {l : List ℕ} {p : ℕ → Bool} {a : ℕ} (hl : l.Pairwise (· < ·)) :
    a ∈ l.takeWhile p ↔ a ∈ l ∧ ∀ b ∈ l, b ≤ a → p b = true := by
  induction l with
  | nil => simp
  | cons x l ih =>
    obtain ⟨hx, hl⟩ := pairwise_cons.mp hl
    by_cases hp : p x = true
    · rw [takeWhile_cons_of_pos hp, mem_cons, mem_cons, ih hl]
      constructor
      · rintro (rfl | ⟨ha, hall⟩)
        · exact ⟨.inl rfl, fun b hb hle => (mem_cons.mp hb).elim (· ▸ hp) fun hb =>
            absurd (hx b hb) hle.not_gt⟩
        · exact ⟨.inr ha, fun b hb hle => (mem_cons.mp hb).elim (· ▸ hp) fun hb => hall b hb hle⟩
      · rintro ⟨rfl | ha, hall⟩
        · exact .inl rfl
        · exact .inr ⟨ha, fun b hb => hall b (mem_cons_of_mem _ hb)⟩
    · rw [takeWhile_cons_of_neg hp]
      refine ⟨nofun, fun ⟨ha, hall⟩ => absurd (hall x mem_cons_self ?_) hp⟩
      rcases mem_cons.mp ha with rfl | ha
      · exact le_rfl
      · exact (hx a ha).le

/-- The search in a word stops at the first start bit at which it can. -/
theorem claimInWord32_cases (z : DdbZone) (word unitCount : ℕ) :
    (z.claimInWord32 word unitCount = some none ∧ ∀ bit, ¬ z.StopsAt word unitCount bit) ∨
      ∃ start, z.StopsAt word unitCount start ∧ (∀ bit, z.StopsAt word unitCount bit → start ≤ bit) ∧
        z.claimInWord32 word unitCount =
          (z.tryClaimRange32 start unitCount).map fun claim => claim.map (start, ·) := by
  set starts := ((range' (word * 64) 64).filter fun bit => decide (bit ∉ z.usageBits)).takeWhile
    fun bit => decide (wrap32 (bit + unitCount) ≤ z.unitCapacity) with hstarts
  have hsorted : ((range' (word * 64) 64).filter fun bit => decide (bit ∉ z.usageBits)).Pairwise
    (· < ·) :=
    (pairwise_lt_range' ..).filter _
  have hmem : ∀ bit, z.StopsAt word unitCount bit ↔ bit ∈ starts ∧ z.Unrefused bit unitCount := by
    intro bit
    rw [hstarts, mem_takeWhile_iff hsorted]
    simp only [mem_filter, decide_eq_true_eq, and_imp]
    exact ⟨fun h => ⟨⟨⟨h.inWord, h.clear⟩, fun b hb hclear hle =>
      h.tried b hb hle hclear⟩, h.unrefused⟩,
      fun ⟨⟨⟨hin, hclear⟩, htried⟩, hun⟩ => ⟨hin, hclear, fun b hb hle hc => htried b hb hc hle, hun⟩⟩
  have hnone : ∀ bit, ((z.tryClaimRange32 bit unitCount).map fun claim => claim.map (bit, ·)) =
    some none ↔
      ¬ z.Unrefused bit unitCount := by
    intro bit
    rw [map_map_eq_some_none, tryClaimRange32_refuses_iff]
  rcases findSomeM?_cases starts fun bit => (z.tryClaimRange32 bit unitCount).map fun claim =>
    claim.map (bit, ·) with
    ⟨heq, hall⟩ | ⟨before, start, after, hsplit, hbefore, hstart, heq⟩
  · exact .inl ⟨heq, fun bit hbit => (hnone bit).mp (hall bit ((hmem bit).mp hbit).1)
      ((hmem bit).mp hbit).2⟩
  · have hpair := hsorted.sublist (takeWhile_sublist fun bit =>
      decide (wrap32 (bit + unitCount) ≤ z.unitCapacity))
    rw [← hstarts, hsplit] at hpair
    refine .inr ⟨start, (hmem start).mpr ⟨by simp [hsplit], not_not.mp ((hnone start).not.mp hstart)⟩,
      fun bit hbit => ?_, heq⟩
    obtain ⟨hin, hun⟩ := (hmem bit).mp hbit
    rw [hsplit] at hin
    rcases mem_append.mp hin with hin | hin
    · exact absurd hun ((hnone bit).mp (hbefore bit hin))
    · rcases mem_cons.mp hin with rfl | hin
      · exact le_rfl
      · exact ((pairwise_cons.mp (pairwise_append.mp hpair).2.1).1 bit hin).le

/-! ## Exactness -/

theorem FreeRun.stopsAt (h : z.FreeRun unitCount start) (hn : 0 < unitCount)
    (hcap : z.unitCapacity < 2 ^ 32) :
    z.StopsAt (start / 64) unitCount start where
  inWord := mem_range'_1.mpr (by omega)
  clear := Finset.disjoint_left.mp h.2 (mem_units.mpr ⟨le_rfl, by omega⟩)
  tried bit _ hle _ := by
    have := h.1
    rw [wrap32, Nat.mod_eq_of_lt (by omega)]
    omega
  unrefused i hi _ := by
    have := h.1
    rw [wrap32, Nat.mod_eq_of_lt (by omega)]
    exact Finset.disjoint_left.mp h.2 (mem_units.mpr (by omega))

/-- The search comes to every word. -/
theorem exists_searched (h : word < z.wordCount) : ∃ i < z.wordCount, z.searched i = word := by
  refine ⟨(word + z.wordCount - z.lastPos64 % z.wordCount) % z.wordCount, Nat.mod_lt _ (by omega), ?_⟩
  have hstart := Nat.mod_lt z.lastPos64 (show z.wordCount > 0 by omega)
  rw [searched, Nat.add_mod_mod, Nat.add_sub_cancel' (by omega), Nat.add_mod_right,
    Nat.mod_eq_of_lt h]

/-- The search over the words stops in the first one in which it can. -/
theorem allocate32_cases (hhealth : z.health = .healthy) (hn : 0 < unitCount)
    (hused : z.usedCount < z.unitCapacity) (hfits : unitCount ≤ z.unitCapacity) :
    (z.allocate32 unitCount = some none ∧
        ∀ i < z.wordCount, ∀ bit, ¬ z.StopsAt (z.searched i) unitCount bit) ∨
      ∃ i < z.wordCount, ∃ start, z.StopsAt (z.searched i) unitCount start ∧
        (∀ bit, z.StopsAt (z.searched i) unitCount bit → start ≤ bit) ∧
        (∀ j < i, ∀ bit, ¬ z.StopsAt (z.searched j) unitCount bit) ∧
        z.allocate32 unitCount = ((z.tryClaimRange32 start unitCount).map fun claim =>
          claim.map (start, ·)).map fun claim =>
            claim.map (z.recordClaim (z.searched i) unitCount) := by
  have hsearch : z.allocate32 unitCount = ((range z.wordCount).map z.searched).findSomeM? fun word =>
      (z.claimInWord32 word unitCount).map fun claim => claim.map (z.recordClaim word unitCount) := by
    rw [allocate32, if_neg (by simp [allocatable, hhealth]; omega), if_neg (by omega)]
    rfl
  -- a word is passed when the search stops at none of its bits
  have hpassed : ∀ word bit, ((z.claimInWord32 word unitCount).map fun claim =>
      claim.map (z.recordClaim word unitCount)) = some none → ¬ z.StopsAt word unitCount bit := by
    intro word bit heq
    rcases claimInWord32_cases z word unitCount with ⟨-, hno⟩ | ⟨start, hstop, -, hclaim⟩
    · exact hno bit
    · rw [map_map_eq_some_none, hclaim, map_map_eq_some_none] at heq
      exact absurd heq hstop.claim_ne
  rcases findSomeM?_cases ((range z.wordCount).map z.searched) _ with
    ⟨heq, hall⟩ | ⟨before, word, after, hsplit, hbefore, hhit, heq⟩
  · exact .inl ⟨hsearch.trans heq, fun i hi bit =>
      hpassed _ bit (hall _ (mem_map_of_mem (mem_range.mpr hi)))⟩
  · obtain ⟨hlt, rfl, hmem⟩ := of_map_range_eq hsplit
    rcases claimInWord32_cases z (z.searched before.length) unitCount with
      ⟨hclaim, -⟩ | ⟨start, hstop, hleast, hclaim⟩
    · rw [hclaim] at hhit
      exact absurd rfl hhit
    · refine .inr ⟨before.length, hlt, start, hstop, hleast, fun j hj bit =>
        hpassed _ bit (hbefore _ (hmem j hj)), ?_⟩
      rw [hsearch, heq, hclaim]

/-- **With one caller**, `allocate` finds a run whenever there is one and sets its bits and no
    others, exactly when the zone is searchable. -/
theorem allocate32_exact_iff (hhealth : z.health = .healthy) (hn : 0 < unitCount)
    (hcap : z.unitCapacity < 2 ^ 32) :
    z.AllocatesExactly unitCount ↔ z.Searchable unitCount := by
  -- a refusal is exact when there is no run
  have hrefused (hr : z.allocate32 unitCount = some none) :
      z.AllocatesExactly unitCount ↔ ∀ offset, ¬ z.FreeRun unitCount offset := by
    simp [AllocatesExactly, hr]
  by_cases hlarge : z.unitCapacity < unitCount
  · rw [hrefused (by unfold allocate32; split_ifs <;> rfl)]
    have hnorun : ∀ offset, ¬ z.FreeRun unitCount offset := fun offset h => by have := h.1; omega
    exact ⟨fun _ => ⟨fun offset h => absurd h (hnorun offset), fun _ hle => absurd hle (by omega)⟩,
      fun _ => hnorun⟩
  by_cases hfull : z.unitCapacity ≤ z.usedCount
  · rw [hrefused (by rw [allocate32, if_pos (.inl (by simp [allocatable, hfull]))])]
    exact ⟨fun hnorun => ⟨fun offset h => absurd h (hnorun offset), fun hlt =>
      absurd hfull (by omega)⟩,
      fun h offset hrun => absurd (h.counted offset hrun).1 (by omega)⟩
  rcases allocate32_cases hhealth hn (not_le.mp hfull) (not_lt.mp hlarge) with
    ⟨hr, hno⟩ | ⟨i, hi, start, hstop, hleast, hno, hresult⟩
  · rw [hrefused hr]
    have hnorun : ∀ offset, ¬ z.FreeRun unitCount offset := by
      intro offset hrun
      have hword : offset / 64 < z.wordCount := by
        have := hrun.1
        unfold wordCount
        omega
      obtain ⟨i, hi, hsearched⟩ := exists_searched hword
      exact hno i hi offset (hsearched ▸ hrun.stopsAt hn hcap)
    exact ⟨fun _ => ⟨fun offset h => absurd h (hnorun offset), fun _ _ i hi start h =>
      absurd h (hno i hi start)⟩,
      fun _ => hnorun⟩
  · by_cases hfit : start + unitCount ≤ z.unitCapacity
    · -- the search stops at a run
      have hclear : Disjoint (units start unitCount) z.usageBits := by
        have := hstop.claim_ne
        rw [tryClaimRange32_eq hfit (by omega), tryClaimRange_eq] at this
        by_contra hset
        exact this (by rw [if_neg hset])
      rw [tryClaimRange32_eq hfit (by omega), tryClaimRange_eq, if_pos hclear] at hresult
      have hcount : z.AllocatesExactly unitCount ↔ z.usedCount + unitCount < 2 ^ 32 := by
        constructor
        · rintro (⟨z', offset, hr, -, -, hused⟩ | ⟨hr, -⟩)
          · cases hresult.symm.trans hr
            exact hused ▸ Nat.mod_lt _ (by decide)
          · cases hresult.symm.trans hr
        · exact fun hlt => .inl ⟨_, _, hresult, ⟨hfit, hclear⟩, rfl, Nat.mod_eq_of_lt hlt⟩
      rw [hcount]
      refine ⟨fun hlt => ⟨fun _ _ => ⟨by omega, hlt⟩, fun _ _ j _ bit hbit _ => ?_⟩,
        fun h => (h.counted start ⟨hfit, hclear⟩).2⟩
      exact ⟨i, not_lt.mp fun hj => hno j hj bit hbit, start, hstop.inWord, hfit, hclear⟩
    · -- the end of the range has wrapped around
      refine iff_of_false ?_ fun h => ?_
      · rintro (⟨z', offset, hr, hrun, -⟩ | ⟨hr, -⟩)
        · rw [hr] at hresult
          rcases htry : z.tryClaimRange32 start unitCount with _ | _ | _ <;>
            rw [htry] at hresult <;> cases hresult
          exact hfit hrun.1
        · have := hresult.symm.trans hr
          rw [map_map_eq_some_none, map_map_eq_some_none] at this
          exact hstop.claim_ne this
      · obtain ⟨j, hj, offset, hin, hrun⟩ :=
          h.unwrapped (by omega) (by omega) i hi start hstop (by omega)
        have hstops : z.StopsAt (z.searched j) unitCount offset := by
          have := mem_range'_1.mp hin
          rw [show z.searched j = offset / 64 by omega]
          exact hrun.stopsAt hn hcap
        rcases hj.lt_or_eq with hj | rfl
        · exact hno j hj offset hstops
        · have := hleast offset hstops
          have := hrun.1
          omega

/-- A zone is searchable as long as the sums have 32 bits and only its own units are set. -/
theorem searchable_of_le (hused : z.usedCount = z.usageBits.card)
    (hbits : ∀ bit ∈ z.usageBits, bit < z.unitCapacity)
    (hn : 0 < unitCount) (hcap : z.wordCount * 64 + unitCount ≤ 2 ^ 32) : z.Searchable unitCount where
  counted offset hrun := by
    -- the set bits and the run fit into the zone together
    have hsub : z.usageBits ∪ units offset unitCount ⊆ Finset.range z.unitCapacity := by
      intro u hu
      rw [Finset.mem_range]
      rcases Finset.mem_union.mp hu with hu | hu
      · exact hbits u hu
      · exact (mem_units.mp hu).2.trans_le hrun.1
    have hcard := Finset.card_le_card hsub
    rw [Finset.card_union_of_disjoint hrun.2.symm, units, Nat.card_Ico, Nat.add_sub_cancel_left,
      Finset.card_range,
      ← hused] at hcard
    unfold wordCount at hcap
    omega
  unwrapped _ _ i hi start hstop hlarge := by
    have hword : z.searched i < z.wordCount := Nat.mod_lt _ (by omega)
    have hin := mem_range'_1.mp hstop.inWord
    have hend := hstop.tried start hstop.inWord le_rfl hstop.clear
    rw [wrap32, Nat.mod_eq_of_lt (by omega)] at hend
    omega

/-- A full word, and after it the only range that is left. -/
theorem allocate32_exact_second_word :
    AllocatesExactly { unitCapacity := 70, usageBits := Finset.range 64, usedCount := 64 } 6 :=
  (allocate32_exact_iff rfl (by decide) (by decide)).mpr
    (searchable_of_le (by simp) (by simp; omega) (by decide) (by decide))

/-- An empty zone of `2 ^ 32 - 64` units, the cursor on its last word: the end of the range wraps
    around and passes for a bit of the zone, and the loop over its bits leaves the bitmap. -/
theorem allocate32_panics :
    allocate32 { unitCapacity := 2 ^ 32 - 64, lastPos64 := 2 ^ 26 - 2 } 128 = none ∧
    FreeRun { unitCapacity := 2 ^ 32 - 64, lastPos64 := 2 ^ 26 - 2 } 128 0 ∧
      ¬ AllocatesExactly { unitCapacity := 2 ^ 32 - 64, lastPos64 := 2 ^ 26 - 2 } 128 := by
  have hpanic : allocate32 { unitCapacity := 2 ^ 32 - 64, lastPos64 := 2 ^ 26 - 2 } 128 = none := by
    have hclaim : claimInWord32 { unitCapacity := 2 ^ 32 - 64, lastPos64 := 2 ^ 26 - 2 }
      (2 ^ 26 - 2) 128 = none := by
      decide +kernel
    have hwords : wordCount { unitCapacity := 2 ^ 32 - 64, lastPos64 := 2 ^ 26 - 2 } =
      (2 ^ 26 - 2) + 1 := by decide
    rw [allocate32, if_neg (by decide), if_neg (by decide), hwords, range_succ_eq_map,
      map_cons, findSomeM?,
      show ((2 ^ 26 - 2) % (2 ^ 26 - 2 + 1) + 0) % (2 ^ 26 - 2 + 1) = 2 ^ 26 -
        2 from by decide, hclaim]
    rfl
  refine ⟨hpanic, ⟨by decide, Finset.disjoint_empty_right _⟩, ?_⟩
  rintro (⟨z', offset, hr, -⟩ | ⟨hr, -⟩) <;> cases hpanic.symm.trans hr

end CrowDB.DdbZone
