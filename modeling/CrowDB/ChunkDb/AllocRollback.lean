/-
  What a failed allocation leaves behind (`allocator.rs`, and `allocate_chunk` and `append_chunk` of
  `lifecycle.rs`).

  A strip that cannot be allocated frees what it got.  The strips before it stay allocated, and so do
  all strips of a chunk whose record cannot be written.
-/
import Mathlib.Algebra.Order.Group.Multiset
import CrowDB.ChunkDb.StripAlloc

namespace CrowDB.ChunkAllocator

/-- Diskdb during a call: its requests so far, and the blocks that were allocated and not freed. -/
structure Diskdb (Seg : Type*) where
  requests : ℕ := 0
  held : Multiset Seg := 0

variable {Seg : Type*} [DecidableEq Seg]

/-- Free the segments. -/
def freeAll (d : Diskdb Seg) (segments : List Seg) : Diskdb Seg :=
  { d with held := d.held - segments }

-- the segments that each request gets, `none` for an error

variable (answer : ℕ → Option (List Seg))

/-- The next request. -/
def allocateBlocks (d : Diskdb Seg) : Diskdb Seg × Option (List Seg) :=
  (⟨d.requests + 1, d.held + ((answer d.requests).getD [] : List Seg)⟩, answer d.requests)

/-- The requests of a round: whether one failed, the segments, and what is missing. -/
def round : Diskdb Seg → List (ℕ × ℕ) → Diskdb Seg × Bool × List Seg × List (ℕ × ℕ)
  | d, [] => (d, false, [], [])
  | d, (dg, requested) :: pending =>
    let (d, response) := allocateBlocks answer d
    let (d, failed, segments, next) := round d pending
    match response with
    | none => (d, true, segments, next)
    | some got =>
      (d, failed, got ++ segments,
        if got.length < requested then (dg, requested - got.length) :: next else next)

/-- `attempts` rounds are left. -/
def allocateBlocksParallel :
    ℕ → Diskdb Seg → List Seg → List (ℕ × ℕ) → Diskdb Seg × Option (List Seg)
  | _, d, all, [] => (d, some all)
  | 0, d, all, _ :: _ => (freeAll d all, none)
  | attempts + 1, d, all, pending@(_ :: _) =>
    let (d, failed, segments, next) := round answer d pending
    if failed then (freeAll d (all ++ segments), none)
    else allocateBlocksParallel attempts d (all ++ segments) next

/-- The plan is `none` if no placement is found. -/
def allocateStrip (plan : Option (List PlacementEntry)) (d : Diskdb Seg) :
    Diskdb Seg × Option (List Seg) :=
  match plan with
  | none => (d, none)
  | some entries =>
    allocateBlocksParallel answer (StripAlloc.maxAllocRetries + 1) d []
      (entries.map fun e => (e.diskGroupId, e.blockCount))

variable (plan : ℕ → Option (List PlacementEntry))

/-- The loop over the strips ends with the first error. -/
def allocateStrips : ℕ → Diskdb Seg × Option (List (List Seg))
  | 0 => ({}, some [])
  | seq + 1 =>
    match allocateStrips seq with
    | (d, none) => (d, none)
    | (d, some strips) =>
      match allocateStrip answer (plan seq) d with
      | (d, none) => (d, none)
      | (d, some strip) => (d, some (strips ++ [strip]))

/-- The strips and the record, after the checks; whether the call succeeds. -/
def persistStrips (admitted persisted : Bool) (stripCount : ℕ) : Diskdb Seg × Bool :=
  if admitted then
    match allocateStrips answer plan stripCount with
    | (d, none) => (d, false)
    | (d, some _) => (d, persisted)
  else ({}, false)

/-- The checks of `allocate_chunk`, and its strips and record. -/
def allocateChunk (inRange locked absent persisted : Bool) (stripCount : ℕ) : Diskdb Seg × Bool :=
  persistStrips answer plan (inRange && locked && absent) persisted stripCount

/-- The checks of `append_chunk`, and its strips and record. -/
def appendChunk (inRange locked canAppend persisted : Bool) (stripCount : ℕ) : Diskdb Seg × Bool :=
  persistStrips answer plan (inRange && locked && canAppend) persisted stripCount

variable {answer plan}

omit [DecidableEq Seg] in
theorem held_round (d : Diskdb Seg) (pending : List (ℕ × ℕ)) :
    (round answer d pending).1.held = d.held + ((round answer d pending).2.2.1 : List Seg) := by
  induction pending generalizing d with
  | nil => simp [round]
  | cons _ _ ih =>
    have hrest := ih (allocateBlocks answer d).1
    cases ha : answer d.requests with
    | none => simpa [round, allocateBlocks, ha] using hrest
    | some => simpa [round, allocateBlocks, ha, add_assoc] using hrest

/-- The rounds give back what they got, or return it. -/
theorem held_allocateBlocksParallel {h : Multiset Seg} {d : Diskdb Seg} {all : List Seg}
    (attempts : ℕ)
    (pending : List (ℕ × ℕ)) (hd : d.held = h + all)
    (hr : (allocateBlocksParallel answer attempts d all pending).2 = none) :
    (allocateBlocksParallel answer attempts d all pending).1.held = h := by
  induction attempts generalizing d all pending with
  | zero =>
    cases pending with
    | nil => cases hr
    | cons => simp [allocateBlocksParallel, freeAll, hd]
  | succ _ ih =>
    cases pending with
    | nil => cases hr
    | cons p pending =>
      rw [allocateBlocksParallel] at hr ⊢
      have hround := @held_round Seg answer d (p :: pending)
      rcases he : round answer d (p :: pending) with ⟨d', failed, segments, next⟩
      rw [he] at hround
      simp only [he] at hr ⊢
      have hall : d'.held = h + (all ++ segments : List Seg) := by
        rw [hround, hd, add_assoc, Multiset.coe_add]
      cases failed with
      | true => simp [freeAll, hall]
      | false => exact ih next hall hr

theorem held_allocateBlocksParallel_some {h : Multiset Seg} {d d' : Diskdb Seg} {all got : List Seg}
    (attempts : ℕ) (pending : List (ℕ × ℕ)) (hd : d.held = h + all)
    (hr : allocateBlocksParallel answer attempts d all pending = (d', some got)) :
    d'.held = h + got := by
  induction attempts generalizing d all pending with
  | zero =>
    cases pending with
    | nil =>
      cases hr
      exact hd
    | cons => cases hr
  | succ _ ih =>
    cases pending with
    | nil =>
      cases hr
      exact hd
    | cons p pending =>
      rw [allocateBlocksParallel] at hr
      have hround := @held_round Seg answer d (p :: pending)
      rcases he : round answer d (p :: pending) with ⟨d', failed, segments, next⟩
      rw [he] at hround
      simp only [he] at hr
      cases failed with
      | true => cases hr
      | false => exact ih next (by rw [hround, hd, add_assoc, Multiset.coe_add]) hr

omit [DecidableEq Seg] in
/-- What is asked for comes, or is asked for again. -/
theorem round_pos {d : Diskdb Seg} {pending : List (ℕ × ℕ)} (h : ∃ p ∈ pending, 0 < p.2)
    (hok : (round answer d pending).2.1 = false) :
    (round answer d pending).2.2.1 ≠ [] ∨ ∃ p ∈ (round answer d pending).2.2.2, 0 < p.2 := by
  induction pending generalizing d with
  | nil =>
    obtain ⟨p, hp, -⟩ := h
    cases hp
  | cons p pending ih =>
    have hrest := @ih (allocateBlocks answer d).1
    rcases hr : round answer (allocateBlocks answer d).1 pending with ⟨d', failed, segments, next⟩
    cases ha : answer d.requests with
    | none => simp [round, allocateBlocks, ha] at hok
    | some got =>
      simp only [allocateBlocks, ha] at hr hrest
      simp only [round, allocateBlocks, ha, hr] at hok ⊢
      simp only [hr] at hrest
      obtain ⟨q, hq, hpos⟩ := h
      obtain rfl | hq := List.mem_cons.1 hq
      · cases got with
        | nil => exact .inr ⟨q, by simp [hpos], hpos⟩
        | cons => exact .inl (List.cons_ne_nil _ _)
      · refine (hrest ⟨q, hq, hpos⟩ hok).imp (fun hne => by simp [hne]) fun ⟨q, hq, hpos⟩ =>
          ⟨q, ?_, hpos⟩
        split_ifs
        · exact List.mem_cons_of_mem _ hq
        · exact hq

theorem allocateBlocksParallel_ne_nil {d d' : Diskdb Seg} {all got : List Seg} (attempts : ℕ)
    (pending : List (ℕ × ℕ)) (h : all ≠ [] ∨ ∃ p ∈ pending, 0 < p.2)
    (hr : allocateBlocksParallel answer attempts d all pending = (d', some got)) : got ≠ [] := by
  induction attempts generalizing d all pending with
  | zero =>
    cases pending with
    | nil =>
      cases hr
      exact h.resolve_right nofun
    | cons => cases hr
  | succ _ ih =>
    cases pending with
    | nil =>
      cases hr
      exact h.resolve_right nofun
    | cons p pending =>
      rw [allocateBlocksParallel] at hr
      have hround := @round_pos Seg answer d (p :: pending)
      rcases he : round answer d (p :: pending) with ⟨d', failed, segments, next⟩
      rw [he] at hround
      simp only [he] at hr
      cases failed with
      | true => cases hr
      | false =>
        refine ih next ?_ hr
        obtain hne | hpos := h
        · exact .inl (List.append_ne_nil_of_left_ne_nil hne _)
        · exact (hround hpos rfl).imp_left fun hne => List.append_ne_nil_of_right_ne_nil _ hne

theorem held_allocateStrip {entries : Option (List PlacementEntry)} {d d' : Diskdb Seg}
    (h : allocateStrip answer entries d = (d', none)) : d'.held = d.held := by
  cases entries with
  | none =>
    cases h
    rfl
  | some =>
    have hd : d.held = d.held + ([] : List Seg) := by simp
    have hheld := held_allocateBlocksParallel _ _ hd (congrArg Prod.snd h)
    rw [allocateStrip] at h
    rwa [h] at hheld

/-- Every strip that is placed has a block. -/
def Populated (plan : ℕ → Option (List PlacementEntry)) : Prop :=
  ∀ seq, ∀ entries ∈ plan seq, ∃ e ∈ entries, 0 < e.blockCount

theorem held_allocateStrip_some (hplan : Populated plan) {seq : ℕ} {d d' : Diskdb Seg}
    {strip : List Seg}
    (h : allocateStrip answer (plan seq) d = (d', some strip)) :
    d'.held = d.held + strip ∧ strip ≠ [] := by
  cases hentries : plan seq with
  | none =>
    rw [hentries] at h
    cases h
  | some entries =>
    rw [hentries, allocateStrip] at h
    obtain ⟨e, he, hpos⟩ := hplan seq entries hentries
    refine ⟨held_allocateBlocksParallel_some _ _ (by simp) h,
      allocateBlocksParallel_ne_nil _ _ (.inr ?_) h⟩
    exact ⟨_, List.mem_map_of_mem he, hpos⟩

variable (answer) in

/-- The numbers of blocks that the answers from the `n`-th on leave missing, unless one is an
    error. -/
def missing : ℕ → List ℕ → Option (List ℕ)
  | _, [] => some []
  | n, wanted :: pending =>
    (answer n).bind fun got =>
      (missing (n + 1) pending).map fun next =>
        if got.length < wanted then (wanted - got.length) :: next else next

variable (answer) in

/-- The answers from the `n`-th on give the wanted blocks in some rounds: the answer behind them. -/
def answered : ℕ → ℕ → List ℕ → Option ℕ
  | _, n, [] => some n
  | 0, _, _ :: _ => none
  | attempts + 1, n, wanted@(_ :: _) =>
    (missing answer n wanted).bind (answered attempts (n + wanted.length))

variable (answer plan) in

/-- The answers give the blocks of the first strips: the answer behind them. -/
def served : ℕ → Option ℕ
  | 0 => some 0
  | seq + 1 =>
    (served seq).bind fun n =>
      (plan seq).bind fun entries =>
        answered answer (StripAlloc.maxAllocRetries + 1) n (entries.map (·.blockCount))

variable (answer plan) in

/-- Diskdb serves the first strips. -/
def Served (count : ℕ) : Prop := (served answer plan count).isSome
deriving Decidable

omit [DecidableEq Seg] in
theorem requests_round (d : Diskdb Seg) (pending : List (ℕ × ℕ)) :
    (round answer d pending).1.requests = d.requests + pending.length := by
  induction pending generalizing d with
  | nil => rfl
  | cons p pending ih =>
    have hrest := ih (allocateBlocks answer d).1
    cases ha : answer d.requests with
    | none => simpa [round, allocateBlocks, ha, add_assoc, add_comm 1] using hrest
    | some => simpa [round, allocateBlocks, ha, add_assoc, add_comm 1] using hrest

omit [DecidableEq Seg] in
theorem missing_round (d : Diskdb Seg) (pending : List (ℕ × ℕ)) :
    missing answer d.requests (pending.map Prod.snd) =
      if (round answer d pending).2.1 then none
      else some ((round answer d pending).2.2.2.map Prod.snd) := by
  induction pending generalizing d with
  | nil => rfl
  | cons p pending ih =>
    have hrest := ih (allocateBlocks answer d).1
    cases ha : answer d.requests with
    | none => simp [missing, round, allocateBlocks, ha]
    | some got =>
      simp only [allocateBlocks, ha, Option.getD_some] at hrest
      simp only [List.map_cons, missing, round, allocateBlocks, ha, Option.getD_some, hrest]
      rcases round answer _ pending with ⟨d', failed, segments, next⟩
      cases failed with
      | true => rfl
      | false => by_cases hlt : got.length < p.2 <;> simp [hlt]

theorem answered_allocateBlocksParallel (attempts : ℕ) (d : Diskdb Seg) (all : List Seg)
    (pending : List (ℕ × ℕ)) :
    answered answer attempts d.requests (pending.map Prod.snd) =
      (allocateBlocksParallel answer attempts d all pending).2.map fun _ =>
        (allocateBlocksParallel answer attempts d all pending).1.requests := by
  induction attempts generalizing d all pending with
  | zero => cases pending with
    | nil => rfl
    | cons => rfl
  | succ attempts ih =>
    cases pending with
    | nil => rfl
    | cons p pending =>
      have hrequests := @requests_round Seg answer d (p :: pending)
      have hmissing := @missing_round Seg answer d (p :: pending)
      rw [List.map_cons] at hmissing
      rw [List.map_cons, answered, hmissing, allocateBlocksParallel]
      rcases he : round answer d (p :: pending) with ⟨d', failed, segments, next⟩
      rw [he] at hrequests
      cases failed with
      | true => rfl
      | false =>
        have hnext := ih d' (all ++ segments) next
        rw [hrequests] at hnext
        simpa using hnext

theorem served_allocateStrips (count : ℕ) :
    served answer plan count =
      (allocateStrips answer plan count).2.map fun _ =>
        (allocateStrips answer plan count).1.requests := by
  induction count with
  | zero => rfl
  | succ seq ih =>
    rw [served, ih, allocateStrips]
    rcases allocateStrips answer plan seq with ⟨d, _ | strips⟩
    · rfl
    · cases hplan : plan seq with
      | none => rfl
      | some entries =>
        have hstrip : answered answer _ _ _ = _ := answered_allocateBlocksParallel
          (StripAlloc.maxAllocRetries + 1) d [] (entries.map fun e => (e.diskGroupId, e.blockCount))
        rw [List.map_map] at hstrip
        simp only [Option.map_some, Option.bind_some, allocateStrip]
        refine hstrip.trans ?_
        rcases allocateBlocksParallel answer _ d [] _ with ⟨d', _ | strip⟩ <;> rfl

theorem served_iff {count : ℕ} :
    Served answer plan count ↔ (allocateStrips answer plan count).2.isSome := by
  rw [Served, served_allocateStrips, Option.isSome_map]

theorem allocateStrips_of_refused {count : ℕ} (hone : ¬ Served answer plan 1) (hcount : 0 < count) :
    (allocateStrips answer plan count).2 = none ∧ (allocateStrips answer plan count).1.held = 0 := by
  induction count with
  | zero => cases hcount
  | succ count ih =>
    rw [allocateStrips]
    obtain rfl | hpos := Nat.eq_zero_or_pos count
    · rcases hstrip : allocateStrip answer (plan 0) {} with ⟨d, _ | strip⟩
      · simpa [allocateStrips, hstrip] using held_allocateStrip hstrip
      · simp [served_iff, allocateStrips, hstrip] at hone
    · obtain ⟨hnone, hheld⟩ := ih hpos
      rcases hs : allocateStrips answer plan count with ⟨d, _ | strips⟩
      · simpa [hs] using hheld
      · simp [hs] at hnone

/-- The strips that are allocated stay allocated. -/
theorem held_allocateStrips (hplan : Populated plan) {count : ℕ} (hone : Served answer plan 1)
    (hcount : 0 < count) :
    (allocateStrips answer plan count).1.held ≠ 0 := by
  induction count with
  | zero => cases hcount
  | succ count ih =>
    rw [allocateStrips]
    obtain rfl | hpos := Nat.eq_zero_or_pos count
    · rcases hstrip : allocateStrip answer (plan 0) {} with ⟨d, _ | strip⟩
      · simp [served_iff, allocateStrips, hstrip] at hone
      · obtain ⟨hheld, hne⟩ := held_allocateStrip_some hplan hstrip
        simp only [allocateStrips, hstrip, hheld]
        simpa using hne
    · have hbefore := ih hpos
      rcases hs : allocateStrips answer plan count with ⟨d, _ | strips⟩
      · simpa [hs] using hbefore
      · rw [hs] at hbefore
        rcases hstrip : allocateStrip answer (plan count) d with ⟨d', _ | strip⟩
        · simpa [hstrip, held_allocateStrip hstrip] using hbefore
        · simp only [hstrip, (held_allocateStrip_some hplan hstrip).1]
          exact fun hzero => hbefore (Multiset.le_zero.1 (hzero ▸ Multiset.le_add_right ..))

theorem held_persistStrips_iff (hplan : Populated plan) (admitted persisted : Bool) (stripCount : ℕ) :
    ((persistStrips answer plan admitted persisted stripCount).2 = false →
        (persistStrips answer plan admitted persisted stripCount).1.held = 0) ↔
      (admitted = true → 0 < stripCount → Served answer plan 1 → persisted = true ∧
        Served answer plan stripCount) := by
  unfold persistStrips
  cases admitted with
  | false => simp
  | true =>
    simp only [if_true, forall_const]
    obtain rfl | hpos := Nat.eq_zero_or_pos stripCount
    · simp [allocateStrips]
    by_cases hone : Served answer plan 1
    · have hheld := held_allocateStrips hplan hone hpos
      simp only [hpos, hone, forall_const]
      rw [served_iff]
      rcases hs : allocateStrips answer plan stripCount with ⟨d, _ | strips⟩
      · simpa [hs] using hheld
      · cases persisted with
        | true => simp
        | false => simpa [hs] using hheld
    · refine iff_of_true (fun _ => ?_) fun _ h => absurd h hone
      have hnone := allocateStrips_of_refused hone hpos
      rcases hs : allocateStrips answer plan stripCount with ⟨d, _ | strips⟩
      · simpa [hs] using hnone.2
      · simp [hs] at hnone

/-- **An error leaves no block behind** exactly if the checks fail, no strip is asked for, the first
    one is refused, or there is no error. -/
theorem held_of_error_iff (hplan : Populated plan) (inRange locked checked persisted : Bool)
    (stripCount : ℕ) :
    (((allocateChunk answer plan inRange locked checked persisted stripCount).2 = false →
        (allocateChunk answer plan inRange locked checked persisted stripCount).1.held = 0) ↔
      (inRange && locked && checked → 0 < stripCount → Served answer plan 1 →
        persisted = true ∧ Served answer plan stripCount)) ∧
    (((appendChunk answer plan inRange locked checked persisted stripCount).2 = false →
        (appendChunk answer plan inRange locked checked persisted stripCount).1.held = 0) ↔
      (inRange && locked && checked → 0 < stripCount → Served answer plan 1 →
        persisted = true ∧ Served answer plan stripCount)) :=
  ⟨held_persistStrips_iff hplan .., held_persistStrips_iff hplan ..⟩

/-- Every strip has one block. -/
def onePlan : ℕ → Option (List PlacementEntry) := fun _ => some [⟨1, 1, 1, 1⟩]

/-- The first of three strips is refused in its second round. -/
theorem held_of_error_second_round :
    let d := (allocateChunk (fun i => if i = 0 then some ([] : List ℕ) else none) onePlan
      true true true true 3).1
    d.requests = 2 ∧ d.held = 0 := by
  refine ⟨by decide, (held_of_error_iff (fun _ => ?_) true true true true 3).1.2
    (fun _ _ hone => ?_) rfl⟩
  · rintro _ ⟨⟩
    exact ⟨_, List.mem_cons_self, Nat.one_pos⟩
  · exact absurd hone (by decide)

/-- The second strip cannot be allocated, or the record cannot be written: block `7` stays
    allocated. -/
theorem error_keeps_blocks :
    let second := allocateChunk (fun i => if i = 0 then some [7] else none) onePlan true
      true true true 2
    let unwritten := appendChunk (fun _ => some [7]) onePlan true true true false 1
    second.2 = false ∧ second.1.held = {7} ∧ unwritten.2 = false ∧ unwritten.1.held = {7} := by
  decide

end CrowDB.ChunkAllocator
