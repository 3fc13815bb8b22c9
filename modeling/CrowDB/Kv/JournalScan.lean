/-
  The journal scan: `kv_journal_scan` of `px_kv_store_handler.rs` and `journal_scan` of the client.

  The server cuts a page at any operation, and the client goes on with the slot after that of the
  last operation, so what is left of a slot that is cut is lost.  In `MinSlot` mode the first
  request does not go below the client's last write, and none goes above the applied slots.
-/
import CrowDB.Kv.Payload

namespace CrowDB.Kv

open List

/-- `ReadMode`. -/
inductive ReadMode where
  | linearizable
  | minSlot
deriving DecidableEq

/-- `KvJournalOp`. -/
structure KvJournalOp where
  key : Bytes
  value : Bytes
  isDelete : Bool
  slot : ℕ
deriving DecidableEq

/-- An operation in a page. -/
def journalOp (p : ℕ × BatchOp) : KvJournalOp :=
  ⟨p.2.key, p.2.op.value, decide (p.2.op = .delete), p.1⟩

/-- The operations of the accepted entries with their slots, in the order of slots and batches. -/
structure SlotLog where
  ops : List (ℕ × BatchOp)
  applied : ℕ
  trimSlot : ℕ := 0
  sorted : ops.Pairwise fun p q => p.1 ≤ q.1

/-- The answer to a page request. -/
inductive JournalScanResponse where
  | notLeader
  | gcGap
  | page (ops : List KvJournalOp) (truncated : Bool)

/-- `saturating_add(1)` of a slot. -/
def nextSlot (slot : ℕ) : ℕ := min (slot + 1) (2 ^ 64 - 1)

/-- The loops over the entries and their operations; whether they have filled the page. -/
def scanOps (pfx : Bytes) (limit : ℕ) : List (ℕ × BatchOp) → List KvJournalOp →
      List KvJournalOp × Bool
  | [], ops => (ops, false)
  | p :: log, ops =>
    if pfx ≠ [] ∧ ¬ pfx.isPrefixOf p.2.key then scanOps pfx limit log ops
    else if limit ≠ 0 ∧ limit ≤ (ops ++ [journalOp p]).length then (ops ++ [journalOp p], true)
    else scanOps pfx limit log (ops ++ [journalOp p])

/-- A `max_slot` of zero is none. -/
def effectiveMax (maxSlot readSlot : ℕ) : ℕ := if maxSlot = 0 then readSlot else min maxSlot readSlot

namespace SlotLog

variable (l : SlotLog) (maxSlot : ℕ) (pfx : Bytes)

/-- The read slot, or none for a redirect. -/
def resolveReadPoint (minSlot : ℕ) : ReadMode → Option ℕ
  | .linearizable => some l.applied
  | .minSlot => if minSlot ≤ l.applied then some l.applied else none

/-- The operations of a range of slots. -/
def acceptedIterRange (start endExclusive : ℕ) : List (ℕ × BatchOp) :=
  l.ops.filter fun p => decide (start ≤ p.1) && decide (p.1 < endExclusive)

/-- `kv_journal_scan`. -/
def kvJournalScan (limit : ℕ) (mode : ReadMode) (minSlot : ℕ) : JournalScanResponse :=
  match l.resolveReadPoint minSlot mode with
  | none => .notLeader
  | some readSlot =>
    if minSlot < l.trimSlot then .gcGap
    else if effectiveMax maxSlot readSlot < minSlot then .page [] false
    else
      let page := scanOps pfx limit
        (l.acceptedIterRange minSlot (nextSlot (effectiveMax maxSlot readSlot))) []
      .page page.1 page.2

/-- The loop of the client; `none` after `fuel` requests, and an error for slots that are trimmed. -/
def scanPages (pageLimit : ℕ) (mode : ReadMode) :
    ℕ → ℕ → List KvJournalOp → Option (Option (List KvJournalOp))
  | 0, _, _ => none
  | fuel + 1, pageMinSlot, allOps =>
    match l.kvJournalScan maxSlot pfx pageLimit mode pageMinSlot with
    | .notLeader => scanPages pageLimit mode fuel pageMinSlot allOps
    | .gcGap => some none
    | .page ops truncated =>
      match ops.getLast?, truncated with
      | some last, true => scanPages pageLimit mode fuel (nextSlot last.slot) (allOps ++ ops)
      | _, _ => some (some (allOps ++ ops))

/-- The slot of the first request: not below the client's last write in `MinSlot` mode. -/
def startSlot (mode : ReadMode) (lastWrite minSlot : ℕ) : ℕ :=
  max minSlot (if mode = .minSlot then lastWrite else 0)

/-- `journal_scan` without a limit; `lastWrite` is the slot of the client's last write to the
    group. -/
def journalScan (pageLimit : ℕ) (mode : ReadMode) (lastWrite minSlot fuel : ℕ) :
    Option (Option (List KvJournalOp)) :=
  l.scanPages maxSlot pfx pageLimit mode fuel (startSlot mode lastWrite minSlot) []

/-- The applied operations of a range with a prefix. -/
def range (minSlot : ℕ) : List (ℕ × BatchOp) :=
  l.ops.filter fun p => decide (minSlot ≤ p.1) &&
    (decide (p.1 ≤ effectiveMax maxSlot l.applied) && pfx.isPrefixOf p.2.key)

/-- What the server goes over: the end of its range is at most `u64::MAX`, and excluded. -/
def visited (minSlot : ℕ) : List (ℕ × BatchOp) :=
  (l.range maxSlot pfx minSlot).filter fun p => decide (p.1 < 2 ^ 64 - 1)

/-- No slot has an operation on both sides of the end of a page. -/
def SlotsUncut (limit : ℕ) (ops : List (ℕ × BatchOp)) : Prop :=
  limit ≠ 0 → ∀ n p q, ops[n * limit + (limit - 1)]? = some p →
    ops[n * limit + limit]? = some q → p.1 ≠ q.1

/-- In `MinSlot` mode no full page ends with an operation of the last applied slot: the request for
    the slot after it would be refused. -/
def PagesServed (mode : ReadMode) (limit : ℕ) (ops : List (ℕ × BatchOp)) : Prop :=
  mode = .minSlot → limit ≠ 0 → ∀ n p, ops[n * limit + (limit - 1)]? = some p → p.1 < l.applied

/-- The scan begins at or below the operations of the range, and its pages end between slots. -/
structure ScansAll (limit : ℕ) (mode : ReadMode) (lastWrite minSlot : ℕ) : Prop where
  covered : ∀ p ∈ l.range maxSlot pfx minSlot, startSlot mode lastWrite minSlot ≤ p.1 ∧
    p.1 < 2 ^ 64 - 1
  applied : mode = .minSlot → startSlot mode lastWrite minSlot ≤ l.applied
  uncut : SlotsUncut limit (l.range maxSlot pfx minSlot)
  served : l.PagesServed mode limit (l.range maxSlot pfx minSlot)

variable {l maxSlot pfx} {limit minSlot fuel : ℕ} {mode : ReadMode} {p : ℕ × BatchOp}
  {allOps res : List KvJournalOp}

/-! ## A page -/

/-- The first `limit` operations, and whether that fills the page. -/
def cutPage (limit : ℕ) (all : List KvJournalOp) : List KvJournalOp × Bool :=
  if limit ≠ 0 ∧ limit ≤ all.length then (all.take limit, true) else (all, false)

theorem scanOps_eq {log : List (ℕ × BatchOp)} {ops : List KvJournalOp}
    (hroom : limit ≠ 0 → ops.length < limit) :
    scanOps pfx limit log ops =
      cutPage limit (ops ++ (log.filter fun p => pfx.isPrefixOf p.2.key).map journalOp) := by
  induction log generalizing ops with
  | nil =>
    have hnot : ¬ (limit ≠ 0 ∧ limit ≤ ops.length) := fun h => absurd h.2 (hroom h.1).not_ge
    simp [scanOps, cutPage, hnot]
  | cons p log ih =>
    by_cases hp : pfx.isPrefixOf p.2.key
    · rw [scanOps, if_neg fun h => h.2 hp, filter_cons, if_pos hp, map_cons,
        append_cons _ _ (map _ _)]
      split
      · rename_i hfull
        have hlen : (ops ++ [journalOp p]).length = limit := by
          have := hroom hfull.1
          simp only [length_append, length_singleton] at hfull ⊢
          omega
        rw [cutPage, if_pos ⟨hfull.1, by rw [length_append, hlen]; omega⟩, take_left' hlen]
      · rename_i hfull
        exact ih fun hne => not_le.mp fun hle => hfull ⟨hne, hle⟩
    · have hne : pfx ≠ [] := fun h => hp (h ▸ isPrefixOf_nil_left)
      rw [scanOps, if_pos ⟨hne, hp⟩, filter_cons, if_neg hp]
      exact ih hroom

theorem mem_visited (h : p ∈ l.visited maxSlot pfx minSlot) :
    minSlot ≤ p.1 ∧ p.1 ≤ effectiveMax maxSlot l.applied ∧ p.1 < 2 ^ 64 - 1 := by
  obtain ⟨hp, hlt⟩ := mem_filter.mp h
  have hp := (mem_filter.mp hp).2
  simp only [Bool.and_eq_true, decide_eq_true_eq] at hp hlt
  exact ⟨hp.1, hp.2.1, hlt⟩

theorem visited_sorted (l : SlotLog) (maxSlot : ℕ) (pfx : Bytes) (minSlot : ℕ) :
    (l.visited maxSlot pfx minSlot).Pairwise fun p q => p.1 ≤ q.1 :=
  l.sorted.sublist (filter_sublist.trans filter_sublist)

theorem kvJournalScan_eq (htrim : l.trimSlot ≤ minSlot)
    (hready : mode = .minSlot → minSlot ≤ l.applied) :
    l.kvJournalScan maxSlot pfx limit mode minSlot =
      .page (cutPage limit ((l.visited maxSlot pfx minSlot).map journalOp)).1
        (cutPage limit ((l.visited maxSlot pfx minSlot).map journalOp)).2 := by
  have hread : l.resolveReadPoint minSlot mode = some l.applied := by
    cases mode with
    | linearizable => rfl
    | minSlot => exact if_pos (hready rfl)
  have hvisited : (l.acceptedIterRange minSlot (nextSlot (effectiveMax maxSlot l.applied))).filter
      (fun p => pfx.isPrefixOf p.2.key) = l.visited maxSlot pfx minSlot := by
    rw [acceptedIterRange, filter_filter, visited, range, filter_filter]
    refine filter_congr fun p _ => ?_
    have : p.1 < nextSlot (effectiveMax maxSlot l.applied) ↔
        p.1 ≤ effectiveMax maxSlot l.applied ∧ p.1 < 2 ^ 64 - 1 := by
      rw [nextSlot, lt_min_iff, Nat.lt_succ_iff]
    rw [Bool.eq_iff_iff]
    simp only [Bool.and_eq_true, decide_eq_true_eq, this]
    tauto
  simp only [kvJournalScan, hread, if_neg htrim.not_gt]
  split
  · rename_i hlt
    have hnil : l.visited maxSlot pfx minSlot = [] := eq_nil_iff_forall_not_mem.mpr fun p hp =>
      absurd ((mem_visited hp).1.trans (mem_visited hp).2.1) hlt.not_ge
    rw [hnil, map_nil, cutPage, if_neg fun h => h.1 (Nat.le_zero.mp h.2)]
  · rw [scanOps_eq Nat.pos_of_ne_zero, hvisited, nil_append]

/-- A request for slots that are not applied is redirected each time. -/
theorem scanPages_refused (h : l.applied < minSlot) :
    l.scanPages maxSlot pfx limit .minSlot fuel minSlot allOps = none := by
  induction fuel with
  | zero => rfl
  | succ fuel ih =>
    rw [scanPages, kvJournalScan, resolveReadPoint, if_neg h.not_ge]
    exact ih

/-! ## The next page -/

/-- The rest of the range for a request behind the slot of `p`. -/
theorem visited_succ {done rest : List (ℕ × BatchOp)}
    (h : l.visited maxSlot pfx minSlot = (done ++ [p]) ++ rest) :
    l.visited maxSlot pfx (p.1 + 1) = rest.filter fun q => decide (p.1 < q.1) := by
  have hmem : p ∈ l.visited maxSlot pfx minSlot := by simp [h]
  have hvisited : l.visited maxSlot pfx (p.1 + 1) =
      (l.visited maxSlot pfx minSlot).filter fun q => decide (p.1 < q.1) := by
    rw [visited, visited, range, range, filter_filter, filter_filter, filter_filter]
    refine filter_congr fun q _ => ?_
    by_cases hlt : p.1 < q.1
    · simp [hlt, Nat.succ_le_iff.mpr hlt, (mem_visited hmem).1.trans hlt.le]
    · simp [hlt]
  have hsorted := h ▸ l.visited_sorted maxSlot pfx minSlot
  rw [hvisited, h, filter_append, filter_eq_nil_iff.mpr, nil_append]
  intro q hq
  rcases mem_append.mp hq with hq | hq
  · simpa using (pairwise_append.mp (pairwise_append.mp hsorted).1).2.2 q hq p (mem_singleton_self p)
  · simp [mem_singleton.mp hq]

/-- A full page: its last operation, and the page behind it. -/
theorem exists_last (hne : limit ≠ 0) (hle : limit ≤ (l.visited maxSlot pfx minSlot).length) :
    ∃ p, (l.visited maxSlot pfx minSlot)[limit - 1]? = some p ∧
      (l.visited maxSlot pfx minSlot).take limit = (l.visited maxSlot pfx minSlot).take
        (limit - 1) ++ [p] ∧
      l.visited maxSlot pfx (p.1 + 1) =
        ((l.visited maxSlot pfx minSlot).drop limit).filter (fun q => decide (p.1 < q.1)) ∧
      nextSlot p.1 = p.1 + 1 := by
  obtain ⟨p, hp⟩ : ∃ p, (l.visited maxSlot pfx minSlot)[limit - 1]? = some p :=
    ⟨_, List.getElem?_eq_getElem (by omega)⟩
  have htake := take_add_one (l := l.visited maxSlot pfx minSlot) (i := limit - 1)
  rw [hp, Nat.sub_add_cancel (Nat.pos_of_ne_zero hne), Option.toList_some] at htake
  have hlt := (mem_visited (mem_of_getElem? hp)).2.2
  have hsplit := (take_append_drop limit (l.visited maxSlot pfx minSlot)).symm
  exact ⟨p, hp, htake, visited_succ (hsplit.trans (congrArg (· ++ _) htake)), by rw [nextSlot]; omega⟩

/-- The step of the client's loop. -/
theorem scanPages_succ (htrim : l.trimSlot ≤ minSlot)
    (hready : mode = .minSlot → minSlot ≤ l.applied) :
    l.scanPages maxSlot pfx limit mode (fuel + 1) minSlot allOps =
      if limit ≠ 0 ∧ limit ≤ (l.visited maxSlot pfx minSlot).length then
        ((l.visited maxSlot pfx minSlot)[limit - 1]?).elim none fun p =>
          l.scanPages maxSlot pfx limit mode fuel (p.1 + 1)
            (allOps ++ ((l.visited maxSlot pfx minSlot).take limit).map journalOp)
      else some (some (allOps ++ (l.visited maxSlot pfx minSlot).map journalOp)) := by
  rw [scanPages, kvJournalScan_eq htrim hready, cutPage, length_map]
  split_ifs with hfull
  · obtain ⟨p, hp, htake, -, hnext⟩ := exists_last hfull.1 hfull.2
    rw [hp, ← map_take, htake, map_append, map_singleton]
    simp only [getLast?_concat, Option.elim_some, journalOp, hnext]
  · dsimp only
    cases (map journalOp (l.visited maxSlot pfx minSlot)).getLast? <;> rfl

/-- A scan never returns more than there is. -/
theorem length_of_scanPages (htrim : l.trimSlot ≤ minSlot)
    (h : l.scanPages maxSlot pfx limit mode fuel minSlot allOps = some (some res)) :
    res.length ≤ allOps.length + (l.visited maxSlot pfx minSlot).length := by
  induction fuel generalizing minSlot allOps with
  | zero => cases h
  | succ fuel ih =>
    by_cases hready : mode = .minSlot → minSlot ≤ l.applied
    · rw [scanPages_succ htrim hready] at h
      split_ifs at h with hfull
      · obtain ⟨p, hp, -, hnext, -⟩ := exists_last hfull.1 hfull.2
        rw [hp, Option.elim_some] at h
        have hle := ih (htrim.trans ((mem_visited (mem_of_getElem? hp)).1.trans (Nat.le_succ _))) h
        have hrest := length_filter_le (fun q => decide (p.1 < q.1))
          ((l.visited maxSlot pfx minSlot).drop limit)
        rw [hnext, length_append, length_map, length_take] at hle
        rw [length_drop] at hrest
        omega
      · cases h
        rw [length_append, length_map]
    · push Not at hready
      rw [hready.1, scanPages_refused hready.2] at h
      cases h

/-- The pages behind the first one. -/
theorem uncut_iff {ops : List (ℕ × BatchOp)} (hne : limit ≠ 0) (hp : ops[limit - 1]? = some p) :
    SlotsUncut limit ops ↔ (∀ q ∈ (ops.drop limit).head?, p.1 ≠ q.1) ∧
      SlotsUncut limit (ops.drop limit) := by
  constructor
  · refine fun h => ⟨fun q hq => h hne 0 p q (by simpa using hp) (by simpa using hq),
      fun _ n q q' hq hq' => ?_⟩
    rw [getElem?_drop] at hq hq'
    exact h hne (n + 1) q q' (by rw [← hq]; congr 1; ring) (by rw [← hq']; congr 1; ring)
  · rintro ⟨hfirst, hrest⟩ - n q q' hq hq'
    cases n with
    | zero =>
      rw [Nat.zero_mul, Nat.zero_add] at hq hq'
      cases hp.symm.trans hq
      exact hfirst q' (by rw [head?_drop]; exact hq')
    | succ n =>
      refine hrest hne n q q' ?_ ?_
      · rw [getElem?_drop, ← hq]; congr 1; ring
      · rw [getElem?_drop, ← hq']; congr 1; ring

theorem served_iff {ops : List (ℕ × BatchOp)} (hne : limit ≠ 0) (hp : ops[limit - 1]? = some p) :
    l.PagesServed mode limit ops ↔
      (mode = .minSlot → p.1 + 1 ≤ l.applied) ∧ l.PagesServed mode limit (ops.drop limit) := by
  constructor
  · refine fun h => ⟨fun hm => h hm hne 0 p (by simpa using hp), fun hm _ n q hq => ?_⟩
    rw [getElem?_drop] at hq
    exact h hm hne (n + 1) q (by rw [← hq]; congr 1; ring)
  · rintro ⟨hfirst, hrest⟩ hm - n q hq
    cases n with
    | zero =>
      rw [Nat.zero_mul, Nat.zero_add] at hq
      cases hp.symm.trans hq
      exact hfirst hm
    | succ n =>
      refine hrest hm hne n q ?_
      rw [getElem?_drop, ← hq]; congr 1; ring

/-- Behind the slot of `p` nothing is skipped exactly when the next operation is not in that slot. -/
theorem filter_eq_self_iff {rest : List (ℕ × BatchOp)}
    (hsorted : (p :: rest).Pairwise fun p q => p.1 ≤ q.1) :
    rest.filter (fun q => decide (p.1 < q.1)) = rest ↔ ∀ q ∈ rest.head?, p.1 ≠ q.1 := by
  rw [filter_eq_self]
  cases rest with
  | nil => simp
  | cons q rest =>
    obtain ⟨hp, hrest⟩ := pairwise_cons.mp hsorted
    constructor
    · rintro hall _ ⟨⟩
      exact (of_decide_eq_true (hall q mem_cons_self)).ne
    · intro hne r hr
      have hlt : p.1 < q.1 := lt_of_le_of_ne (hp q mem_cons_self) (hne q rfl)
      rcases mem_cons.mp hr with rfl | hr
      · exact decide_eq_true hlt
      · exact decide_eq_true (hlt.trans_le ((pairwise_cons.mp hrest).1 r hr))

/-! ## All pages -/

theorem scanPages_iff (htrim : l.trimSlot ≤ minSlot)
    (hfuel : (l.visited maxSlot pfx minSlot).length < fuel) :
    l.scanPages maxSlot pfx limit mode fuel minSlot allOps =
        some (some (allOps ++ (l.visited maxSlot pfx minSlot).map journalOp)) ↔
      (mode = .minSlot → minSlot ≤ l.applied) ∧ SlotsUncut limit (l.visited maxSlot pfx minSlot) ∧
        l.PagesServed mode limit (l.visited maxSlot pfx minSlot) := by
  induction fuel generalizing minSlot allOps with
  | zero => exact absurd hfuel (Nat.not_lt_zero _)
  | succ fuel ih =>
    by_cases hready : mode = .minSlot → minSlot ≤ l.applied
    · rw [scanPages_succ htrim hready]
      split_ifs with hfull
      · obtain ⟨hne, hle⟩ := hfull
        obtain ⟨p, hp, htake, hnext, -⟩ := exists_last hne hle
        have hsorted : (p :: (l.visited maxSlot pfx minSlot).drop limit).Pairwise fun p q =>
          p.1 ≤ q.1 := by
          have hall := l.visited_sorted maxSlot pfx minSlot
          rw [← take_append_drop limit (l.visited maxSlot pfx minSlot), htake, append_assoc,
            singleton_append] at hall
          exact (pairwise_append.mp hall).2.1
        have hmin : l.trimSlot ≤ p.1 + 1 :=
          htrim.trans ((mem_visited (mem_of_getElem? hp)).1.trans (Nat.le_succ _))
        have hall : allOps ++ (l.visited maxSlot pfx minSlot).map journalOp =
            (allOps ++ ((l.visited maxSlot pfx minSlot).take limit).map journalOp) ++
              ((l.visited maxSlot pfx minSlot).drop limit).map journalOp := by
          rw [append_assoc, ← map_append, take_append_drop]
        have hlen : ((l.visited maxSlot pfx minSlot).drop limit).length < fuel := by
          rw [length_drop]
          omega
        rw [hp, Option.elim_some, hall, uncut_iff hne hp, served_iff hne hp,
          ← filter_eq_self_iff hsorted]
        constructor
        · intro h
          -- as many operations can come only if none is skipped
          have hcount := length_of_scanPages hmin h
          rw [length_append, length_map, hnext] at hcount
          have hself := filter_sublist.eq_of_length_le (Nat.le_of_add_le_add_left hcount)
          rw [hself] at hnext
          rw [← hnext, ih hmin (hnext ▸ hlen)] at h
          exact ⟨hready, ⟨hself, hnext ▸ h.2.1⟩, h.1, hnext ▸ h.2.2⟩
        · rintro ⟨-, ⟨hself, huncut⟩, happlied, hserved⟩
          rw [hself] at hnext
          rw [← hnext, ih hmin (hnext ▸ hlen)]
          exact ⟨happlied, hnext ▸ huncut, hnext ▸ hserved⟩
      · refine iff_of_true rfl ⟨hready, fun hne n p q _ hq => ?_, fun _ hne n p hp => ?_⟩
        · have hlt : (l.visited maxSlot pfx minSlot).length < limit :=
            not_le.mp fun hle => hfull ⟨hne, hle⟩
          rw [List.getElem?_eq_none (by nlinarith)] at hq
          cases hq
        · have hlt : (l.visited maxSlot pfx minSlot).length < limit :=
            not_le.mp fun hle => hfull ⟨hne, hle⟩
          rw [List.getElem?_eq_none (by have := Nat.zero_le (n * limit); omega)] at hp
          cases hp
    · refine iff_of_false ?_ fun h => hready h.1
      push Not at hready
      rw [hready.1, scanPages_refused hready.2]
      exact nofun

/-- **The scan returns the operations of the range**, exactly under these conditions. -/
theorem journalScan_eq_iff {lastWrite : ℕ} (htrim : l.trimSlot ≤ minSlot)
    (hfuel : l.ops.length < fuel) :
    l.journalScan maxSlot pfx limit mode lastWrite minSlot fuel =
        some (some ((l.range maxSlot pfx minSlot).map journalOp)) ↔
      l.ScansAll maxSlot pfx limit mode lastWrite minSlot := by
  set start := startSlot mode lastWrite minSlot with hstart
  have hle : minSlot ≤ start := le_max_left ..
  -- the scan goes over a part of the range
  have hpart : l.visited maxSlot pfx start =
      (l.range maxSlot pfx minSlot).filter fun p => decide (start ≤ p.1) && decide
        (p.1 < 2 ^ 64 - 1) := by
    rw [visited, range, range, filter_filter, filter_filter]
    refine filter_congr fun p _ => ?_
    rw [Bool.eq_iff_iff]
    simp only [Bool.and_eq_true, decide_eq_true_eq]
    constructor
    · exact fun ⟨hlt, hs, hrest⟩ => ⟨⟨hs, hlt⟩, hle.trans hs, hrest⟩
    · exact fun ⟨⟨hs, hlt⟩, _, hrest⟩ => ⟨hlt, hs, hrest⟩
  have hself : l.visited maxSlot pfx start = l.range maxSlot pfx minSlot ↔
      ∀ p ∈ l.range maxSlot pfx minSlot, start ≤ p.1 ∧ p.1 < 2 ^ 64 - 1 := by
    simp [hpart, filter_eq_self]
  have hlen : (l.visited maxSlot pfx start).length < fuel :=
    ((length_filter_le _ _).trans (length_filter_le _ _)).trans_lt hfuel
  have hscan : l.scanPages maxSlot pfx limit mode fuel start [] =
      some (some ([] ++ (l.visited maxSlot pfx start).map journalOp)) ↔ _ :=
    scanPages_iff (htrim.trans hle) hlen
  rw [nil_append] at hscan
  rw [journalScan, ← hstart]
  constructor
  · intro h
    have hcount := length_of_scanPages (htrim.trans hle) h
    rw [length_map, length_nil, Nat.zero_add, hpart] at hcount
    have heq := hpart.trans (filter_sublist.eq_of_length_le hcount)
    rw [heq] at hscan
    obtain ⟨happlied, huncut, hserved⟩ := hscan.mp h
    exact ⟨hself.mp heq, happlied, huncut, hserved⟩
  · intro h
    rw [hself.mpr h.covered] at hscan
    exact hscan.mpr ⟨h.applied, h.uncut, h.served⟩

/-- A put of a key in slot `1`, and one in a later slot. -/
def sampleLog (slot : ℕ) (h : 1 ≤ slot) : SlotLog :=
  ⟨[(1, ⟨[97], .put []⟩), (slot, ⟨[98], .put []⟩)], 2, 0, by simpa⟩

theorem journalScan_eq_two_pages : (sampleLog 2 (by decide)).journalScan 0 [] 1 .linearizable 0 1 3 =
    some (some (((sampleLog 2 (by decide)).range 0 [] 1).map journalOp)) := by
  refine (journalScan_eq_iff (by decide) (by decide)).mpr
    ⟨by decide, nofun, fun _ n p q hp hq => ?_, nofun⟩
  cases n with
  | zero => exact Option.some.inj hp ▸ Option.some.inj hq ▸ by decide
  | succ n => exact absurd hq.symm (Option.some_ne_none q)

/-- Slot `1` has two operations and a page one; the client has written slot `2`. -/
theorem journalScan_loses_ops :
    (sampleLog 1 (by decide)).journalScan 0 [] 1 .linearizable 0 1 3 =
      some (some [⟨[97], [], false, 1⟩]) ∧
      (sampleLog 2 (by decide)).journalScan 0 [] 0 .minSlot 2 1 3 =
        some (some [⟨[98], [], false, 2⟩]) := by
  decide +kernel

end SlotLog

end CrowDB.Kv
