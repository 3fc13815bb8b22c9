/-
  Paging through a pinned snapshot (`kv_snapshot_scan`).

  A snapshot is the sorted vector of the entries of the engine, tombstones included.  A scan
  searches `start_after` by bisection, goes on behind it, skips what has another prefix or is
  deleted, and stops at the limit; an empty `start_after` is the beginning of the vector.  A
  client pages on with the last key of a page.
-/
import CrowDB.Lib.KeyOrder
import Mathlib.Data.List.Sort

namespace CrowDB.Kv

open Lib List

variable {α V : Type} [LinearOrder α]

/-! ## Snapshots -/

/-- `SnapshotViewEntry`. -/
structure SnapshotViewEntry (α V : Type) where
  key : List α
  slot : ℕ
  tombstone : Bool
  value : V

/-- The vector of `snapshot_view`: every key once, in order. -/
structure SnapshotView (α V : Type) [LinearOrder α] where
  entries : List (SnapshotViewEntry α V)
  sorted : entries.Pairwise fun e e' => e.key < e'.key

/-- A pinned snapshot; times in milliseconds. -/
structure SnapshotHandle (α V : Type) [LinearOrder α] where
  atSlot : ℕ
  view : SnapshotView α V
  createdAt : ℕ
  lease : ℕ

/-- The lease has run out. -/
def SnapshotHandle.expired (handle : SnapshotHandle α V) (now : ℕ) : Bool :=
  handle.lease ≤ now - handle.createdAt

/-- The snapshots of a group by their handles. -/
abbrev Snapshots (α V : Type) [LinearOrder α] := ℕ → Option (SnapshotHandle α V)

/-- `reap_expired_snapshots`. -/
def reapExpiredSnapshots (snapshots : Snapshots α V) (now : ℕ) : Snapshots α V :=
  fun id => (snapshots id).filter fun handle => !handle.expired now

/-! ## A scan -/

/-- `KvErrorCode`. -/
inductive KvErrorCode where
  | none
  | internal
deriving DecidableEq

/-- The answer to a page request. -/
structure SnapshotScanResponse (α V : Type) where
  ok : Bool
  error : String
  truncated : Bool
  items : List (List α × V)
  errorCode : KvErrorCode

/-- The first entry behind `start_after`, by binary search. -/
def startIdx (entries : List (SnapshotViewEntry α V)) (startAfter : List α) : ℕ :=
  if startAfter = [] then 0
  else
    match entries.findIdx? fun e => e.key = startAfter with
    | some i => i + 1
    | none => (entries.takeWhile fun e => e.key < startAfter).length

/-- The loop over the entries: the items, and whether the limit has cut them. -/
def scanEntries (pfx : List α) (limit : ℕ) : List (SnapshotViewEntry α V) → List (List α × V) →
      List (List α × V) × Bool
  | [], items => (items, false)
  | e :: entries, items =>
    if ¬ pfx.isPrefixOf e.key then
      -- behind the prefix there are no more matches
      if pfx ≠ [] ∧ pfx < e.key then (items, false) else scanEntries pfx limit entries items
    else if e.tombstone then scanEntries pfx limit entries items
    else if limit ≠ 0 ∧ limit ≤ items.length then (items, true)
    else scanEntries pfx limit entries (items ++ [(e.key, e.value)])

/-- A page of the view. -/
def scanPage (view : SnapshotView α V) (pfx startAfter : List α) (limit : ℕ) :
    List (List α × V) × Bool :=
  scanEntries pfx limit (view.entries.drop (startIdx view.entries startAfter)) []

/-- `kv_snapshot_scan`, and the snapshots that are left; `group` is absent if the store has no
    such group. -/
def kvSnapshotScan (group : Option (Snapshots α V)) (now groupId snapshotHandle : ℕ)
    (pfx startAfter : List α)
    (limit : ℕ) : SnapshotScanResponse α V × Option (Snapshots α V) :=
  match group with
  | none => (⟨false, s!"group {groupId} not found", false, [], .internal⟩, none)
  | some snapshots =>
    let snapshots := reapExpiredSnapshots snapshots now
    match snapshots snapshotHandle with
    | none =>
      (⟨false, s!"snapshot handle {snapshotHandle} not found (expired or released)", false,
        [], .internal⟩,
        some snapshots)
    | some handle =>
      let page := scanPage handle.view pfx startAfter limit
      (⟨true, "", page.2, page.1, .none⟩, some snapshots)

/-- A client that pages: the `i`-th call and at most `fuel` behind it, each behind the last key of
    the page before. -/
def scanAllPages (groupId snapshotHandle : ℕ) (pfx : List α) (limit : ℕ) (now : ℕ → ℕ) :
    (fuel i : ℕ) → Option (Snapshots α V) → (startAfter : List α) → Option (List (List α × V))
  | 0, _, _, _ => none
  | fuel + 1, i, group, startAfter =>
    let (response, group) := kvSnapshotScan group (now i) groupId snapshotHandle pfx startAfter limit
    if response.truncated then
      response.items.getLast?.bind fun last =>
        (scanAllPages groupId snapshotHandle pfx limit now fuel (i + 1) group last.1).map
          (response.items ++ ·)
    else if response.ok then some response.items
    else none

/-! ## Pages -/

/-- What a scan is to return. -/
def liveItems (pfx : List α) (entries : List (SnapshotViewEntry α V)) : List (List α × V) :=
  (entries.filter fun e => pfx.isPrefixOf e.key && !e.tombstone).map fun e => (e.key, e.value)

variable {entries : List (SnapshotViewEntry α V)} {pfx startAfter : List α} {limit : ℕ}

theorem liveItems_cons (e : SnapshotViewEntry α V) : liveItems pfx (e :: entries) =
    if pfx.isPrefixOf e.key && !e.tombstone then (e.key, e.value) :: liveItems pfx entries else
      liveItems pfx entries := by
  rw [liveItems, filter_cons]
  split <;> rfl

theorem liveItems_eq_nil {e : SnapshotViewEntry α V} (habove : ∀ e' ∈ entries, e.key < e'.key)
    (hnot : pfx.isPrefixOf e.key = false) (hlt : pfx < e.key) : liveItems pfx entries = [] := by
  rw [liveItems, map_eq_nil_iff, filter_eq_nil_iff]
  intro e' he' hlive
  rw [Bool.and_eq_true] at hlive
  rw [isPrefixOf_of_between hlive.1 hlt.le (habove e' he').le] at hnot
  cases hnot

theorem scanEntries_eq (hsorted : entries.Pairwise fun e e' => e.key < e'.key) (hlimit : 0 < limit)
    (items : List (List α × V)) (hroom : items.length ≤ limit) :
    scanEntries pfx limit entries items =
      (items ++ (liveItems pfx entries).take (limit - items.length),
      decide (limit - items.length < (liveItems pfx entries).length)) := by
  induction entries generalizing items with
  | nil => simp [scanEntries, liveItems]
  | cons e _ ih =>
    obtain ⟨habove, hrest⟩ := pairwise_cons.1 hsorted
    rw [scanEntries, liveItems_cons]
    cases hpfx : pfx.isPrefixOf e.key with
    | false =>
      by_cases hbehind : pfx ≠ [] ∧ pfx < e.key
      · rw [if_pos hbehind, liveItems_eq_nil habove hpfx hbehind.2]
        simp
      · rw [if_neg hbehind]
        exact ih hrest items hroom
    | true =>
      simp only [not_true_eq_false, if_false, Bool.true_and]
      cases htomb : e.tombstone with
      | true =>
        exact ih hrest items hroom
      | false =>
        simp only [Bool.false_eq_true, if_false, Bool.not_false, if_true]
        by_cases hfull : limit ≤ items.length
        · have hzero : limit - items.length = 0 := by omega
          rw [if_pos ⟨hlimit.ne', hfull⟩, hzero]
          simp
        · have hsucc : limit - items.length = limit - (items.length + 1) + 1 := by omega
          rw [if_neg fun h => hfull h.2,
            ih hrest _ (by rw [length_append, length_singleton]; omega), hsucc,
            length_append, length_singleton, take_succ_cons, append_assoc, length_cons]
          simp

theorem drop_startIdx (hsorted : entries.Pairwise fun e e' => e.key < e'.key) :
    entries.drop (startIdx entries startAfter) =
      entries.filter fun e => decide (startAfter = []) || decide (startAfter < e.key) := by
  by_cases hempty : startAfter = []
  · simp [startIdx, hempty]
  simp only [startIdx, hempty, if_false, decide_false, Bool.false_or]
  induction entries with
  | nil => rfl
  | cons e entries ih =>
    obtain ⟨habove, hrest⟩ := pairwise_cons.1 hsorted
    have ih := ih hrest
    rw [findIdx?_cons, filter_cons]
    obtain hlt | heq | hlt := lt_trichotomy e.key startAfter
    · -- before it
      rw [if_neg (by simpa using hlt.ne), if_neg (by simpa using hlt.le)]
      cases hidx : entries.findIdx? fun e => decide (e.key = startAfter) with
      | none =>
        rw [hidx] at ih
        simpa [hlt] using ih
      | some =>
        rw [hidx] at ih
        simpa using ih
    · -- there
      have hall : entries.filter (fun e => decide (startAfter < e.key)) = entries := by
        rw [filter_eq_self]
        intro e' he'
        exact decide_eq_true (heq ▸ habove e' he')
      rw [if_pos (by simpa using heq), if_neg (by simp [heq]), hall]
      rfl
    · -- not at all
      have hall : entries.filter (fun e => decide (startAfter < e.key)) = entries := by
        rw [filter_eq_self]
        intro e' he'
        exact decide_eq_true (hlt.trans (habove e' he'))
      have hnone : entries.findIdx? (fun e => decide (e.key = startAfter)) = none := by
        rw [findIdx?_eq_none_iff]
        intro e' he'
        exact decide_eq_false (hlt.trans (habove e' he')).ne'
      rw [if_neg (by simpa using hlt.ne'), if_pos (by simpa using hlt), hnone, hall]
      simp [hlt.le]

/-- The items behind a key, all of them behind the empty one. -/
def behind (startAfter : List α) (items : List (List α × V)) : List (List α × V) :=
  items.filter fun item => decide (startAfter = []) || decide (startAfter < item.1)

theorem liveItems_filter :
    liveItems pfx (entries.filter fun e => decide (startAfter = []) || decide (startAfter < e.key)) =
    behind startAfter (liveItems pfx entries) := by
  rw [liveItems, behind, liveItems, filter_map, filter_filter, filter_filter]
  congr 1
  apply filter_congr
  intro e _
  exact Bool.and_comm _ _

theorem scanPage_eq (view : SnapshotView α V) (pfx startAfter : List α) (hlimit : 0 < limit) :
    scanPage view pfx startAfter limit = ((behind startAfter (liveItems pfx view.entries)).take limit,
      decide (limit < (behind startAfter (liveItems pfx view.entries)).length)) := by
  have hsorted := view.sorted.filter fun e => decide (startAfter = []) || decide (startAfter < e.key)
  rw [scanPage, drop_startIdx view.sorted, scanEntries_eq hsorted hlimit [] (Nat.zero_le _),
    liveItems_filter]
  rfl

/-! ## Paging -/

theorem pairwise_liveItems (hsorted : entries.Pairwise fun e e' => e.key < e'.key) (pfx : List α) :
    (liveItems pfx entries).Pairwise fun item item' => item.1 < item'.1 :=
  (hsorted.filter _).map _ fun _ _ hlt => hlt

theorem mem_liveItems {k : List α} {v : V} : (k, v) ∈ liveItems pfx entries ↔
    ∃ e ∈ entries, e.key = k ∧ e.value = v ∧ e.tombstone = false ∧ pfx.isPrefixOf k = true := by
  simp only [liveItems, mem_map, mem_filter, Bool.and_eq_true, Bool.not_eq_true', Prod.mk.injEq]
  constructor
  · rintro ⟨e, ⟨he, hpfx, htomb⟩, rfl, rfl⟩
    exact ⟨e, he, rfl, rfl, htomb, hpfx⟩
  · rintro ⟨e, he, rfl, rfl, htomb, hpfx⟩
    exact ⟨e, ⟨he, hpfx, htomb⟩, rfl, rfl⟩

theorem behind_last {items before after : List (List α × V)} {last : List α × V}
    (hsorted : items.Pairwise fun item item' => item.1 < item'.1)
    (hpage : behind startAfter items = before ++ last :: after) (hlast : last.1 ≠ []) :
    behind last.1 items = after := by
  have hpairs : (before ++ last :: after).Pairwise fun item item' => item.1 < item'.1 :=
    hpage ▸ hsorted.filter _
  obtain ⟨-, hafter, hbefore⟩ := pairwise_append.1 hpairs
  have hmem : last ∈ behind startAfter items := by
    rw [hpage]
    exact mem_append_right _ mem_cons_self
  -- what is behind the last item is behind the start of the page too
  have htwice : behind last.1 items = (behind startAfter items).filter fun item =>
    decide (last.1 < item.1) := by
    rw [behind, behind, filter_filter]
    apply filter_congr
    intro item _
    have hstart := (mem_filter.1 hmem).2
    by_cases hlt : last.1 < item.1
    · rw [Bool.or_eq_true, decide_eq_true_eq, decide_eq_true_eq] at hstart
      have hitem : startAfter = [] ∨ startAfter < item.1 := hstart.imp_right fun h => h.trans hlt
      simp [hlast, hlt, hitem]
    · simp [hlast, hlt]
  have hnone : before.filter (fun item => decide (last.1 < item.1)) = [] := by
    rw [filter_eq_nil_iff]
    intro item hitem
    simpa using (hbefore item hitem last mem_cons_self).le
  have hall : after.filter (fun item => decide (last.1 < item.1)) = after := by
    rw [filter_eq_self]
    intro item hitem
    exact decide_eq_true ((pairwise_cons.1 hafter).1 item hitem)
  rw [htwice, hpage, filter_append, hnone, filter_cons, hall]
  simp

theorem kvSnapshotScan_of_held {snapshots : Snapshots α V} {id now : ℕ} {handle : SnapshotHandle α V}
    (hheld : snapshots id = some handle) (hlease : handle.expired now = false) (groupId : ℕ)
    (pfx startAfter : List α)
    (limit : ℕ) :
    kvSnapshotScan (some snapshots) now groupId id pfx startAfter limit =
      (⟨true, "", (scanPage handle.view pfx startAfter limit).2,
        (scanPage handle.view pfx startAfter limit).1, .none⟩,
        some (reapExpiredSnapshots snapshots now)) ∧
    reapExpiredSnapshots snapshots now id = some handle := by
  have hkept : reapExpiredSnapshots snapshots now id = some handle := by
    simp [reapExpiredSnapshots, hheld, hlease]
  refine ⟨?_, hkept⟩
  rw [kvSnapshotScan]
  simp only [hkept]

section

variable {id : ℕ} {handle : SnapshotHandle α V} {now : ℕ → ℕ}

/-- No page ends with the empty key while another item is left. -/
def EndsBehindEmpty (limit : ℕ) (items : List (List α × V)) : Prop :=
  limit = 1 → ∀ v, ([], v) ∈ items → items = [([], v)]

theorem last_ne_nil {items before after : List (List α × V)} {last : List α × V}
    (hsorted : items.Pairwise fun item item' => item.1 < item'.1)
    (hends : EndsBehindEmpty limit items)
    (hpage : behind startAfter items = before ++ last :: after) (hlen : before.length + 1 = limit)
    (hafter : after ≠ []) :
    last.1 ≠ [] := by
  intro hnil
  have hpairs : (before ++ last :: after).Pairwise fun item item' => item.1 < item'.1 :=
    hpage ▸ hsorted.filter _
  have hsub : (before ++ last :: after).Sublist items := hpage ▸ filter_sublist
  -- nothing is below the empty key, so the page is this one item
  have hbefore : before = [] := by
    rw [eq_nil_iff_forall_not_mem]
    intro item hitem
    have hlt := (pairwise_append.1 hpairs).2.2 item hitem last mem_cons_self
    rw [hnil] at hlt
    exact not_lt_nil _ hlt
  have hlimit : limit = 1 := by
    rw [← hlen, hbefore]
    rfl
  have hlast : ([], last.2) ∈ items := by
    have hmem := hsub.subset (mem_append_right before mem_cons_self)
    rwa [← hnil]
  have honly := congrArg length (hends hlimit last.2 hlast)
  have hlength := hsub.length_le
  have hpos := length_pos_of_ne_nil hafter
  rw [length_append, length_cons] at hlength
  rw [length_singleton] at honly
  omega

theorem scanAllPages_eq (hlimit : 0 < limit) (hlease : ∀ i, handle.expired (now i) = false)
    (hends : EndsBehindEmpty limit (liveItems pfx handle.view.entries)) (groupId fuel i : ℕ)
    (snapshots : Snapshots α V)
    (startAfter : List α) (hheld : snapshots id = some handle)
    (hfuel : (behind startAfter (liveItems pfx handle.view.entries)).length < fuel) :
    scanAllPages groupId id pfx limit now fuel i (some snapshots) startAfter =
      some (behind startAfter (liveItems pfx handle.view.entries)) := by
  have hsorted := pairwise_liveItems handle.view.sorted pfx
  generalize hitems : liveItems pfx handle.view.entries = items at hends hfuel hsorted
  induction fuel generalizing i snapshots startAfter with
  | zero => exact absurd hfuel (Nat.not_lt_zero _)
  | succ _ ih =>
    obtain ⟨hscan, hkept⟩ := kvSnapshotScan_of_held hheld (hlease i) groupId pfx startAfter limit
    rw [scanPage_eq handle.view pfx startAfter hlimit, hitems] at hscan
    rw [scanAllPages, hscan]
    by_cases hcut : limit < (behind startAfter items).length
    · -- the page ends with an item that is not the last
      obtain ⟨before, last, after, hpage, hlen⟩ : ∃ before last after,
          behind startAfter items = before ++ last :: after ∧ before.length + 1 = limit := by
        refine ⟨_, _, _, ((behind startAfter items).take_append_drop (limit - 1)).symm.trans
          (congrArg _ (drop_eq_getElem_cons (by omega))), ?_⟩
        rw [length_take]
        omega
      have hafter : after ≠ [] := by
        rintro rfl
        rw [hpage, length_append, length_singleton] at hcut
        omega
      have hlast := last_ne_nil hsorted hends hpage hlen hafter
      have hnext := ih (i + 1) _ last.1 hkept (by
        rw [behind_last hsorted hpage hlast]
        rw [hpage, length_append, length_cons] at hfuel
        omega)
      have htake : (before ++ last :: after).take limit = before ++ [last] := by
        rw [← hlen, take_length_add_append]
        rfl
      rw [behind_last hsorted hpage hlast] at hnext
      rw [hpage] at hcut
      rw [hpage, htake]
      simp only [hcut, decide_true, if_true, getLast?_append, getLast?_singleton, Option.some_or,
        Option.bind_some,
        hnext, Option.map_some, append_assoc, singleton_append]
    · simp [hcut, take_of_length_le (not_lt.1 hcut)]

/-- Paging ends and gives every live key once, in order, if no page of one item ends with the empty
    key. -/
theorem snapshot_pages_complete (snapshots : Snapshots α V) (groupId id : ℕ) (pfx : List α)
    (limit : ℕ) (now : ℕ → ℕ)
    (hheld : snapshots id = some handle) (hlease : ∀ i, handle.expired (now i) = false)
    (hlimit : 1 ≤ limit)
    (hends : EndsBehindEmpty limit (liveItems pfx handle.view.entries)) :
    ∃ items : List (List α × V), (∃ calls, ∀ fuel, calls ≤ fuel →
        scanAllPages groupId id pfx limit now fuel 0 (some snapshots) [] = some items) ∧
      items.Pairwise (fun item item' => item.1 < item'.1) ∧
      ∀ k v, (k, v) ∈ items ↔ ∃ e ∈ handle.view.entries,
        e.key = k ∧ e.value = v ∧ e.tombstone = false ∧ pfx.isPrefixOf k = true := by
  have hall : behind [] (liveItems pfx handle.view.entries) =
    liveItems pfx handle.view.entries := by simp [behind]
  refine ⟨liveItems pfx handle.view.entries, ⟨(liveItems pfx handle.view.entries).length +
    1, fun fuel hfuel => ?_⟩,
    pairwise_liveItems handle.view.sorted pfx, fun k v => mem_liveItems⟩
  have hpages := scanAllPages_eq hlimit hlease hends groupId fuel 0 snapshots [] hheld
    (by rw [hall]; omega)
  rwa [hall] at hpages

end

/-! ## The empty key -/

/-- The empty key and another one. -/
def emptyKeyView : SnapshotView (Fin 256) Unit :=
  ⟨[⟨[], 1, false, ()⟩, ⟨[1], 2, false, ()⟩], by decide⟩

/-- A snapshot with the empty key. -/
def emptyKeyHandle : SnapshotHandle (Fin 256) Unit := ⟨2, emptyKeyView, 0, 300000⟩

/-- Its table. -/
def emptyKeySnapshots : Snapshots (Fin 256) Unit :=
  fun id => if id = 1 then some emptyKeyHandle else none

/-- Five live keys, the empty one among them, and a tombstone. -/
def pagedView : SnapshotView (Fin 256) Unit :=
  ⟨[⟨[], 1, false, ()⟩, ⟨[1], 2, false, ()⟩, ⟨[2], 3, true, ()⟩, ⟨[3], 4, false, ()⟩,
    ⟨[4], 5, false, ()⟩, ⟨[5], 6, false, ()⟩], by decide⟩

/-- The snapshot of `pagedView`, under the id `1`. -/
def pagedSnapshots : Snapshots (Fin 256) Unit :=
  fun id => if id = 1 then some ⟨6, pagedView, 0, 300000⟩ else none

/-- With two items a page the snapshot is read in three pages. -/
theorem snapshot_pages_of_two : scanPage pagedView [] [] 2 = ([([], ()), ([1], ())], true) ∧
    scanPage pagedView [] [1] 2 = ([([3], ()), ([4], ())], true) ∧
    ∃ items : List (List (Fin 256) × Unit), (∃ calls, ∀ fuel, calls ≤ fuel →
        scanAllPages 1 1 [] 2 (fun _ => 0) fuel 0 (some pagedSnapshots) [] = some items) ∧
      ([], ()) ∈ items ∧ ([2], ()) ∉ items ∧ ([5], ()) ∈ items := by
  obtain ⟨items, hpages, -, hmem⟩ := snapshot_pages_complete pagedSnapshots 1 1 [] 2 (fun _ => 0) rfl
    (fun _ => rfl) (by decide) nofun
  exact ⟨by decide +kernel, by decide +kernel, items, hpages, (hmem _ _).2 (by decide),
    fun h => absurd ((hmem _ _).1 h) (by decide), (hmem _ _).2 (by decide)⟩

/-- With one item a page the first page ends with the empty key, and so does every other. -/
theorem snapshot_pages_stuck :
    ∃ (snapshots : Snapshots (Fin 256) Unit) (handle : SnapshotHandle (Fin 256) Unit),
      snapshots 1 = some handle ∧
      handle.expired 0 = false ∧ ∀ fuel i, scanAllPages 1 1 [] 1 (fun _ => 0) fuel i
        (some snapshots) [] = none := by
  refine ⟨emptyKeySnapshots, emptyKeyHandle, rfl, rfl, fun fuel => ?_⟩
  have hheld : emptyKeySnapshots 1 = some emptyKeyHandle := rfl
  have hlease : emptyKeyHandle.expired 0 = false := rfl
  have hpage : scanPage emptyKeyView [] [] 1 = ([([], ())], true) := by decide +kernel
  have hreap : reapExpiredSnapshots emptyKeySnapshots 0 = emptyKeySnapshots := by
    funext id
    by_cases hid : id = 1
    · subst hid
      rfl
    · simp [reapExpiredSnapshots, emptyKeySnapshots, hid]
  induction fuel with
  | zero => exact fun i => rfl
  | succ _ ih =>
    intro i
    obtain ⟨hscan, -⟩ := kvSnapshotScan_of_held hheld hlease 1 [] [] 1
    rw [show emptyKeyHandle.view = emptyKeyView from rfl, hpage, hreap] at hscan
    rw [scanAllPages, hscan]
    simp [ih (i + 1)]

end CrowDB.Kv
