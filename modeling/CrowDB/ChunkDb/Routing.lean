/-
  The binding table of chunkdb (`routing.rs`, `migration.rs`) and the listing of chunks over it
  (`storage.rs`, `lifecycle.rs`).

  A chunk id hashes to a 16-bit bucket, and the table binds ranges of buckets to KV groups.
  `update_binding` drops every binding that the new one overlaps, also what lies outside the new
  range.  A listing scans the groups of all bindings from the same id on.
-/
import CrowDB.ChunkDb.Migration
import Mathlib.Data.List.Pairwise

namespace CrowDB

open Lib List Option

/-- The buckets `[start, end)` of a KV group. -/
structure BucketBinding where
  start : UInt16
  end_ : UInt16
  kvStoreId : ℕ
  kvGroupId : ℕ
  oldKvStoreId : Option ℕ := none
  oldKvGroupId : Option ℕ := none
  migrationState : MigrationState := .notMigrating
deriving DecidableEq

namespace BucketBinding

/-- The range contains the bucket. -/
def covers (b : BucketBinding) (bucket : UInt16) : Bool :=
  decide (bucket ≥ b.start) && decide (bucket < b.end_)

/-- What `update_binding` keeps next to the binding `new`. -/
def apart (new b : BucketBinding) : Bool := decide (b.end_ ≤ new.start) || decide (b.start ≥ new.end_)

/-- Buckets of the group `group` of store `1`. -/
def ofRange (start end_ : UInt16) (group : ℕ) : BucketBinding :=
  { start := start, end_ := end_, kvStoreId := 1, kvGroupId := group }

theorem not_covers_of_apart {new b : BucketBinding} {k : UInt16} (h : apart new b)
    (hk : new.covers k) :
    b.covers k = false := by
  simp only [apart, covers, Bool.or_eq_true, Bool.and_eq_true, decide_eq_true_eq, ge_iff_le,
    UInt16.le_iff_toNat_le,
    UInt16.lt_iff_toNat_lt, Bool.and_eq_false_iff, decide_eq_false_iff_not] at *
  omega

end BucketBinding

/-- `BindingTable`. -/
structure BindingTable where
  bindings : List BucketBinding
deriving DecidableEq

/-- All buckets bound to one group. -/
def defaultBindingTable (storeId groupId : ℕ) : BindingTable :=
  ⟨[{ start := 0, end_ := 65535, kvStoreId := storeId, kvGroupId := groupId }]⟩

namespace BindingTable

variable (t : BindingTable)

/-- `route`. -/
def route (bucket : UInt16) : Option BucketBinding := t.bindings.find? (·.covers bucket)

/-- Bindings that do not overlap have different starts, so the order of equal ones is of no
    account. -/
def updateBinding (binding : BucketBinding) : BindingTable :=
  ⟨(t.bindings.filter binding.apart ++ [binding]).mergeSort fun a b => decide (a.start ≤ b.start)⟩

/-- A run is a sequence of updates. -/
def step (binding : BucketBinding) : Option BindingTable := some (t.updateBinding binding)

/-- The new range is not empty, and does not take the binding of the bucket away without containing
    the bucket. -/
def Spares (k : UInt16) (t : BindingTable) (new : BucketBinding) : Prop :=
  new.start < new.end_ ∧ (new.covers k ∨ ∀ b ∈ t.bindings, b.covers k → new.apart b)

instance (k t) : DecidablePred (Spares k t) :=
  fun _ => inferInstanceAs (Decidable (_ ∧ (_ ∨ ∀ _ ∈ _, _ → _)))

/-- How many bindings contain the bucket. -/
def bound (k : UInt16) : ℕ := t.bindings.countP (·.covers k)

variable {t : BindingTable} {k : UInt16} {new : BucketBinding} {b : BucketBinding}

theorem mem_updateBinding :
      b ∈ (t.updateBinding new).bindings ↔ (b ∈ t.bindings ∧ new.apart b) ∨ b = new := by
  rw [updateBinding, mem_mergeSort, mem_append, mem_filter, mem_singleton]

theorem bound_updateBinding : (t.updateBinding new).bound k =
    (t.bindings.filter new.apart).countP (·.covers k) + if new.covers k then 1 else 0 := by
  rw [bound, updateBinding, (mergeSort_perm _ _).countP_eq, countP_append, countP_singleton]

theorem bound_of_spares (h : t.bound k = 1) (hs : Spares k t new) :
    (t.updateBinding new).bound k = 1 := by
  rw [bound_updateBinding]
  by_cases hk : new.covers k = true
  · have hnone : (t.bindings.filter new.apart).countP (·.covers k) = 0 :=
      countP_eq_zero.mpr fun b hb hbk => by
        rw [BucketBinding.not_covers_of_apart (mem_filter.mp hb).2 hk] at hbk
        cases hbk
    rw [hnone, if_pos hk]
  · -- every binding of the bucket is kept
    have hkept : ∀ b ∈ t.bindings, b.covers k → new.apart b := hs.2.resolve_left hk
    have hsame : (t.bindings.filter new.apart).countP (·.covers k) = t.bound k := by
      rw [countP_filter]
      refine countP_congr fun b hb => ?_
      simpa using hkept b hb
    rw [hsame, if_neg hk, h]

/-- A bucket that is bound once is routed to its binding. -/
theorem route_eq_of_bound (h : t.bound k = 1) (hb : b ∈ t.bindings) (hk : b.covers k) :
    t.route k = some b := by
  obtain ⟨x, hx⟩ := length_eq_one_iff.mp (countP_eq_length_filter.symm.trans h)
  obtain rfl : b = x := mem_singleton.mp (hx ▸ mem_filter.mpr ⟨hb, hk⟩)
  rw [route, ← head?_filter, hx, head?_cons]

theorem exists_route_of_bound (h : t.bound k = 1) :
      ∃ b ∈ t.bindings, b.covers k ∧ t.route k = some b := by
  obtain ⟨b, hb, hk⟩ := countP_pos_iff.mp (Nat.lt_of_lt_of_eq Nat.one_pos h.symm)
  exact ⟨b, hb, hk, route_eq_of_bound h hb hk⟩

theorem bound_defaultBindingTable (storeId groupId : ℕ) (hk : k ≠ 65535) :
    (defaultBindingTable storeId groupId).bound k = 1 := by
  have hlt : k < 65535 := by
    rw [ne_eq, ← UInt16.toNat_inj] at hk
    have := k.toNat_lt
    exact UInt16.lt_iff_toNat_lt.mpr (Nat.lt_of_le_of_ne (Nat.le_of_lt_succ this) hk)
  simp [bound, defaultBindingTable, BucketBinding.covers, hlt]

/-- **Routing of a bucket.** As long as the updates spare the bucket, exactly one binding has it,
    and an update changes its route only if the new range contains it. -/
theorem route_updateBinding_of_reach {storeId groupId : ℕ} (hk : k ≠ 65535)
    (h : Reach step (Spares k) (defaultBindingTable storeId groupId) t) (hs : Spares k t new) :
    t.bound k = 1 ∧ (t.updateBinding new).route k = if new.covers k then some new else t.route k := by
  have hbound : t.bound k = 1 := by
    refine h.invariant (P := fun t => t.bound k = 1) (bound_defaultBindingTable storeId groupId hk) ?_
    rintro s new _ hone hspares ⟨⟩
    exact bound_of_spares hone hspares
  have hafter := bound_of_spares hbound hs
  refine ⟨hbound, ?_⟩
  split
  · rename_i hnew
    exact route_eq_of_bound hafter (mem_updateBinding.mpr (.inr rfl)) hnew
  · rename_i hnew
    obtain ⟨b, hb, hbk, hroute⟩ := exists_route_of_bound hbound
    have hkept := hs.2.resolve_left hnew b hb hbk
    rw [hroute, route_eq_of_bound hafter (mem_updateBinding.mpr (.inl ⟨hb, hkept⟩)) hbk]

theorem route_updateBinding_twice :
    let t := (defaultBindingTable 1 1).updateBinding (.ofRange 10 20 2)
    Spares 12 (defaultBindingTable 1 1) (.ofRange 10 20 2) ∧ t.bound 12 = 1 ∧
      (t.updateBinding (.ofRange 30 40 3)).route 12 = some (.ofRange 10 20 2) := by
  have hreach : Reach step (Spares 12) (defaultBindingTable 1 1)
    ((defaultBindingTable 1 1).updateBinding (.ofRange 10 20 2)) :=
    Reach.refl.tail (e := .ofRange 10 20 2) (by decide) rfl
  have hspares : Spares 12 ((defaultBindingTable 1 1).updateBinding (.ofRange 10 20 2))
    (.ofRange 30 40 3) := by
    decide +kernel
  have h := route_updateBinding_of_reach (by decide) hreach hspares
  exact ⟨by decide, h.1, h.2.trans (by decide +kernel)⟩

/-- The default table does not bind the last bucket, and an update in the middle of a range unbinds
    the rest. -/
theorem updateBinding_loses_buckets : (defaultBindingTable 1 1).route 65535 = none ∧
    ∃ new : BucketBinding, new.start < new.end_ ∧ new.covers 5 = false ∧
      (defaultBindingTable 1 1).route 5 ≠ none ∧
      ((defaultBindingTable 1 1).updateBinding new).route 5 = none :=
  ⟨by decide, .ofRange 10 20 2, by decide +kernel⟩

end BindingTable

/-! ## Listing -/

section

variable {K V : Type*} [LinearOrder K]

/-- The chunk records of each KV group, by the ids of store and group. -/
abbrev KvGroups (K V : Type*) [LinearOrder K] := ℕ → ℕ → RecordStore K V

/-- A scan; `start_after` is exclusive. -/
def KvGroups.scan (kv : KvGroups K V) (storeId groupId : ℕ) (startAfter : Option K) (limit : ℕ) :
    List (K × V) :=
  ((kv storeId groupId).records.filter fun p => startAfter.all (decide <| · < p.1)).take limit

namespace ChunkStore

end ChunkStore

namespace LifecycleHandler

variable (t : BindingTable) (kv : KvGroups K V) (maxKeys : ℕ)

variable {t kv maxKeys} {startAfter : Option K} {c : K} {fuel : ℕ} {all : List (K × V)}

end LifecycleHandler

end

end CrowDB
