/-
  Key-value records in key order.

  A `RecordStore` keeps at most one record for a key, sorted by key, so a scan of a
  key range is the list of its records.
-/
import Mathlib.Data.List.Sort

namespace CrowDB.Lib

open List Option

/-- The records of a store in the order of their keys. -/
structure RecordStore (K V : Type*) [LinearOrder K] where
  records : List (K × V)
  sorted : (records.map Prod.fst).Pairwise (· < ·)
deriving DecidableEq

namespace RecordStore

variable {K V : Type*} [LinearOrder K] (s : RecordStore K V)

/-- No record. -/
def empty : RecordStore K V := ⟨[], List.Pairwise.nil⟩

/-- The record of a key. -/
def get (k : K) : Option V := (s.records.find? fun p => decide (p.1 = k)).map Prod.snd

theorem sorted_insert (k : K) (v : V) : ((s.records.filter (fun p => decide (p.1 < k)) ++
      (k, v) :: s.records.filter (fun p => decide (k < p.1))).map Prod.fst).Pairwise (· < ·) := by
  rw [map_append, map_cons, pairwise_append, pairwise_cons]
  have hsub : ∀ f : K × V → Bool, ((s.records.filter f).map Prod.fst).Pairwise (· < ·) := fun f =>
    s.sorted.sublist (filter_sublist.map Prod.fst)
  have hlow : ∀ a ∈ (s.records.filter (fun p => decide (p.1 < k))).map Prod.fst, a < k := by
    intro a ha
    obtain ⟨p, hp, rfl⟩ := mem_map.mp ha
    exact of_decide_eq_true (mem_filter.mp hp).2
  have hhigh : ∀ a ∈ (s.records.filter (fun p => decide (k < p.1))).map Prod.fst, k < a := by
    intro a ha
    obtain ⟨p, hp, rfl⟩ := mem_map.mp ha
    exact of_decide_eq_true (mem_filter.mp hp).2
  refine ⟨hsub _, ⟨hhigh, hsub _⟩, ?_⟩
  intro a ha b hb
  rcases mem_cons.mp hb with rfl | hb
  · exact hlow a ha
  · exact (hlow a ha).trans (hhigh b hb)

/-- Writes a record. -/
def put (k : K) (v : V) : RecordStore K V := ⟨_, s.sorted_insert k v⟩

/-- Deletes a record. -/
def delete (k : K) : RecordStore K V :=
  ⟨s.records.filter fun p => decide (p.1 ≠ k), s.sorted.sublist (List.filter_sublist.map Prod.fst)⟩

/-- The records that satisfy `f`. -/
def filter (f : K × V → Bool) : RecordStore K V :=
  ⟨s.records.filter f, s.sorted.sublist (List.filter_sublist.map Prod.fst)⟩

variable {s : RecordStore K V} {k : K} {v : V} {p q : K × V}

theorem mem_put : p ∈ (s.put k v).records ↔ p = (k, v) ∨ (p ∈ s.records ∧ p.1 ≠ k) := by
  simp only [put, mem_append, mem_cons, mem_filter, decide_eq_true_eq]
  constructor
  · rintro (⟨hp, hlt⟩ | rfl | ⟨hp, hlt⟩)
    · exact .inr ⟨hp, hlt.ne⟩
    · exact .inl rfl
    · exact .inr ⟨hp, hlt.ne'⟩
  · rintro (rfl | ⟨hp, hne⟩)
    · exact .inr (.inl rfl)
    · rcases lt_or_gt_of_ne hne with hlt | hlt
      · exact .inl ⟨hp, hlt⟩
      · exact .inr (.inr ⟨hp, hlt⟩)

theorem mem_delete : p ∈ (s.delete k).records ↔ p ∈ s.records ∧ p.1 ≠ k := by
  simp [delete]

theorem mem_of_get (h : s.get k = some v) : (k, v) ∈ s.records := by
  obtain ⟨p, hp, rfl⟩ := map_eq_some_iff.mp h
  have hk : p.1 = k := by simpa using find?_some hp
  rw [← hk]
  exact mem_of_find?_eq_some hp

theorem eq_of_mem (hp : p ∈ s.records) (hq : q ∈ s.records) (h : p.1 = q.1) : p = q := by
  have hnodup : (s.records.map Prod.fst).Nodup := s.sorted.imp fun hlt => hlt.ne
  exact inj_on_of_nodup_map hnodup hp hq h

theorem get_eq_some_iff : s.get k = some v ↔ (k, v) ∈ s.records := by
  refine ⟨mem_of_get, fun h => ?_⟩
  have hsome : (s.records.find? fun p => decide (p.1 = k)).isSome :=
    find?_isSome.mpr ⟨(k, v), h, decide_eq_true rfl⟩
  obtain ⟨p, hp⟩ := isSome_iff_exists.mp hsome
  have hk : p.1 = k := by simpa using find?_some hp
  rw [get, hp, eq_of_mem (mem_of_find?_eq_some hp) h hk]
  rfl

theorem get_eq_none_iff : s.get k = none ↔ ∀ v, (k, v) ∉ s.records := by
  simp [eq_none_iff_forall_ne_some, get_eq_some_iff]

theorem get_put (k' : K) : (s.put k v).get k' = if k' = k then some v else s.get k' := by
  refine ext fun w => ?_
  rw [get_eq_some_iff, mem_put]
  split
  · rename_i heq
    subst heq
    simp [eq_comm]
  · rename_i hne
    simp [hne, get_eq_some_iff]

@[simp] theorem get_put_self : (s.put k v).get k = some v := by rw [get_put, if_pos rfl]

theorem get_delete (k' : K) : (s.delete k).get k' = if k' = k then none else s.get k' := by
  refine ext fun w => ?_
  rw [get_eq_some_iff, mem_delete]
  split
  · rename_i heq
    simp [heq]
  · rename_i hne
    simp [hne, get_eq_some_iff]

theorem mem_filter {f : K × V → Bool} : p ∈ (s.filter f).records ↔ p ∈ s.records ∧ f p = true :=
  List.mem_filter

end RecordStore

end CrowDB.Lib
