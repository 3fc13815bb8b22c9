/-
  Cells and memtables (`cell.h`, `memtable.cpp`): a key has one cell, that of the highest
  slot, and a memtable refuses cells at or below its durable floor.
-/
import CrowDB.Lib.RecordStore

namespace CrowDB

open Lib

/-- What an operation of a slot leaves for its key: a value, or `none` for a tombstone. -/
structure Cell (V : Type*) where
  slot : ℕ
  value : Option V
deriving DecidableEq

variable {K V : Type*} [LinearOrder K]

/-- The store has a cell of the key, of slot `n` or a later one. -/
def AtLeast (s : RecordStore K (Cell V)) (k : K) (n : ℕ) : Prop :=
  ∃ p ∈ s.records, p.1 = k ∧ n ≤ p.2.slot
deriving Decidable

/-- Every cell of the one store is in the other one, or a later cell of its key. -/
def NoOlder (s s' : RecordStore K (Cell V)) : Prop := ∀ k n, AtLeast s k n → AtLeast s' k n

theorem NoOlder.refl (s : RecordStore K (Cell V)) : NoOlder s s := fun _ _ h => h

theorem NoOlder.trans {s₁ s₂ s₃ : RecordStore K (Cell V)} (h : NoOlder s₁ s₂) (h' : NoOlder s₂ s₃) :
    NoOlder s₁ s₃ := fun k n hn => h' k n (h k n hn)

theorem noOlder_put {s : RecordStore K (Cell V)} {k : K} {c : Cell V}
    (h : ∀ old, (k, old) ∈ s.records → old.slot ≤ c.slot) : NoOlder s (s.put k c) := by
  rintro k' n ⟨⟨k₀, old⟩, hp, rfl, hn⟩
  by_cases hk : k₀ = k
  · subst hk
    exact ⟨(k₀, c), RecordStore.mem_put.mpr (.inl rfl), rfl, hn.trans (h old hp)⟩
  · exact ⟨(k₀, old), RecordStore.mem_put.mpr (.inr ⟨hp, hk⟩), rfl, hn⟩

/-! ## Memtables -/

/-- `MemTable`. -/
structure MemTable (K V : Type*) [LinearOrder K] where
  cells : RecordStore K (Cell V) := .empty
  durableFloor : ℕ := 0

namespace MemTable

variable (t : MemTable K V)

/-- The cell of a key. -/
def find (k : K) : Option (Cell V) := t.cells.get k

/-- `empty`. -/
def isEmpty : Bool := t.cells.records.isEmpty

/-- Insert or replace; the highest slot wins. -/
def upsert (k : K) (c : Cell V) : MemTable K V :=
  if c.slot ≤ t.durableFloor then t
  else match t.find k with
  | some old => if c.slot ≤ old.slot then t else { t with cells := t.cells.put k c }
  | none => { t with cells := t.cells.put k c }

/-- `set_durable_floor`. -/
def setDurableFloor (slot : ℕ) : MemTable K V := { t with durableFloor := max t.durableFloor slot }

/-- The cells up to `cs` in key order, and the table without them. -/
def drainUpTo (cs : ℕ) : List (K × Cell V) × MemTable K V :=
  (t.cells.records.filter fun p => decide (p.2.slot ≤ cs),
    { t with cells := t.cells.filter fun p => decide (cs < p.2.slot) })

/-- `drain_all`. -/
def drainAll : List (K × Cell V) × MemTable K V := (t.cells.records, { t with cells := .empty })

variable {t} {k : K} {c : Cell V}

/-- **An upsert** above the floor leaves a cell that is not older, and adds its own only. -/
theorem upsert_spec (h : t.durableFloor < c.slot) :
    NoOlder t.cells (t.upsert k c).cells ∧ AtLeast (t.upsert k c).cells k c.slot ∧
      ∀ p ∈ (t.upsert k c).cells.records, p ∈ t.cells.records ∨ p = (k, c) := by
  unfold upsert
  rw [if_neg (by omega)]
  have hput : ∀ p ∈ (t.cells.put k c).records, p ∈ t.cells.records ∨ p = (k, c) := by
    intro p hp
    rcases RecordStore.mem_put.mp hp with rfl | ⟨hp, -⟩
    · exact .inr rfl
    · exact .inl hp
  have hself : AtLeast (t.cells.put k c) k c.slot :=
    ⟨(k, c), RecordStore.mem_put.mpr (.inl rfl), rfl, le_rfl⟩
  split
  · rename_i old hold
    have hmem := RecordStore.mem_of_get hold
    split
    · exact ⟨NoOlder.refl _, ⟨(k, old), hmem, rfl, ‹_›⟩, fun p hp => .inl hp⟩
    · refine ⟨noOlder_put fun old' hold' => ?_, hself, hput⟩
      cases RecordStore.eq_of_mem hmem hold' rfl
      omega
  · rename_i hnone
    refine ⟨noOlder_put fun old hold => ?_, hself, hput⟩
    exact absurd hold (RecordStore.get_eq_none_iff.mp hnone old)

@[simp] theorem upsert_durableFloor : (t.upsert k c).durableFloor = t.durableFloor := by
  unfold upsert
  split
  · rfl
  · split
    · split <;> rfl
    · rfl

theorem mem_upsert {p : K × Cell V} (hp : p ∈ (t.upsert k c).cells.records) :
    p ∈ t.cells.records ∨ p = (k, c) := by
  by_cases h : t.durableFloor < c.slot
  · exact (upsert_spec h).2.2 p hp
  · rw [upsert, if_pos (by omega)] at hp
    exact .inl hp

theorem noOlder_upsert : NoOlder t.cells (t.upsert k c).cells := by
  by_cases h : t.durableFloor < c.slot
  · exact (upsert_spec h).1
  · rw [upsert, if_pos (by omega)]
    exact NoOlder.refl _

end MemTable

/-! ## The tree as a map -/

variable (l1 : RecordStore K (Cell V))

/-- Add a cell to the chain of its leaf: reads resolve it by the highest slot. -/
def publishCell (p : K × Cell V) : RecordStore K (Cell V) :=
  match l1.get p.1 with
  | some old => if p.2.slot < old.slot then l1 else l1.put p.1 p.2
  | none => l1.put p.1 p.2

/-- The cells of a group go to the tree. -/
def publishGroup (group : List (K × Cell V)) : RecordStore K (Cell V) :=
  group.foldl publishCell l1

theorem publishCell_spec (p : K × Cell V) :
    NoOlder l1 (publishCell l1 p) ∧ AtLeast (publishCell l1 p) p.1 p.2.slot ∧
      ∀ q ∈ (publishCell l1 p).records, q ∈ l1.records ∨ q = p := by
  have hput : ∀ q ∈ (l1.put p.1 p.2).records, q ∈ l1.records ∨ q = p := by
    intro q hq
    rcases RecordStore.mem_put.mp hq with rfl | ⟨hq, -⟩
    · exact .inr rfl
    · exact .inl hq
  have hself : AtLeast (l1.put p.1 p.2) p.1 p.2.slot :=
    ⟨p, RecordStore.mem_put.mpr (.inl rfl), rfl, le_rfl⟩
  unfold publishCell
  split
  · rename_i old hold
    have hmem := RecordStore.mem_of_get hold
    split
    · exact ⟨NoOlder.refl _, ⟨(p.1, old), hmem, rfl, Nat.le_of_lt ‹_›⟩, fun q hq => .inl hq⟩
    · refine ⟨noOlder_put fun old' hold' => ?_, hself, hput⟩
      cases RecordStore.eq_of_mem hmem hold' rfl
      omega
  · rename_i hnone
    refine ⟨noOlder_put fun old hold => ?_, hself, hput⟩
    exact absurd hold (RecordStore.get_eq_none_iff.mp hnone old)

/-- **A group that is published** is in the tree, with what was there, and nothing else. -/
theorem publishGroup_spec (group : List (K × Cell V)) :
    NoOlder l1 (publishGroup l1 group) ∧ (∀ p ∈ group, AtLeast (publishGroup l1 group) p.1 p.2.slot) ∧
      ∀ q ∈ (publishGroup l1 group).records, q ∈ l1.records ∨ q ∈ group := by
  induction group generalizing l1 with
  | nil => exact ⟨NoOlder.refl _, by simp, fun q hq => .inl hq⟩
  | cons p _ ih =>
    obtain ⟨hold, hself, hnew⟩ := publishCell_spec l1 p
    obtain ⟨ih1, ih2, ih3⟩ := ih (publishCell l1 p)
    refine ⟨hold.trans ih1, fun q hq => ?_, fun q hq => ?_⟩
    · rcases List.mem_cons.mp hq with rfl | hq
      · exact ih1 _ _ hself
      · exact ih2 q hq
    · rcases ih3 q hq with hq | hq
      · rcases hnew q hq with hq | rfl
        · exact .inl hq
        · exact .inr List.mem_cons_self
      · exact .inr (List.mem_cons_of_mem p hq)

end CrowDB
