/-
  The usage bitmap of a zone (`bitmap.rs` of `crowdb-protocol`), as the set of its set bits.

  `range_set` and `range_clear` go bit by bit, and undo what they did when they meet a bit that is
  already in the target state: all or nothing (`rangeSet_eq`, `rangeClear_eq`).
-/
import Mathlib.Order.Interval.Finset.Nat

namespace CrowDB

open List

/-- The units of a range. -/
def units (offset count : ℕ) : Finset ℕ := Finset.Ico offset (offset + count)

/-- The bits that are set. -/
abbrev UsageBitmap := Finset ℕ

namespace UsageBitmap

variable (b : UsageBitmap)

/-- `count_set`. -/
def countSet : ℕ := b.card

/-- Bit `i` of the range and the `n` bits from there on; the bits before are set. -/
def rangeSetFrom (offset : ℕ) : ℕ → ℕ → UsageBitmap → UsageBitmap × Bool
  | _, 0, b => (b, true)
  | i, n + 1, b =>
    if offset + i ∈ b then ((List.range i).foldl (fun b j => b.erase (offset + j)) b, false)
    else rangeSetFrom offset (i + 1) n (insert (offset + i) b)

/-- Set the bits of a range; `false` if one of them was set. -/
def rangeSet (offset count : ℕ) : UsageBitmap × Bool := rangeSetFrom offset 0 count b

/-- The loop of `range_clear`. -/
def rangeClearFrom (offset : ℕ) : ℕ → ℕ → UsageBitmap → UsageBitmap × Bool
  | _, 0, b => (b, true)
  | i, n + 1, b =>
    if offset + i ∉ b then ((List.range i).foldl (fun b j => insert (offset + j) b) b, false)
    else rangeClearFrom offset (i + 1) n (b.erase (offset + i))

/-- Clear the bits of a range; `false` if one of them was clear. -/
def rangeClear (offset count : ℕ) : UsageBitmap × Bool := rangeClearFrom offset 0 count b

end UsageBitmap

/-! ## Ranges -/

variable {offset count i n : ℕ} {b : UsageBitmap}

theorem mem_units {u : ℕ} : u ∈ units offset count ↔ offset ≤ u ∧ u < offset + count := Finset.mem_Ico

@[simp] theorem units_zero : units offset 0 = ∅ := by simp [units]

theorem units_succ (offset count : ℕ) :
    units offset (count + 1) = insert (offset + count) (units offset count) := by
  ext u
  simp only [Finset.mem_insert, mem_units]
  omega

theorem units_succ_left (offset count : ℕ) :
    units offset (count + 1) = insert offset (units (offset + 1) count) := by
  ext u
  simp only [Finset.mem_insert, mem_units]
  omega

theorem start_mem_units (h : 0 < count) : offset ∈ units offset count :=
  mem_units.mpr ⟨le_rfl, by omega⟩

/-! ## Setting and clearing -/

theorem foldl_insert_eq (b : UsageBitmap) (offset i : ℕ) :
    (range i).foldl (fun b j => insert (offset + j) b) b = b ∪ units offset i := by
  induction i with
  | zero => simp
  | succ i ih =>
    rw [range_succ, foldl_append, ih, units_succ, Finset.union_insert]
    rfl

theorem foldl_erase_eq (b : UsageBitmap) (offset i : ℕ) :
    (range i).foldl (fun b j => b.erase (offset + j)) b = b \ units offset i := by
  induction i with
  | zero => simp
  | succ i ih =>
    rw [range_succ, foldl_append, ih, units_succ]
    ext u
    simp only [foldl_cons, foldl_nil, Finset.mem_erase, Finset.mem_sdiff, Finset.mem_insert]
    tauto

namespace UsageBitmap

theorem rangeSetFrom_eq (hd : Disjoint (units offset i) b) :
    rangeSetFrom offset i n (b ∪ units offset i) =
      if Disjoint (units (offset + i) n) b then (b ∪ units offset (i + n), true) else (b, false) := by
  induction n generalizing i with
  | zero => simp [rangeSetFrom]
  | succ n ih =>
    rw [rangeSetFrom]
    have hnot : offset + i ∉ units offset i := by rw [mem_units]; omega
    by_cases hi : offset + i ∈ b
    · rw [if_pos (Finset.mem_union_left _ hi), foldl_erase_eq, if_neg]
      · rw [Finset.union_sdiff_right, Finset.sdiff_eq_self_of_disjoint hd.symm]
      · intro h
        exact Finset.disjoint_left.mp h (start_mem_units (Nat.succ_pos n)) hi
    · have hd' : Disjoint (units offset (i + 1)) b := by
        rw [units_succ, Finset.disjoint_insert_left]
        exact ⟨hi, hd⟩
      have hiff : Disjoint (units (offset + (i + 1)) n) b ↔
        Disjoint (units (offset + i) (n + 1)) b := by
        rw [units_succ_left (offset + i) n, Finset.disjoint_insert_left, Nat.add_assoc]
        exact (and_iff_right hi).symm
      rw [if_neg (by simp [hi, hnot]), ← Finset.union_insert, ← units_succ, ih hd',
        show i + 1 + n = i + (n + 1) by omega]
      simp [hiff]

/-- **A range is set as a whole or not at all.** -/
theorem rangeSet_eq (b : UsageBitmap) (offset count : ℕ) : b.rangeSet offset count =
      if Disjoint (units offset count) b then (b ∪ units offset count, true) else (b, false) := by
  have hd : Disjoint (units offset 0) b := by simp
  simpa [rangeSet] using rangeSetFrom_eq (n := count) hd

theorem rangeClearFrom_eq (hd : units offset i ⊆ b) : rangeClearFrom offset i n (b \ units offset i) =
      if units (offset + i) n ⊆ b then (b \ units offset (i + n), true) else (b, false) := by
  induction n generalizing i with
  | zero => simp [rangeClearFrom]
  | succ n ih =>
    rw [rangeClearFrom]
    have hnot : offset + i ∉ units offset i := by rw [mem_units]; omega
    by_cases hi : offset + i ∈ b
    · have hd' : units offset (i + 1) ⊆ b := by
        rw [units_succ, Finset.insert_subset_iff]
        exact ⟨hi, hd⟩
      have herase : (b \ units offset i).erase (offset + i) = b \ units offset (i + 1) := by
        rw [units_succ, Finset.sdiff_insert]
      have hiff : units (offset + (i + 1)) n ⊆ b ↔ units (offset + i) (n + 1) ⊆ b := by
        rw [units_succ_left (offset + i) n, Finset.insert_subset_iff, Nat.add_assoc]
        exact (and_iff_right hi).symm
      rw [if_neg (by simp [hi, hnot]), herase, ih hd', show i + 1 + n = i + (n + 1) by omega]
      simp [hiff]
    · rw [if_pos (by simp [hi]), foldl_insert_eq, if_neg]
      · rw [Finset.sdiff_union_of_subset hd]
      · intro h
        exact hi (h (start_mem_units (Nat.succ_pos n)))

/-- **A range is cleared as a whole or not at all.** -/
theorem rangeClear_eq (b : UsageBitmap) (offset count : ℕ) : b.rangeClear offset count =
      if units offset count ⊆ b then (b \ units offset count, true) else (b, false) := by
  have hd : units offset 0 ⊆ b := by simp
  simpa [rangeClear] using rangeClearFrom_eq (n := count) hd

theorem subset_rangeSet (b : UsageBitmap) (offset count : ℕ) : b ⊆ (b.rangeSet offset count).1 := by
  rw [rangeSet_eq]
  split
  · exact Finset.subset_union_left
  · exact Finset.Subset.refl _

theorem rangeSet_of_disjoint (h : Disjoint (units offset count) b) :
    (b.rangeSet offset count).1 = b ∪ units offset count := by
  rw [rangeSet_eq, if_pos h]

theorem rangeSet_of_subset (h : units offset count ⊆ b) : (b.rangeSet offset count).1 = b := by
  rw [rangeSet_eq]
  split
  · exact Finset.union_eq_left.mpr h
  · rfl

theorem subset_rangeClear {s : Finset ℕ} (hs : s ⊆ b) (h : Disjoint (units offset count) s) :
    s ⊆ (b.rangeClear offset count).1 := by
  rw [rangeClear_eq]
  split
  · exact Finset.subset_sdiff.mpr ⟨hs, h.symm⟩
  · exact hs

end UsageBitmap

end CrowDB
