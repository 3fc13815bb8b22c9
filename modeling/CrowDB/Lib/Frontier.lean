/-
  A contiguous watermark over the naturals with an ordered set of values that arrived early.

  `advance` takes values in any order: the next value moves the mark and drains the consecutive
  early values, a higher value is kept for later, a lower one is ignored.  Mark and early values are
  exactly the values that have arrived (`mem_advance`); no early value continues the mark (`gap`).
  What has arrived determines the frontier (`ext_mem`).
-/
import Mathlib.Data.List.Sort
import Mathlib.Order.Bounds.Basic

namespace CrowDB.Lib

open List

/-- The mark `m` and, in increasing order, the early values, all above `m + 1`. -/
structure Frontier where
  mark : ℕ
  early : List ℕ
  sorted : early.Pairwise (· < ·)
  gap : ∀ s ∈ early, mark + 1 < s

namespace Frontier

/-- Everything up to `m` has arrived, and nothing else. -/
def upTo (m : ℕ) : Frontier := ⟨m, [], .nil, by simp⟩

/-- `s` has arrived. -/
def Mem (f : Frontier) (s : ℕ) : Prop := s ≤ f.mark ∨ s ∈ f.early
deriving Decidable

/-- Early values that continue the mark are taken off the front. -/
def drain : ℕ → List ℕ → ℕ × List ℕ
  | m, [] => (m, [])
  | m, s :: l => if s = m + 1 then drain s l else (m, s :: l)

theorem drain_sorted : ∀ {m : ℕ} {l : List ℕ}, l.Pairwise (· < ·) → (drain m l).2.Pairwise (· < ·)
  | _, [], h => h
  | m, s :: l, h => by
    unfold drain
    split
    · exact drain_sorted (pairwise_cons.mp h).2
    · exact h

theorem drain_gap : ∀ {m : ℕ} {l : List ℕ}, l.Pairwise (· < ·) → (∀ s ∈ l, m < s) →
    ∀ s ∈ (drain m l).2, (drain m l).1 + 1 < s
  | _, [], _, _ => by simp [drain]
  | m, s :: l, h, hm => by
    obtain ⟨hs, hl⟩ := pairwise_cons.mp h
    unfold drain
    split
    · exact drain_gap hl hs
    · next hne =>
      have hlt := hm s mem_cons_self
      intro t ht
      rcases mem_cons.mp ht with rfl | ht
      · show m + 1 < t; omega
      · have := hs t ht
        show m + 1 < t; omega

theorem mem_drain : ∀ {m : ℕ} {l : List ℕ} {t : ℕ}, (t ≤ (drain m l).1 ∨ t ∈ (drain m l).2) ↔
      (t ≤ m ∨ t ∈ l)
  | _, [], _ => Iff.rfl
  | m, s :: l, t => by
    unfold drain
    split
    · next hs =>
      subst hs
      rw [mem_drain, mem_cons, Nat.le_add_one_iff, or_assoc]
    · exact Iff.rfl

/-- `s` arrives. -/
def advance (f : Frontier) (s : ℕ) : Frontier :=
  if h : s = f.mark + 1 then
    { mark := (drain s f.early).1
      early := (drain s f.early).2
      sorted := drain_sorted f.sorted
      gap := drain_gap f.sorted fun t ht => h ▸ f.gap t ht }
  else if h' : s ≤ f.mark ∨ s ∈ f.early then f
  else
    { mark := f.mark
      early := f.early.orderedInsert (· ≤ ·) s
      sorted := by
        have hle := (f.sorted.imp fun h => le_of_lt h).orderedInsert s f.early
        have hnd : (f.early.orderedInsert (· ≤ ·) s).Nodup := by
          rw [(List.perm_orderedInsert _ s f.early).nodup_iff, List.nodup_cons]
          exact ⟨fun hm => h' (.inr hm), f.sorted.imp fun h => ne_of_lt h⟩
        exact (hle.and hnd).imp fun h => lt_of_le_of_ne h.1 h.2
      gap := by
        intro t ht
        rcases (List.mem_orderedInsert _).mp ht with rfl | ht
        · omega
        · exact f.gap t ht }

variable {f : Frontier} {s t : ℕ}

theorem mem_advance : (f.advance s).Mem t ↔ f.Mem t ∨ t = s := by
  unfold advance
  split
  · next hs =>
    subst hs
    show (t ≤ (drain _ _).1 ∨ t ∈ (drain _ _).2) ↔ (t ≤ f.mark ∨ t ∈ f.early) ∨ t = f.mark + 1
    rw [mem_drain, Nat.le_add_one_iff]
    tauto
  · split
    · next h =>
      constructor
      · exact .inl
      · rintro (h' | rfl)
        · exact h'
        · exact h
    · show (t ≤ f.mark ∨ t ∈ f.early.orderedInsert _ s) ↔ (t ≤ f.mark ∨ t ∈ f.early) ∨ t = s
      rw [mem_orderedInsert]
      tauto

/-! ## What arrived determines the frontier -/

/-- The mark is the end of the unbroken part of what arrived from `1` on, and the early values are the
    rest of it. -/
structure IsContiguous (f : Frontier) (arrived : List ℕ) : Prop where
  greatest : IsGreatest {m | ∀ s, 1 ≤ s → s ≤ m → s ∈ arrived} f.mark
  early : ∀ s, s ∈ f.early ↔ s ∈ arrived ∧ f.mark < s

theorem not_mem_succ (f : Frontier) : ¬ f.Mem (f.mark + 1) := by
  rintro (h | h)
  · omega
  · exact lt_irrefl _ (f.gap _ h)

theorem mem_early_iff : s ∈ f.early ↔ f.Mem s ∧ f.mark < s := by
  constructor
  · intro h
    exact ⟨.inr h, (Nat.lt_succ_self _).trans (f.gap s h)⟩
  · rintro ⟨h | h, hlt⟩
    · omega
    · exact h

theorem le_mark {m : ℕ} (h : ∀ s ≤ m, f.Mem s) : m ≤ f.mark := by
  by_contra hlt
  exact f.not_mem_succ (h _ (not_le.1 hlt))

theorem mark_mono {g : Frontier} (h : ∀ s, f.Mem s → g.Mem s) : f.mark ≤ g.mark :=
  le_mark fun s hs => h s (.inl hs)

theorem ext_mem {g : Frontier} (h : ∀ s, f.Mem s ↔ g.Mem s) : f = g := by
  have hmark : f.mark = g.mark :=
    le_antisymm (mark_mono fun s => (h s).1) (mark_mono fun s => (h s).2)
  have hearly : f.early = g.early := by
    refine Perm.eq_of_pairwise (fun a b _ _ hab hba => absurd hab (not_lt.2 hba.le))
      f.sorted g.sorted ?_
    refine (perm_ext_iff_of_nodup (f.sorted.imp fun h => h.ne) (g.sorted.imp fun h => h.ne)).2
      fun s => ?_
    rw [mem_early_iff, mem_early_iff, h, hmark]
  cases f
  cases g
  cases hmark
  cases hearly
  rfl

/-- **The law** of the frontier: if `arrived` are the values from `1` on that have arrived. -/
theorem isContiguous_of_mem {arrived : List ℕ} (h : ∀ s, f.Mem s ↔ s = 0 ∨ s ∈ arrived) :
    f.IsContiguous arrived := by
  refine ⟨⟨fun s hs hle => ?_, fun m hm => ?_⟩, fun s => ?_⟩
  · exact ((h s).1 (.inl hle)).resolve_left (Nat.ne_of_gt hs)
  · -- the value after the mark has not arrived
    by_contra hlt
    exact f.not_mem_succ ((h _).2 (.inr (hm _ (Nat.succ_pos _) (not_le.1 hlt))))
  · rw [mem_early_iff, h]
    refine and_congr_left fun hlt => ⟨fun hs => hs.resolve_left ?_, .inr⟩
    omega

theorem mem_foldl_advance (arrived : List ℕ) (f : Frontier) :
    (arrived.foldl advance f).Mem s ↔ f.Mem s ∨ s ∈ arrived := by
  induction arrived generalizing f with
  | nil => simp
  | cons _ _ ih => rw [foldl_cons, ih, mem_advance, mem_cons, or_assoc]

theorem mem_foldl_upTo (arrived : List ℕ) : (arrived.foldl advance (upTo 0)).Mem s ↔ s = 0 ∨
      s ∈ arrived := by
  rw [mem_foldl_advance]
  refine or_congr_left ?_
  simp [Mem, upTo]

end Frontier

end CrowDB.Lib
