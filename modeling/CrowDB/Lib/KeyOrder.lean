/-
  Strings in lexicographic order: those that begin with a given one are an interval, and strings of
  fields of fixed widths are ordered by field.
-/
import Mathlib.Data.List.Lex

namespace CrowDB.Lib

open List

variable {α : Type*} [LinearOrder α]

theorem isPrefixOf_of_between {pfx k k' : List α} (h : pfx.isPrefixOf k' = true) (hle : pfx ≤ k)
    (hle' : k ≤ k') :
    pfx.isPrefixOf k = true := by
  induction pfx generalizing k k' with
  | nil => rfl
  | cons a pfx ih =>
    match k, k' with
    | [], _ => exact absurd hle (not_le.2 (nil_lt_cons a pfx))
    | b :: k, b' :: k' =>
      rw [isPrefixOf_cons_cons, Bool.and_eq_true, beq_iff_eq] at h
      obtain ⟨rfl, h⟩ := h
      obtain rfl : b = a := by
        refine le_antisymm ?_ ?_
        · by_contra hlt
          exact absurd hle' (not_le.2 (cons_lt_cons_iff.2 (.inl (not_le.1 hlt))))
        · by_contra hlt
          exact absurd hle (not_le.2 (cons_lt_cons_iff.2 (.inl (not_le.1 hlt))))
      have hle : pfx ≤ k := by
        by_contra hlt
        exact absurd hle (not_le.2 (cons_lt_cons_iff.2 (.inr ⟨rfl, not_le.1 hlt⟩)))
      have hle' : k ≤ k' := by
        by_contra hlt
        exact absurd hle' (not_le.2 (cons_lt_cons_iff.2 (.inr ⟨rfl, not_le.1 hlt⟩)))
      rw [isPrefixOf_cons_cons, Bool.and_eq_true, beq_iff_eq]
      exact ⟨rfl, ih h hle hle'⟩

omit [LinearOrder α] in
theorem append_lt_append_iff [LT α] {a b : List α} (x y : List α) (h : a.length = b.length) :
    a ++ x < b ++ y ↔ a < b ∨ a = b ∧ x < y := by
  induction a generalizing b with
  | nil =>
    obtain rfl := length_eq_zero_iff.1 h.symm
    simp
  | cons c a ih =>
    match b, h with
    | d :: b, h =>
      rw [cons_append, cons_append, cons_lt_cons_iff, ih (Nat.succ.inj h), cons_lt_cons_iff,
        cons.injEq]
      tauto

end CrowDB.Lib
