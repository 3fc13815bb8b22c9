/-
  Threshold quorums over a finite set of voters.

  Two quorums of the same voters intersect as soon as their thresholds add up to more than the number
  of voters; for majorities this always holds.  Counting the positive replies of voters gives a
  quorum, provided that no voter is counted twice.
-/
import Mathlib.Data.Finset.Card

namespace CrowDB.Lib

open List

/-- At least `q` of the voters `V`. -/
structure IsQuorum {α : Type*} (V : Finset α) (q : ℕ) (Q : Finset α) : Prop where
  subset : Q ⊆ V
  le_card : q ≤ Q.card

/-- More than half of `n`. -/
def majority (n : ℕ) : ℕ := n / 2 + 1

theorem lt_majority_add_majority {c n m : ℕ} (hn : c ≤ n) (hm : c ≤ m) :
    c < majority n + majority m := by
  unfold majority; omega

theorem IsQuorum.inter_nonempty {α : Type*} [DecidableEq α] {V Q Q' : Finset α} {q q' : ℕ}
    (h : IsQuorum V q Q) (h' : IsQuorum V q' Q')
    (hlt : V.card < q + q') : (Q ∩ Q').Nonempty := by
  refine Finset.inter_nonempty_of_card_lt_card_add_card h.subset h'.subset (hlt.trans_le ?_)
  exact Nat.add_le_add h.le_card h'.le_card

theorem IsQuorum.majority_inter {α : Type*} [DecidableEq α] {V Q Q' : Finset α}
    (h : IsQuorum V (majority V.card) Q) (h' : IsQuorum V (majority V.card) Q') :
    ∃ a, a ∈ Q ∧ a ∈ Q' := by
  obtain ⟨a, ha⟩ := h.inter_nonempty h' (lt_majority_add_majority le_rfl le_rfl)
  exact ⟨a, Finset.mem_inter.mp ha⟩

theorem exists_voters_of_countP {α β : Type*} [DecidableEq α] (V : Finset α) (pos : β → Bool)
    {replies : List (α × β)} (hnodup : (replies.map Prod.fst).Nodup) :
    ∃ Q ⊆ V, Q.card = replies.countP (fun p => pos p.2 && decide (p.1 ∈ V)) ∧
      ∀ a ∈ Q, ∃ b, (a, b) ∈ replies ∧ pos b = true := by
  let counted := replies.filter fun p => pos p.2 && decide (p.1 ∈ V)
  have hmem : ∀ a ∈ (counted.map Prod.fst).toFinset, ∃ b, (a, b) ∈ replies ∧
    pos b = true ∧ a ∈ V := by
    intro a ha
    obtain ⟨⟨a', b⟩, hab, rfl⟩ := mem_map.mp (mem_toFinset.mp ha)
    obtain ⟨hr, hpos⟩ := mem_filter.mp hab
    simp only [Bool.and_eq_true, decide_eq_true_eq] at hpos
    exact ⟨b, hr, hpos⟩
  refine ⟨(counted.map Prod.fst).toFinset, fun a ha => ?_, ?_, fun a ha => ?_⟩
  · obtain ⟨-, -, -, hV⟩ := hmem a ha
    exact hV
  · have hsub : (counted.map Prod.fst).Nodup := hnodup.sublist (filter_sublist.map _)
    rw [toFinset_card_of_nodup hsub, length_map, countP_eq_length_filter]
  · obtain ⟨b, hr, hpos, -⟩ := hmem a ha
    exact ⟨b, hr, hpos⟩

end CrowDB.Lib
