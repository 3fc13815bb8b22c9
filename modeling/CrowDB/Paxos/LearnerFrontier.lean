/-
  The law of the learner's two frontiers (`update_chosen_frontier`,
  `advance_applied_frontier`): the contiguous slot is the end of the unbroken part of the
  slots fed so far, the out-of-order set is the rest of them, and neither depends on the
  order in which they were fed.
-/
import CrowDB.Paxos.Learner

namespace CrowDB

open Lib

namespace PxLearner

variable (l : PxLearner)

/-- Slots are chosen one after another. -/
def learnSlots (fed : List (ℕ × ℕ)) : PxLearner :=
  fed.foldl (fun l p => l.updateChosenFrontier p.1 p.2) l

/-- Slots are applied one after another. -/
def applySlots (fed : List ℕ) : PxLearner := fed.foldl advanceAppliedFrontier l

theorem learnSlots_chosen (fed : List (ℕ × ℕ)) :
    (l.learnSlots fed).chosen = (fed.map Prod.fst).foldl Frontier.advance l.chosen := by
  induction fed generalizing l with
  | nil => rfl
  | cons p _ ih => exact ih (l.updateChosenFrontier p.1 p.2)

theorem applySlots_applied (fed : List ℕ) :
    (l.applySlots fed).applied = fed.foldl Frontier.advance l.applied := by
  induction fed generalizing l with
  | nil => rfl
  | cons s _ ih => exact ih (l.advanceAppliedFrontier s)

/-- **The frontier law**, for the chosen and the applied frontier of a new learner. -/
theorem frontier_law (chosen : List (ℕ × ℕ)) (applied : List ℕ) :
    (new.learnSlots chosen).chosen.IsContiguous (chosen.map Prod.fst) ∧
    (∀ chosen' : List (ℕ × ℕ), (∀ s, s ∈ chosen'.map Prod.fst ↔ s ∈ chosen.map Prod.fst) →
      (new.learnSlots chosen').chosen = (new.learnSlots chosen).chosen) ∧
    (new.applySlots applied).applied.IsContiguous applied ∧
    (∀ applied' : List ℕ, (∀ s, s ∈ applied' ↔ s ∈ applied) →
      (new.applySlots applied').applied = (new.applySlots applied).applied) := by
  have hchosen : ∀ fed s, (new.learnSlots fed).chosen.Mem s ↔ s = 0 ∨ s ∈ fed.map Prod.fst := by
    intro fed s
    rw [learnSlots_chosen]
    exact Frontier.mem_foldl_upTo _
  have happlied : ∀ fed s, (new.applySlots fed).applied.Mem s ↔ s = 0 ∨ s ∈ fed := by
    intro fed s
    rw [applySlots_applied]
    exact Frontier.mem_foldl_upTo _
  refine ⟨Frontier.isContiguous_of_mem (hchosen chosen), fun chosen' hsame => ?_,
    Frontier.isContiguous_of_mem (happlied applied), fun applied' hsame => ?_⟩
  · exact Frontier.ext_mem fun s => by rw [hchosen, hchosen, hsame]
  · exact Frontier.ext_mem fun s => by rw [happlied, happlied, hsame]

example : (new.learnSlots [(3, 1), (1, 1), (5, 2), (2, 1), (1, 1)]).contiguousChosen = 3 := by decide

end PxLearner

end CrowDB
