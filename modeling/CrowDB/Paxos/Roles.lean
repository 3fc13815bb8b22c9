/-
  The vocabulary of the consensus core (`paxos/roles.rs`): ballots and their
  order, log entries, dedup tags, and the replies of an acceptor to Phase 1 and
  Phase 2.

  Node ids, slots (`SlotIndex`), terms (`PxTerm`) and rounds are `u64` counters
  in the source; none of the modelled code wraps them, so they are natural
  numbers here.
-/
import Mathlib.Order.Lattice
import Mathlib.Tactic.Common

namespace CrowDB

/-- A serialized batch of operations; the empty payload is a `NoOp`. -/
abbrev Bytes := List UInt8

/-! ## Ballots -/

/-- A Paxos proposal number, ordered by `round`, then by `leader_id`. -/
structure PxBallot where
  round : ℕ
  leaderId : ℕ
deriving DecidableEq

namespace PxBallot

/-- The ballot that a missing promise stands for (`unwrap_or(PxBallot::new(0, 0))`). -/
def zero : PxBallot := ⟨0, 0⟩

/-- By round, then by leader. -/
protected def le (a b : PxBallot) : Prop :=
  a.round < b.round ∨ (a.round = b.round ∧ a.leaderId ≤ b.leaderId)

instance : LE PxBallot := ⟨PxBallot.le⟩

instance (a b : PxBallot) : Decidable (a ≤ b) :=
  inferInstanceAs (Decidable (_ ∨ _))

theorem le_def {a b : PxBallot} :
    a ≤ b ↔ a.round < b.round ∨ (a.round = b.round ∧ a.leaderId ≤ b.leaderId) := Iff.rfl

instance : LinearOrder PxBallot where
  le_refl a := Or.inr ⟨rfl, Nat.le_refl _⟩
  le_trans a b c := by simp only [le_def]; omega
  le_antisymm a b := by
    intro h h'
    cases a; cases b
    simp only [le_def] at h h'
    simp only [PxBallot.mk.injEq]; omega
  le_total a b := by simp only [le_def]; omega
  toDecidableLE := inferInstance

theorem lt_def {a b : PxBallot} :
    a < b ↔ a.round < b.round ∨ (a.round = b.round ∧ a.leaderId < b.leaderId) := by
  rw [lt_iff_not_ge, le_def]; omega

theorem zero_le (b : PxBallot) : zero ≤ b := by
  simp only [le_def, zero]; omega

end PxBallot

/-! ## Entries, tags and replies -/

/-- `PxLogEntry`. -/
structure PxLogEntry where
  slot : ℕ
  ballot : PxBallot
  term : ℕ
  payload : Bytes
deriving DecidableEq

/-- One `(client_id, seq)` tag of a client operation; `client_id = 0` means no
    dedup. -/
structure DedupTag where
  clientId : ℕ
  seq : ℕ
deriving DecidableEq

/-- `PxPrepareReply`. -/
inductive PxPrepareReply where
  | promised (slot : ℕ) (accepted : Option PxLogEntry)
  | rejected (slot : ℕ) (currentPromised : PxBallot)
  | termStale (slot : ℕ) (newTerm : ℕ)
deriving DecidableEq

/-- `PxAcceptReply`. -/
inductive PxAcceptReply where
  | accepted (slot : ℕ) (ballot : PxBallot)
  | rejected (slot : ℕ) (currentPromised : PxBallot)
  | termStale (slot : ℕ) (newTerm : ℕ)
deriving DecidableEq

end CrowDB
