/-
  The follower's half of gap fetching (`cluster/group_fetchgap.rs`): the reply's entry goes
  to the acceptor, and the slot is counted as chosen whatever the acceptor replies.
-/
import CrowDB.Cluster.Replication

namespace CrowDB

open Lib

namespace Replica

variable {r : Replica} {entry : PxLogEntry}

/-- If the slot is newly counted as chosen, the reply's entry is accepted there and handed over. -/
def InstallsMarked (r : Replica) (entry : PxLogEntry) : Prop :=
  let r' := (r.receiveFetchGapReply entry).1
  r'.learner.isChosen entry.slot = true → r.learner.isChosen entry.slot = false →
    r'.acceptor.acceptedAt entry.slot = some entry ∧
      ∀ ok, (r'.applySlot entry.slot ok).2 = [.handed entry.slot entry.payload]

theorem receiveFetchGapReply_fst : (r.receiveFetchGapReply entry).1 = { r with
    acceptor := (r.acceptor.accept entry).1
    learner := r.learner.updateChosenFrontier entry.slot entry.term } := by
  unfold receiveFetchGapReply
  dsimp only
  split <;> rfl

theorem isChosen_receiveFetchGapReply :
    (r.receiveFetchGapReply entry).1.learner.isChosen entry.slot = true := by
  rw [receiveFetchGapReply_fst]
  exact decide_eq_true (Frontier.mem_advance.2 (.inr rfl))

theorem acceptedAt_receiveFetchGapReply :
    (r.receiveFetchGapReply entry).1.acceptor.acceptedAt entry.slot =
      if ∀ p ∈ r.acceptor.promisedAt entry.slot, p ≤ entry.ballot then some entry
      else r.acceptor.acceptedAt entry.slot := by
  rw [receiveFetchGapReply_fst]
  have haccepted : (r.acceptor.accept entry).1.acceptedAt entry.slot =
      ((r.acceptor.nodes entry.slot).accept entry).1.accepted := by
    simp [PxAcceptor.acceptedAt, PxAcceptor.accept, PxAcceptor.setNode]
  rw [haccepted]
  rcases (r.acceptor.nodes entry.slot).accept_cases entry with ⟨p, hp, hlt, hcase⟩ | ⟨hle, hcase⟩
  · rw [hcase, if_neg fun h => absurd (h p hp) (not_le.2 hlt)]
    rfl
  · rw [hcase, if_pos]
    · rfl
    · intro p hp
      have hpromised : (r.acceptor.nodes entry.slot).promised = some p := hp
      rw [PxSlotNode.promisedBallot, hpromised] at hle
      exact hle

/-- **The handler** installs what it marks iff no higher ballot is promised there, or the entry is
    there. -/
theorem installsMarked_iff (r : Replica) (entry : PxLogEntry) :
    r.InstallsMarked entry ↔ r.learner.isChosen entry.slot = true ∨
      r.acceptor.acceptedAt entry.slot = some entry ∨
      ∀ p ∈ r.acceptor.promisedAt entry.slot, p ≤ entry.ballot := by
  have hinstalls : r.InstallsMarked entry ↔ (r.learner.isChosen entry.slot = false →
      (r.receiveFetchGapReply entry).1.acceptor.acceptedAt entry.slot = some entry) := by
    have hmarked : (r.receiveFetchGapReply entry).1.learner.isChosen entry.slot = true :=
      isChosen_receiveFetchGapReply
    constructor
    · intro h hnew
      exact (h hmarked hnew).1
    · intro h _ hnew
      refine ⟨h hnew, fun ok => ?_⟩
      rw [applySlot, if_pos, h hnew]
      simp [takenAsChosen, hmarked]
  rw [hinstalls, acceptedAt_receiveFetchGapReply]
  cases r.learner.isChosen entry.slot with
  | true => exact iff_of_true nofun (.inl rfl)
  | false =>
    by_cases hpromised : ∀ p ∈ r.acceptor.promisedAt entry.slot, p ≤ entry.ballot
    · rw [if_pos hpromised]
      exact iff_of_true (fun _ => rfl) (.inr (.inr hpromised))
    · rw [if_neg hpromised]
      constructor
      · intro h
        exact .inr (.inl (h rfl))
      · rintro (h | h | h)
        · cases h
        · exact fun _ => h
        · exact absurd h hpromised

/-- A replica that promised `(2, 3)` gets the entry of `(1, 1)`: the frontier moves, nothing is
    accepted. -/
theorem marked_not_installed : ∃ (r : Replica) (entry : PxLogEntry),
    r.learner.contiguousChosen = 0 ∧ (r.receiveFetchGapReply entry).1.learner.contiguousChosen = 1 ∧
      entry.slot = 1 ∧ (r.receiveFetchGapReply entry).1.acceptor.acceptedAt 1 = none :=
  ⟨{ Replica.new with acceptor := (PxAcceptor.new.prepare 1 ⟨2, 3⟩).1 },
    ⟨1, ⟨1, 1⟩, 1, [65]⟩, by decide, by decide,
    by decide, by decide⟩

end Replica

end CrowDB
