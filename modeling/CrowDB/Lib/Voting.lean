/-
  Agreement of voting by ballots.

  A history of votes and proposals over any nodes, linearly ordered ballots and values.
  Ballots are of two kinds: at a slow ballot a value is proposed only if it is safe
  (`SafeAt`: a quorum has not voted below the ballot, or the value was proposed at a
  ballot at or above all their votes below it); at a fast ballot a value is proposed
  without that, but all fast ballots lie below the slow ones and carry the same value.
-/
import CrowDB.Lib.Quorum

namespace CrowDB.Lib

variable {N B V : Type*} [DecidableEq N] [LinearOrder B]

/-- Votes and proposals at ballots. -/
structure VotingHistory (N B V : Type*) where
  vote : N → B → V → Prop
  proposed : B → V → Prop

namespace VotingHistory

variable (h : VotingHistory N B V) (W : Finset N)

/-- A majority voted for the value at the ballot. -/
def ChosenAt (b : B) (v : V) : Prop := ∃ Q, IsQuorum W (majority W.card) Q ∧ ∀ n ∈ Q, h.vote n b v

/-- A majority has no votes below the ballot, or only votes at or below one at which the
    value was proposed. -/
def SafeAt (b : B) (v : V) : Prop := ∃ Q, IsQuorum W (majority W.card) Q ∧
    ((∀ n ∈ Q, ∀ b' v', h.vote n b' v' → b ≤ b') ∨
      ∃ b₀ < b, h.proposed b₀ v ∧ ∀ n ∈ Q, ∀ b' v', h.vote n b' v' → b' < b → b' ≤ b₀)

/-- What the proposers and voters keep to; `fast` are the ballots used without the
    safety condition. -/
structure Consistent (fast : B → Prop) : Prop where
  vote_proposed : ∀ {n b v}, h.vote n b v → h.proposed b v
  one_value : ∀ {b v v'}, h.proposed b v → h.proposed b v' → v = v'
  safe : ∀ {b v}, h.proposed b v → ¬ fast b → h.SafeAt W b v
  fast_agree : ∀ {b b' v v'}, fast b → fast b' → h.proposed b v → h.proposed b' v' → v = v'
  fast_lt : ∀ {b b'}, fast b → ¬ fast b' → b < b'

variable {h W} {fast : B → Prop} {b b' : B} {v v' : V}

theorem Consistent.proposed_of_chosen (hc : h.Consistent W fast) (hch : h.ChosenAt W b v) :
    h.proposed b v := by
  obtain ⟨Q, hQ, hv⟩ := hch
  obtain ⟨n, hn, -⟩ := hQ.majority_inter hQ
  exact hc.vote_proposed (hv n hn)

theorem Consistent.proposed_eq [WellFoundedLT B] (hc : h.Consistent W fast)
    (hch : h.ChosenAt W b v) (hp : h.proposed b' v') (hle : b ≤ b') : v' = v := by
  induction b' using WellFoundedLT.induction generalizing v' with
  | ind b' ih =>
    rcases hle.eq_or_lt with rfl | hlt
    · exact hc.one_value hp (hc.proposed_of_chosen hch)
    by_cases hf : fast b'
    · -- a ballot below a fast one is fast
      have hfb : fast b := by
        by_contra hfb
        exact absurd (hc.fast_lt hf hfb) hlt.not_gt
      exact hc.fast_agree hf hfb hp (hc.proposed_of_chosen hch)
    · obtain ⟨Q, hQ, hv⟩ := hch
      obtain ⟨Q', hQ', hsafe⟩ := hc.safe hp hf
      -- a node that voted for the chosen value is among those the proposer asked
      obtain ⟨n, hnQ, hnQ'⟩ := hQ.majority_inter hQ'
      rcases hsafe with hnone | ⟨b₀, hlt₀, hp₀, hmax⟩
      · exact absurd (hnone n hnQ' b v (hv n hnQ)) hlt.not_ge
      · exact ih b₀ hlt₀ hp₀ (hmax n hnQ' b v (hv n hnQ) hlt)

/-- **Agreement**: two chosen values are equal. -/
theorem Consistent.agreement [WellFoundedLT B] (hc : h.Consistent W fast)
    (hch : h.ChosenAt W b v) (hch' : h.ChosenAt W b' v') : v = v' := by
  rcases le_total b b' with hle | hle
  · exact (hc.proposed_eq hch (hc.proposed_of_chosen hch') hle).symm
  · exact hc.proposed_eq hch' (hc.proposed_of_chosen hch) hle

end VotingHistory

end CrowDB.Lib
