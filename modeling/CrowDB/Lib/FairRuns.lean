/-
  Infinite runs of executable transition systems.

  A claim that something happens in the end is a claim about the infinite runs in which the
  schedule is fair; what fairness means is said by each system.
-/
import CrowDB.Lib.Runs
import Mathlib.Order.Nat

namespace CrowDB.Lib

variable {σ ε : Type*} {step : σ → ε → Option σ} {ok : σ → ε → Prop} {s₀ : σ}

/-- An infinite run from `s₀` whose steps all meet `ok`. -/
structure InfRun (step : σ → ε → Option σ) (ok : σ → ε → Prop) (s₀ : σ) where
  state : ℕ → σ
  event : ℕ → ε
  starts : state 0 = s₀
  meets : ∀ n, ok (state n) (event n)
  moves : ∀ n, step (state n) (event n) = some (state (n + 1))

namespace InfRun

variable (r : InfRun step ok s₀)

theorem reach (n : ℕ) : Reach step ok s₀ (r.state n) := by
  induction n with
  | zero =>
    rw [r.starts]
    exact Reach.refl
  | succ n ih => exact ih.tail (r.meets n) (r.moves n)

theorem keeps {P : σ → Prop} {m : ℕ} (hstep : ∀ n, m ≤ n → P (r.state n) → P (r.state (n + 1)))
    (hm : P (r.state m)) {n : ℕ} (hle : m ≤ n) : P (r.state n) := by
  induction n, hle using Nat.le_induction with
  | base => exact hm
  | succ n hmn ih => exact hstep n hmn ih

/-- **The rank rule**: until `Q`, `P` is kept and the rank does not grow; `helpful` events lower it
    and never cease. -/
theorem eventually_of_rank {P Q : σ → Prop} (rank : σ → ℕ) (helpful : ε → Prop)
    (hstep : ∀ n, P (r.state n) → Q (r.state (n + 1)) ∨
      P (r.state (n + 1)) ∧ rank (r.state (n + 1)) ≤ rank (r.state n) ∧
        (helpful (r.event n) → rank (r.state (n + 1)) < rank (r.state n)))
    (hhelp : ∀ n, ∃ m, n ≤ m ∧ helpful (r.event m)) {n : ℕ} (hn : P (r.state n)) :
    ∃ m, n ≤ m ∧ Q (r.state m) := by
  -- induction on the rank: the next helpful event lowers it, if the goal is not reached before
  induction hk : rank (r.state n) using Nat.strong_induction_on generalizing n with
  | _ k ih =>
    by_contra hnot
    push Not at hnot
    have hkept : ∀ m, n ≤ m → P (r.state m) ∧ rank (r.state m) ≤ k := by
      intro m hle
      refine r.keeps (fun i hi hPi => ?_) (P := fun s => P s ∧ rank s ≤ k) ⟨hn, hk.le⟩ hle
      obtain hQ | ⟨hP, hrank, -⟩ := hstep i hPi.1
      · exact absurd hQ (hnot _ (Nat.le_succ_of_le hi))
      · exact ⟨hP, hrank.trans hPi.2⟩
    obtain ⟨m, hnm, hm⟩ := hhelp n
    obtain hQ | ⟨hP, -, hlt⟩ := hstep m (hkept m hnm).1
    · exact hnot _ (Nat.le_succ_of_le hnm) hQ
    obtain ⟨m', hle, hQ⟩ := ih _ ((hlt hm).trans_le (hkept m hnm).2) hP rfl
    exact hnot m' ((Nat.le_succ_of_le hnm).trans hle) hQ

end InfRun

end CrowDB.Lib
