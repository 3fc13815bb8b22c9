/-
  Runs of executable transition systems.

  A system is a function `step : σ → ε → Option σ`: the state after an event, or `none` when the
  event is not enabled.  A run may be restricted by a side condition `ok` on the state before each
  event and the event itself; a claim about every run is one about `Reach step anyStep`.
-/
import Mathlib.Logic.Relation

namespace CrowDB.Lib

variable {σ ε : Type*}

/-- One step of the system under the side condition `ok`. -/
def StepRel (step : σ → ε → Option σ) (ok : σ → ε → Prop) (s s' : σ) : Prop :=
  ∃ e, ok s e ∧ step s e = some s'

/-- The states reached from `s₀` by steps that all meet `ok`. -/
def Reach (step : σ → ε → Option σ) (ok : σ → ε → Prop) (s₀ s : σ) : Prop :=
  Relation.ReflTransGen (StepRel step ok) s₀ s

/-- The empty side condition. -/
def anyStep (_ : σ) (_ : ε) : Prop := True

variable {step : σ → ε → Option σ} {ok ok' : σ → ε → Prop} {s₀ s s' : σ} {e : ε} {P Q : σ → Prop}

theorem Reach.refl : Reach step ok s₀ s₀ := Relation.ReflTransGen.refl

theorem Reach.tail (h : Reach step ok s₀ s) (hok : ok s e) (hs : step s e = some s') :
    Reach step ok s₀ s' :=
  Relation.ReflTransGen.tail h ⟨e, hok, hs⟩

/-- **The invariant rule**: what holds initially and is kept by every step that meets the side
    condition holds in every state reached. -/
theorem Reach.invariant (h₀ : P s₀) (hstep : ∀ {s e s'}, P s → ok s e → step s e = some s' → P s')
    (h : Reach step ok s₀ s) : P s := by
  induction h with
  | refl => exact h₀
  | tail _ hs ih =>
    obtain ⟨e, hok, he⟩ := hs
    exact hstep ih hok he

theorem Reach.invariant_of (hP : ∀ {s}, Reach step ok s₀ s → P s) (h₀ : Q s₀)
    (hstep : ∀ {s e s'}, P s → Q s → ok s e → step s e = some s' → Q s')
    (h : Reach step ok s₀ s) : Q s := by
  induction h with
  | refl => exact h₀
  | tail hr hs ih =>
    obtain ⟨e, hok, he⟩ := hs
    exact hstep (hP hr) ih hok he

theorem Reach.weaken (hw : ∀ s e, ok s e → ok' s e) (h : Reach step ok s₀ s) :
    Reach step ok' s₀ s := by
  induction h with
  | refl => exact Reach.refl
  | tail _ hs ih =>
    obtain ⟨e, hok, he⟩ := hs
    exact ih.tail (hw _ _ hok) he

theorem Reach.strengthen (hP : ∀ {s}, Reach step ok s₀ s → P s)
    (hw : ∀ s e, P s → ok s e → ok' s e) (h : Reach step ok s₀ s) : Reach step ok' s₀ s := by
  induction h with
  | refl => exact Reach.refl
  | tail hr hs ih =>
    obtain ⟨e, hok, he⟩ := hs
    exact ih.tail (hw _ _ (hP hr) hok) he

/-! ## Runs by computation -/

/-- The state after a list of events, `none` if one of them is not enabled. -/
def run (step : σ → ε → Option σ) : σ → List ε → Option σ
  | s, [] => some s
  | s, e :: es => (step s e).bind (run step · es)

/-- The events of a list all meet `ok`, each in the state in which it happens. -/
def runOk (step : σ → ε → Option σ) (ok : σ → ε → Prop) [∀ s e, Decidable (ok s e)] :
    σ → List ε → Bool
  | _, [] => true
  | s, e :: es => decide (ok s e) && (step s e).all (runOk step ok · es)

instance : ∀ (s : σ) (e : ε), Decidable (anyStep s e) := fun _ _ => isTrue trivial

theorem Reach.of_run [∀ s e, Decidable (ok s e)] : ∀ {es : List ε} {s₀ s : σ},
    runOk step ok s₀ es = true → run step s₀ es = some s → Reach step ok s₀ s
  | [], s₀, s, _, h => by
    simp only [run, Option.some.injEq] at h
    exact h ▸ Reach.refl
  | e :: es, s₀, s, hk, h => by
    obtain ⟨s₁, h₁, h₂⟩ := Option.bind_eq_some_iff.mp h
    simp only [runOk, h₁, Option.all_some, Bool.and_eq_true, decide_eq_true_eq] at hk
    exact Relation.ReflTransGen.head ⟨e, hk.1, h₁⟩ (Reach.of_run hk.2 h₂)

/-- A state with the property `P` is reached when evaluating a list of events
    that meet the side condition ends in one. -/
theorem Reach.exists_of_run [∀ s e, Decidable (ok s e)] [DecidablePred P] (es : List ε)
    (h : (runOk step ok s₀ es && (run step s₀ es).any (decide <| P ·)) = true) :
    ∃ s, Reach step ok s₀ s ∧ P s := by
  obtain ⟨hk, h⟩ := Bool.and_eq_true_iff.mp h
  cases hr : run step s₀ es with
  | none => simp [hr] at h
  | some s => exact ⟨s, Reach.of_run hk hr, by simpa [hr] using h⟩

theorem Reach.exists_imp_of_run [∀ s e,
  Decidable (ok s e)] (P : σ → Prop) [DecidablePred P] (es : List ε)
    (h : (runOk step ok s₀ es && (run step s₀ es).any (decide <| P ·)) = true)
    (himp : ∀ s, Reach step ok s₀ s → P s → Q s) : ∃ s, Reach step ok s₀ s ∧ Q s := by
  obtain ⟨s, hs, hp⟩ := Reach.exists_of_run es h
  exact ⟨s, hs, himp s hs hp⟩

theorem Reach.exists_and_of_run [∀ s e, Decidable (ok s e)] [DecidablePred P] (es : List ε)
    (h : (runOk step ok s₀ es && (run step s₀ es).any (decide <| P ·)) = true)
    (himp : ∀ s, Reach step ok s₀ s → P s → Q s) : ∃ s, Reach step ok s₀ s ∧ P s ∧ Q s :=
  Reach.exists_imp_of_run P es h fun s hs hp => ⟨hp, himp s hs hp⟩

end CrowDB.Lib
