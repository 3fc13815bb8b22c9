/-
  What a fallible computation yields.

  `Yields ok P x` is a postcondition for `x : Except ε β`: a value that `x` returns has `P`, and `x`
  does return one when `ok` holds.  With `ok := False` it is partial correctness, with `ok := True`
  total correctness; one proof by the rules below gives both.
-/
import Mathlib.Tactic.Common

namespace CrowDB.Lib

universe u

variable {ε β : Type*} {σ τ : Type u} {ok : Prop}

/-- `x` returns a value if `ok`, and any such value has `P`. -/
def Yields (ok : Prop) (P : β → Prop) : Except ε β → Prop
  | .ok b => P b
  | .error _ => ¬ ok

theorem bind_eq_ok {x : Except ε σ} {f : σ → Except ε τ} {t : τ} :
    x.bind f = .ok t ↔ ∃ s, x = .ok s ∧ f s = .ok t := by
  cases x <;> simp [Except.bind]

namespace Yields

variable {P Q : β → Prop} {x : Except ε β}

theorem iff : Yields ok P x ↔ (∀ b, x = .ok b → P b) ∧ (ok → ∃ b, x = .ok b) := by
  cases x with
  | ok b =>
    refine ⟨fun h => ⟨?_, fun _ => ⟨b, rfl⟩⟩, fun h => h.1 b rfl⟩
    rintro _ ⟨⟩
    exact h
  | error =>
    refine ⟨fun h => ⟨nofun, fun hok => absurd hok h⟩, fun h hok => ?_⟩
    obtain ⟨b, hb⟩ := h.2 hok
    cases hb

theorem mono (h : Yields ok P x) (hPQ : ∀ b, P b → Q b) : Yields ok Q x := by
  cases x with
  | ok b => exact hPQ b h
  | error => exact h

theorem weaken {ok' : Prop} (h : Yields ok P x) (hok : ok' → ok) : Yields ok' P x := by
  cases x with
  | ok => exact h
  | error => exact fun hok' => h (hok hok')

theorem of_eq {b : β} (h : x = .ok b) (hb : P b) : Yields ok P x := by
  rw [h]
  exact hb

theorem trivial (x : Except ε β) : Yields False (fun _ => True) x := by
  cases x with
  | ok => exact True.intro
  | error => exact id

/-- A computation that is run. -/
theorem exists_of_any {p : β → Bool} (h : x.toOption.any p = true) : ∃ b, x = .ok b ∧ p b = true := by
  cases x with
  | ok b => exact ⟨b, rfl, h⟩
  | error => cases h

theorem bind {x : Except ε σ} {f : σ → Except ε τ} {P : σ → Prop} {Q : τ → Prop} (hx : Yields ok P x)
    (hf : ∀ s, P s → Yields ok Q (f s)) : Yields ok Q (x >>= f) := by
  cases x with
  | ok s => exact hf s hx
  | error => exact hx

/-- A loop over `bs`: what holds of the part that is done and of the state is kept by each element. -/
theorem foldlM {f : σ → β → Except ε σ} {I : List β → σ → Prop} {bs : List β} {s : σ} (hinit : I [] s)
    (hstep : ∀ done b rest s, bs = done ++ b :: rest → I done s →
      Yields ok (I (done ++ [b])) (f s b)) :
    Yields ok (I bs) (bs.foldlM f s) := by
  suffices hfrom : ∀ rest done s, bs = done ++ rest → I done s →
    Yields ok (I bs) (rest.foldlM f s) from
    hfrom bs [] s rfl hinit
  intro rest
  induction rest with
  | nil =>
    intro done s hbs hs
    rw [List.append_nil] at hbs
    rw [hbs]
    exact hs
  | cons b rest ih =>
    intro done s hbs hs
    rw [List.foldlM_cons]
    refine (hstep done b rest s hbs hs).bind fun s' hs' => ih (done ++ [b]) s' ?_ hs'
    rw [hbs, List.append_assoc, List.singleton_append]

end Yields

end CrowDB.Lib
