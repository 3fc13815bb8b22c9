/-
  Lists that get one more element or lose one, lists with an element exchanged, and lists of lists
  that a list is sorted into.
-/
import Mathlib.Data.List.Perm.Basic

namespace CrowDB.Lib

open List

variable {α β : Type*} {l : List α}

theorem forall_mem_concat {P : α → Prop} {a : α} (hl : ∀ x ∈ l, P x) (ha : P a) :
    ∀ x ∈ l ++ [a], P x :=
  forall_mem_append.2 ⟨hl, forall_mem_singleton.2 ha⟩

theorem nodup_map_concat {f : α → β} {a : α} (h : (l.map f).Nodup) (ha : f a ∉ l.map f) :
    ((l ++ [a]).map f).Nodup := by
  rw [map_append]
  exact (perm_append_singleton _ _).nodup_iff.mpr (nodup_cons.mpr ⟨ha, h⟩)

section Exchange

variable {i : ℕ} {a b x : α} {f : α → β}

theorem forall_mem_set {P : α → Prop} (hl : ∀ x ∈ l, P x) (ha : P a) : ∀ x ∈ l.set i a, P x := by
  intro x hx
  rcases mem_or_eq_of_mem_set hx with hx | rfl
  · exact hl x hx
  · exact ha

theorem map_set_of_eq (ha : l[i]? = some a) (hf : f b = f a) : (l.set i b).map f = l.map f := by
  obtain ⟨hi, rfl⟩ := List.getElem?_eq_some_iff.mp ha
  have hi' : i < (l.map f).length := by rwa [List.length_map]
  rw [List.map_set, hf, ← List.getElem_map f (h := hi'), List.set_getElem_self]

theorem nodup_map_set (ha : l[i]? = some a) (hf : f b = f a) (h : (l.map f).Nodup) :
    ((l.set i b).map f).Nodup := by
  rwa [map_set_of_eq ha hf]

theorem mem_set_or_eq (hb : l[i]? = some b) (ha : a ∈ l) : a = b ∨ a ∈ l.set i x := by
  obtain ⟨j, hj⟩ := mem_iff_getElem?.mp ha
  by_cases hij : i = j
  · subst hij
    exact .inl (Option.some.inj (hj.symm.trans hb))
  · exact .inr (mem_iff_getElem?.mpr ⟨j, by rw [getElem?_set_ne hij, hj]⟩)

theorem mem_eraseIdx_or_eq (hb : l[i]? = some b) (ha : a ∈ l) : a = b ∨ a ∈ l.eraseIdx i := by
  obtain ⟨j, hj⟩ := mem_iff_getElem?.mp ha
  by_cases hij : j = i
  · subst hij
    exact .inl (Option.some.inj (hj.symm.trans hb))
  · exact .inr (mem_eraseIdx_iff_getElem?.mpr ⟨j, hij, hj⟩)

theorem ne_of_mem_eraseIdx (h : (l.map f).Nodup) (ha : l[i]? = some a) (hb : b ∈ l.eraseIdx i) :
    f b ≠ f a := by
  obtain ⟨j, hij, hj⟩ := mem_eraseIdx_iff_getElem?.mp hb
  intro heq
  have hlt : j < (l.map f).length := by
    rw [length_map]
    exact (List.getElem?_eq_some_iff.mp hj).1
  refine hij ((getElem?_inj hlt h).mp ?_)
  rw [getElem?_map, getElem?_map, hj, ha, Option.map_some, Option.map_some, heq]

end Exchange

theorem flatMap_set_perm {i : ℕ} {x : α} (h : l[i]? = some x) (f : α → List β) :
    ∃ rest, (l.flatMap f).Perm (f x ++ rest) ∧ ∀ y, ((l.set i y).flatMap f).Perm (f y ++ rest) := by
  obtain ⟨hlt, rfl⟩ := List.getElem?_eq_some_iff.mp h
  refine ⟨(l.eraseIdx i).flatMap f, ?_, fun y => ?_⟩
  · exact (List.getElem_cons_eraseIdx_perm hlt).symm.flatMap_right _
  · exact (List.set_perm_cons_eraseIdx hlt y).flatMap_right _

theorem flatMap_filter_perm {κ : Type*} [DecidableEq κ] {keys : List κ}
    (hkeys : keys.Nodup) (f : α → κ)
    (h : ∀ x ∈ l, f x ∈ keys) : (keys.flatMap fun k => l.filter fun x => f x = k).Perm l := by
  induction keys generalizing l with
  | nil =>
    cases l with
    | nil => exact Perm.refl _
    | cons x => exact absurd (h x mem_cons_self) not_mem_nil
  | cons k keys ih =>
    obtain ⟨hk, hnodup⟩ := nodup_cons.1 hkeys
    -- the elements with another key are sorted by the other keys
    have hrest : (keys.flatMap fun k' => l.filter fun x => f x = k') =
        keys.flatMap fun k' => (l.filter fun x => !decide (f x = k)).filter fun x => f x = k' := by
      apply flatMap_congr
      intro k' hk'
      rw [filter_filter]
      apply filter_congr
      intro x _
      by_cases hx : f x = k'
      · have hne : f x ≠ k := fun heq => hk (heq ▸ hx ▸ hk')
        simp [hx, hx ▸ hne]
      · simp [hx]
    have hother : ∀ x ∈ l.filter (fun x => !decide (f x = k)), f x ∈ keys := by
      intro x hx
      obtain ⟨hmem, hne⟩ := mem_filter.1 hx
      exact (mem_cons.1 (h x hmem)).resolve_left (by simpa using hne)
    rw [flatMap_cons, hrest]
    exact ((ih hnodup hother).append_left _).trans (filter_append_perm _ l)

end CrowDB.Lib
