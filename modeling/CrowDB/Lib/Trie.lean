/-
  Tries: items stored under words over a finite alphabet.

  A node holds the items of the word that leads to it; the items under a word are read by
  walking down (`itemsAt`).
-/
import Mathlib.Data.FinEnum

namespace CrowDB.Lib

open List Function

/-- A node: its items, and a child for each letter. -/
inductive Trie (α β : Type) where
  | node (items : List β) (children : α → Option (Trie α β))

namespace Trie

variable {α β : Type}

/-- The items of the root. -/
def items : Trie α β → List β
  | .node items _ => items

/-- The child of a letter. -/
def child : Trie α β → α → Option (Trie α β)
  | .node _ children => children

/-- No items. -/
def empty : Trie α β := .node [] fun _ => none

/-- The items under a word. -/
def itemsAt : Trie α β → List α → List β
  | t, [] => t.items
  | t, a :: word => ((t.child a).map (·.itemsAt word)).getD []

/-- There is a node for a word. -/
def reaches : Trie α β → List α → Bool
  | _, [] => true
  | t, a :: word => ((t.child a).map (·.reaches word)).getD false

theorem itemsAt_nil (t : Trie α β) : t.itemsAt [] = t.items := rfl

theorem itemsAt_cons_of_none {t : Trie α β} {a : α} (h : t.child a = none) (word : List α) :
    t.itemsAt (a :: word) =
    [] := by
  rw [itemsAt, h]
  rfl

theorem itemsAt_cons_of_some {t c : Trie α β} {a : α} (h : t.child a = some c) (word : List α) :
    t.itemsAt (a :: word) = c.itemsAt word := by
  rw [itemsAt, h]
  rfl

@[simp] theorem itemsAt_empty (word : List α) : (empty : Trie α β).itemsAt word = [] := by
  cases word <;> rfl

section

variable [DecidableEq α]

/-- Store an item under a word, with the nodes that lead there. -/
def push (x : β) : List α → Trie α β → Trie α β
  | [], t => .node (t.items ++ [x]) t.child
  | a :: word, t => .node t.items
      (Function.update t.child a (some (push x word ((t.child a).getD empty))))

/-- Keep the items under a word that satisfy `p`. -/
def filterAt (p : β → Bool) : List α → Trie α β → Trie α β
  | [], t => .node (t.items.filter p) t.child
  | a :: word, t =>
    match t.child a with
    | none => t
    | some c => .node t.items (Function.update t.child a (some (filterAt p word c)))

theorem itemsAt_update (items : List β) (children : α → Option (Trie α β)) (a b : α) (c : Trie α β)
    (word : List α) :
    (node items (update children a (some c))).itemsAt (b :: word) =
      if b = a then c.itemsAt word else (node items children).itemsAt (b :: word) := by
  by_cases hba : b = a
  · subst hba
    have hchild : (node items (update children b (some c))).child b = some c := update_self _ _ _
    rw [if_pos rfl, itemsAt_cons_of_some hchild]
  · rw [if_neg hba, itemsAt, itemsAt, child, update_of_ne hba]
    rfl

theorem itemsAt_push (x : β) (word word' : List α) (t : Trie α β) :
    (t.push x word).itemsAt word' = if word' = word then t.itemsAt word ++
    [x] else t.itemsAt word' := by
  induction word generalizing word' t with
  | nil =>
    cases word' with
    | nil => rfl
    | cons => rfl
  | cons a word ih =>
    obtain ⟨items, children⟩ := t
    cases word' with
    | nil => rfl
    | cons b word' =>
      rw [push, itemsAt_update]
      by_cases hba : b = a
      · subst hba
        rw [if_pos rfl, ih]
        -- a missing child is an empty one
        have hchild : ∀ word, (((node items children).child b).getD empty).itemsAt word =
            (node items children).itemsAt (b :: word) := by
          intro word
          cases hc : (node items children).child b with
          | none => rw [itemsAt_cons_of_none hc, Option.getD_none, itemsAt_empty]
          | some => rw [itemsAt_cons_of_some hc, Option.getD_some]
        simp only [hchild, cons.injEq, true_and]
      · have hne : b :: word' ≠ a :: word := fun h => hba (cons.inj h).1
        rw [if_neg hba, if_neg hne]
        rfl

theorem itemsAt_filterAt (p : β → Bool) (word word' : List α) (t : Trie α β) :
    (t.filterAt p word).itemsAt word' = if word' = word then
      (t.itemsAt word).filter p else t.itemsAt word' := by
  induction word generalizing word' t with
  | nil =>
    cases word' with
    | nil => rfl
    | cons => rfl
  | cons a word ih =>
    obtain ⟨items, children⟩ := t
    cases hc : (node items children).child a with
    | none =>
      have hkept : (node items children).filterAt p (a :: word) =
        node items children := by rw [filterAt, hc]
      rw [hkept, itemsAt_cons_of_none hc]
      by_cases heq : word' = a :: word
      · rw [if_pos heq, heq, itemsAt_cons_of_none hc]
        rfl
      · rw [if_neg heq]
    | some c =>
      have hbelow : (node items children).filterAt p (a :: word) =
          node items (update children a (some (c.filterAt p word))) := by
        rw [filterAt, hc]
        rfl
      rw [hbelow]
      cases word' with
      | nil => rfl
      | cons b word' =>
        rw [itemsAt_update]
        by_cases hba : b = a
        · subst hba
          rw [if_pos rfl, ih, itemsAt_cons_of_some hc, itemsAt_cons_of_some hc]
          simp only [cons.injEq, true_and]
        · have hne : b :: word' ≠ a :: word := fun h => hba (cons.inj h).1
          rw [if_neg hba, if_neg hne]

end

section

variable [FinEnum α]

/-- No items and no children. -/
def isBare (t : Trie α β) : Bool :=
  t.items.isEmpty && (FinEnum.toList α).all fun a => (t.child a).isNone

theorem itemsAt_of_isBare {t : Trie α β} (h : t.isBare = true) (word : List α) :
    t.itemsAt word = [] := by
  rw [isBare, Bool.and_eq_true, all_eq_true] at h
  cases word with
  | nil => exact isEmpty_iff.1 h.1
  | cons a word => exact itemsAt_cons_of_none (Option.isNone_iff_eq_none.1
      (h.2 a (FinEnum.mem_toList a))) word

mutual

/-- Keep the items that satisfy `p`, and cut off what has become bare. -/
def filterAll (p : β → Bool) : Trie α β → Trie α β
  | .node items children => .node (items.filter p) fun a => filterChild p (children a)

/-- A child that becomes bare is cut off. -/
def filterChild (p : β → Bool) : Option (Trie α β) → Option (Trie α β)
  | none => none
  | some t => if (filterAll p t).isBare then none else some (filterAll p t)

end

theorem itemsAt_filterAll (p : β → Bool) (word : List α) (t : Trie α β) :
    (t.filterAll p).itemsAt word = (t.itemsAt word).filter p := by
  induction word generalizing t with
  | nil =>
    obtain ⟨items, children⟩ := t
    rw [filterAll]
    rfl
  | cons a word ih =>
    obtain ⟨items, children⟩ := t
    have hchild : ((node items children).filterAll p).child a =
      filterChild p ((node items children).child a) := by
      rw [filterAll]
      rfl
    cases hc : (node items children).child a with
    | none =>
      rw [hc, filterChild] at hchild
      rw [itemsAt_cons_of_none hchild, itemsAt_cons_of_none hc]
      rfl
    | some c =>
      rw [hc, filterChild] at hchild
      rw [itemsAt_cons_of_some hc, ← ih c]
      split at hchild
      · -- the child has been cut off: nothing is left in it
        rw [itemsAt_cons_of_none hchild, itemsAt_of_isBare ‹_›]
      · exact itemsAt_cons_of_some hchild word

mutual

/-- The number of items. -/
def count : Trie α β → ℕ
  | .node items children =>
      (FinEnum.toList α).foldl (fun n a => n + countChild (children a)) items.length

/-- That of a child. -/
def countChild : Option (Trie α β) → ℕ
  | none => 0
  | some t => t.count

end

end

end Trie

end CrowDB.Lib
