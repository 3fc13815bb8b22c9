/-
  The lock map of the chunks (`ChunkLockMap` of `lifecycle.rs`).

  A mutex is created with the first call on its chunk, and `reap_idle` drops it when the map has the
  only reference to it. All calls on a chunk share one mutex, because a call keeps a reference until
  its guard is dropped.
-/
import CrowDB.Lib.Lists
import CrowDB.Lib.Runs
import Mathlib.Algebra.Order.BigOperators.Group.List
import Mathlib.Algebra.Order.Ring.Nat

namespace CrowDB

open Lib List

/-- `LockPolicy`. -/
inductive LockPolicy where
  | tryLock
  | wait
deriving DecidableEq

/-- How far a call of `acquire` is. -/
inductive LockPhase where
  | waiting
  /-- `acquire` has the lock and fetches the record -/
  | locked
  /-- the caller has the `ChunkGuard` -/
  | guarded
  | ended
deriving DecidableEq

/-- The call holds the mutex. -/
def LockPhase.holds : LockPhase → Bool
  | .locked | .guarded => true
  | .waiting | .ended => false

/-- What a call does next. -/
inductive LockAction where
  | lock
  /-- `LockBusy` or `LockTimeout` -/
  | giveUp
  | fetched (ok : Bool)
  | drop

/-- An `acquire` or an `acquire_for_create`. -/
structure LockCall (Id : Type*) where
  id : Id
  mutex : ℕ
  policy : LockPolicy
  forCreate : Bool
  phase : LockPhase := .waiting

variable {Id : Type*}

namespace LockCall

variable (c : LockCall Id)

/-- The references to the mutex: of the call's own variable, of a waiting future, of the guard. -/
def refs : ℕ :=
  match c.phase, c.policy with
  | .waiting, .tryLock | .guarded, _ => 1
  | .waiting, .wait | .locked, _ => 2
  | .ended, _ => 0

/-- The phase after an action. -/
def next (isLocked : Bool) : LockAction → Option LockPhase
  | .lock => if c.phase = .waiting ∧ isLocked = false then
      some (if c.forCreate then .guarded else .locked) else none
  | .giveUp => if c.phase = .waiting ∧ (c.policy = .wait ∨ isLocked = true) then some .ended else none
  | .fetched ok => if c.phase = .locked then some (if ok then .guarded else .ended) else none
  | .drop => if c.phase = .guarded then some .ended else none

variable {c}

theorem refs_eq_zero_iff : c.refs = 0 ↔ c.phase = .ended := by
  rw [refs]
  cases c.phase <;> cases c.policy <;> decide

theorem next_spec {isLocked : Bool} {a : LockAction} {phase : LockPhase}
    (h : c.next isLocked a = some phase) :
    c.refs ≠ 0 ∧ (phase.holds → c.phase.holds ∨ isLocked = false) := by
  have hrefs : c.phase ≠ .ended → c.refs ≠ 0 := mt refs_eq_zero_iff.mp
  cases a <;> obtain ⟨hc, ⟨⟩⟩ := Option.ite_none_right_eq_some.mp h
  case lock => exact ⟨hrefs (by rw [hc.1]; decide), fun _ => .inr hc.2⟩
  case giveUp => exact ⟨hrefs (by rw [hc.1]; decide), Bool.noConfusion⟩
  case fetched ok => exact ⟨hrefs (by rw [hc]; decide), fun _ => .inl (by rw [hc]; rfl)⟩
  case drop => exact ⟨hrefs (by rw [hc]; decide), Bool.noConfusion⟩

end LockCall

/-- The mutexes are numbered as they are created. -/
structure ChunkLockMap (Id : Type*) where
  locks : Id → Option ℕ := fun _ => none
  created : ℕ := 0
  calls : List (LockCall Id) := []

/-- A call begins, goes on, or idle locks are reaped. -/
inductive LockEvent (Id : Type*) where
  | acquire (id : Id) (policy : LockPolicy) (forCreate : Bool)
  | call (i : ℕ) (a : LockAction)
  | reapIdle

namespace ChunkLockMap

variable (s : ChunkLockMap Id)

/-- The calls that hold mutex `m`. -/
def holders (m : ℕ) : ℕ := s.calls.countP fun c => c.phase.holds && decide (c.mutex = m)

/-- `Arc::strong_count` of a mutex of the map. -/
def strongCount (m : ℕ) : ℕ := 1 + ((s.calls.filter fun c => c.mutex = m).map LockCall.refs).sum

/-- `reap_idle`. -/
def reapIdle : ChunkLockMap Id :=
  { s with locks := fun id => (s.locks id).filter fun m => s.strongCount m > 1 }

/-- `get_or_create_lock`. -/
def getOrCreateLock [DecidableEq Id] (s : ChunkLockMap Id) (id : Id) : ChunkLockMap Id × ℕ :=
  match s.locks id with
  | some m => (s, m)
  | none => ({ s with locks := Function.update s.locks id (some s.created), created := s.created +
      1 }, s.created)

/-- A mutex is locked as long as a call holds its guard. -/
def step [DecidableEq Id] (s : ChunkLockMap Id) : LockEvent Id → Option (ChunkLockMap Id)
  | .acquire id policy forCreate =>
    let (s, mutex) := s.getOrCreateLock id
    some { s with calls := s.calls ++ [{ id, mutex, policy, forCreate }] }
  | .call i a => s.calls[i]?.bind fun c => (c.next (0 < s.holders c.mutex) a).map fun phase =>
    { s with calls := s.calls.set i { c with phase } }
  | .reapIdle => some s.reapIdle

/-- The calls of a chunk use the mutex of its entry. -/
structure Inv : Prop where
  entry : ∀ c ∈ s.calls, c.refs ≠ 0 → s.locks c.id = some c.mutex
  inj : ∀ {id id' m}, s.locks id = some m → s.locks id' = some m → id = id'
  lt : ∀ {id m}, s.locks id = some m → m < s.created
  one : ∀ m, s.holders m ≤ 1

variable {s}

namespace Inv

variable (h : Inv s) {c : LockCall Id}
include h

theorem concat (hc : s.locks c.id = some c.mutex) (hphase : c.phase.holds = false) :
    Inv { s with calls := s.calls ++ [c] } :=
  ⟨forall_mem_concat h.entry fun _ => hc, h.inj, h.lt, fun m => by
    simpa [holders, countP_append, hphase] using h.one m⟩

theorem call {i : ℕ} {a : LockAction} {phase : LockPhase} (hc : s.calls[i]? = some c)
    (ha : c.next (0 < s.holders c.mutex) a = some phase) :
    Inv { s with calls := s.calls.set i { c with phase } } := by
  obtain ⟨hrefs, hholds⟩ := LockCall.next_spec ha
  obtain ⟨hlt, hget⟩ := List.getElem?_eq_some_iff.mp hc
  refine ⟨forall_mem_set h.entry fun _ => h.entry c (mem_of_getElem? hc) hrefs, h.inj,
    h.lt, fun m => ?_⟩
  have hone := h.one m
  rw [holders] at hone ⊢
  rw [countP_set hlt, hget]
  by_cases hnew : phase.holds ∧ c.mutex = m
  · obtain ⟨hp, rfl⟩ := hnew
    rcases hholds hp with hold | hfree
    · simp only [hp, hold, decide_true, Bool.and_self, if_true]
      omega
    · have hzero : s.holders c.mutex = 0 := Nat.eq_zero_of_not_pos (of_decide_eq_false hfree)
      rw [holders] at hzero
      simp [hzero, hp]
  · have hfalse : (phase.holds && decide (c.mutex = m)) = false := by simpa using hnew
    simp only [hfalse, Bool.false_eq_true, if_false]
    omega

theorem reapIdle : Inv s.reapIdle where
  entry c hc hrefs := by
    -- the call has a reference besides the map's
    have hle : c.refs ≤ ((s.calls.filter fun d => d.mutex = c.mutex).map LockCall.refs).sum :=
      single_le_sum (fun _ _ => Nat.zero_le _) _
        (mem_map_of_mem (mem_filter.mpr ⟨hc, decide_eq_true rfl⟩))
    have hcount : s.strongCount c.mutex > 1 := by
      rw [strongCount]
      omega
    exact Option.filter_eq_some_iff.mpr ⟨h.entry c hc hrefs, decide_eq_true hcount⟩
  inj ha hb := h.inj (Option.filter_eq_some_iff.mp ha).1 (Option.filter_eq_some_iff.mp hb).1
  lt ha := h.lt (Option.filter_eq_some_iff.mp ha).1
  one := h.one

theorem reapIdle_eq_none {id : Id} (hended : ∀ c ∈ s.calls, c.id = id → c.phase = .ended) :
    s.reapIdle.locks id = none := by
  refine Option.filter_eq_none_iff.mpr fun m hm => ?_
  have hsum : ((s.calls.filter fun c => c.mutex = m).map LockCall.refs).sum = 0 := by
    refine sum_eq_zero (forall_mem_map.mpr fun c hc => ?_)
    obtain ⟨hc, hcm⟩ := mem_filter.mp hc
    by_contra hrefs
    have hentry : s.locks c.id = some m := of_decide_eq_true hcm ▸ h.entry c hc hrefs
    exact hrefs (LockCall.refs_eq_zero_iff.mpr (hended c hc (h.inj hentry hm)))
  simp [strongCount, hsum]

variable [DecidableEq Id]

theorem getOrCreateLock (id : Id) :
    Inv (s.getOrCreateLock id).1 ∧ (s.getOrCreateLock id).1.locks id =
      some (s.getOrCreateLock id).2 := by
  rw [ChunkLockMap.getOrCreateLock]
  cases hm : s.locks id with
  | some => exact ⟨h, hm⟩
  | none =>
    refine ⟨⟨fun c hc hrefs => ?_, fun {a b m} ha hb => ?_, fun {a m} ha => ?_, h.one⟩,
      Function.update_self ..⟩
    · -- a call in flight is on another chunk, since this one has no entry
      have hne : c.id ≠ id := fun heq => by simpa [heq, hm] using h.entry c hc hrefs
      exact (Function.update_of_ne hne ..).trans (h.entry c hc hrefs)
    · have hlt := @h.lt
      have hinj := @h.inj a b m
      grind [Function.update_apply]
    · have hlt := @h.lt a m
      grind [Function.update_apply]

theorem step {e : LockEvent Id} {s' : ChunkLockMap Id} (hs : s.step e = some s') : Inv s' := by
  cases e with
  | acquire id =>
    obtain ⟨hinv, hentry⟩ := h.getOrCreateLock id
    cases hs
    exact hinv.concat hentry rfl
  | call =>
    obtain ⟨c, hc, hs⟩ := Option.bind_eq_some_iff.mp hs
    obtain ⟨phase, hphase, rfl⟩ := Option.map_eq_some_iff.mp hs
    exact h.call hc hphase
  | reapIdle =>
    cases hs
    exact h.reapIdle

/-- All holders of a chunk hold the mutex of its entry. -/
theorem countP_holds_le (id : Id) :
      s.calls.countP (fun c => c.phase.holds && decide (c.id = id)) ≤ 1 := by
  have hentry : ∀ c ∈ s.calls, (c.phase.holds && decide (c.id = id)) → c.phase.holds ∧
    s.locks id = some c.mutex := by
    intro c hc hp
    obtain ⟨hholds, rfl⟩ : c.phase.holds ∧ c.id = id := by simpa using hp
    refine ⟨hholds, h.entry c hc fun hrefs => ?_⟩
    rw [LockCall.refs_eq_zero_iff.mp hrefs] at hholds
    cases hholds
  cases hm : s.locks id with
  | none =>
    have hzero := countP_eq_zero.mpr fun c hc hp => by simpa [hm] using hentry c hc hp
    exact hzero.trans_le zero_le_one
  | some m =>
    refine (countP_mono_left fun c hc hp => ?_).trans (h.one m)
    obtain ⟨hholds, heq⟩ := hentry c hc hp
    rw [hm] at heq
    simp [hholds, Option.some.inj heq]

end Inv

/-- Every chunk has at most one guard, and an entry that no call uses goes with the next reaping. -/
theorem exclusive_of_reach [DecidableEq Id] (h : Reach step anyStep {} s) (id : Id) :
    s.calls.countP (fun c => c.phase.holds && decide (c.id = id)) ≤ 1 ∧
      ((∀ c ∈ s.calls, c.id = id → c.phase = .ended) → s.reapIdle.locks id = none) := by
  have hinv : Inv s := h.invariant ⟨by simp, by simp, by simp, fun _ => Nat.zero_le _⟩
    fun hinv _ hs => hinv.step hs
  exact ⟨hinv.countP_holds_le id, hinv.reapIdle_eq_none⟩

theorem exclusive_of_reach_busy : ∃ s, Reach step anyStep ({} : ChunkLockMap ℕ) s ∧
    (s.calls.map (·.phase) = [.ended, .ended, .guarded] ∧ s.locks 5 = some 0 ∧ s.locks 6 = some 1) ∧
      s.calls.countP (fun c => c.phase.holds && decide (c.id = 6)) ≤ 1 ∧
        ((∀ c ∈ s.calls, c.id = 5 → c.phase = .ended) → s.reapIdle.locks 5 = none) :=
  Reach.exists_and_of_run [.acquire 5 .wait true, .acquire 5 .tryLock false, .call 0 .lock,
    .call 1 .giveUp, .reapIdle,
    .call 0 .drop, .acquire 6 .wait false, .call 2 .lock, .call 2 (.fetched true)] (by decide +kernel)
    fun _ hs _ => ⟨(exclusive_of_reach hs 6).1, (exclusive_of_reach hs 5).2⟩

end ChunkLockMap

end CrowDB
