/-
  The fast-path flag of the watch registry.

  The apply path reads `has_watchers` before it touches the trie.  `subscribe` stores the flag
  under the write lock; the removals compute it under a lock of their own and store it after the
  lock is released, and `clear` does so too.
-/
import CrowDB.Kv.WatchRegistry
import CrowDB.Lib.Runs

namespace CrowDB.Kv

open Lib List Option

variable {ω : Type}

/-- A removal that has left its first locked section. -/
inductive WatchTask where
  /-- About to enter `recompute_has_watchers`. -/
  | recompute
  /-- About to store the flag. -/
  | store (flag : Bool)
deriving DecidableEq

/-- The registry and the removals under way. -/
structure WatchRegistry (ω : Type) where
  trie : PrefixTrie ω
  hasWatchers : Bool
  nextId : ℕ
  /-- A `subscribe` holds the write lock, its watcher entered and the flag still to be stored. -/
  subscribing : Bool
  tasks : List WatchTask

/-- A locked section, or a store of the flag. -/
inductive WatchEvent (ω : Type) where
  | subscribe (pfx : Bytes) (target : ω)
  /-- `subscribe` stores the flag and releases the lock. -/
  | publish
  | unsubscribe (pfx : Bytes) (id : ℕ)
  | removeAll (ids : List ℕ)
  | clear
  | advance (i : ℕ)

namespace WatchRegistry

/-- No watcher. -/
def init : WatchRegistry ω := ⟨Trie.empty, false, 1, false, []⟩

variable (s : WatchRegistry ω)

/-- A locked section in which a removal changes the trie. -/
def remove (op : WatchOp ω) (task : Option WatchTask) : Option (WatchRegistry ω) :=
  if s.subscribing then none else some
    { s with trie := op.apply s.trie, tasks := s.tasks ++ task.toList }

/-- One step. -/
def step : WatchEvent ω → Option (WatchRegistry ω)
  | .subscribe pfx target =>
    if s.subscribing then none
    else some { s with
      trie := (WatchOp.subscribe s.nextId pfx target).apply s.trie
      nextId := s.nextId + 1
      subscribing := true }
  | .publish => if s.subscribing then some
      { s with hasWatchers := true, subscribing := false } else none
  | .unsubscribe pfx id =>
    -- a prefix without a node is not checked
    if s.trie.reaches pfx then
      let op : WatchOp ω := .unsubscribe pfx id
      s.remove op (if ((op.apply s.trie).itemsAt pfx).isEmpty then some .recompute else none)
    else if s.subscribing then none else some s
  | .removeAll ids =>
    if ids = [] then some s
    else
      let op : WatchOp ω := .removeAll ids
      s.remove op (if s.trie.count = (op.apply s.trie).count then none else some .recompute)
  | .clear => s.remove .clear (some (.store false))
  | .advance i =>
    match s.tasks[i]? with
    | none => none
    | some .recompute =>
      if s.subscribing then none else some { s with tasks := s.tasks.set i (.store !s.trie.isBare) }
    | some (.store flag) => some { s with hasWatchers := flag, tasks := s.tasks.eraseIdx i }

/-! ## Soundness -/

/-- No watcher anywhere. -/
def Unwatched (trie : PrefixTrie ω) : Prop := ∀ p, trie.itemsAt p = []

/-- Where the flag is `false` or about to be, there is no subscription, or one that is about to
    store it. -/
structure FlagSound (s : WatchRegistry ω) : Prop where
  pending : .store false ∈ s.tasks → Unwatched s.trie
  flag : s.hasWatchers = false → s.subscribing = true ∨ Unwatched s.trie

/-- No subscription is entered while a removal is about to store `false`. -/
def SubscribesAlone (e : WatchEvent ω) : Prop :=
  ∀ pfx target, e = .subscribe pfx target → .store false ∉ s.tasks

instance (s : WatchRegistry ω) (e : WatchEvent ω) : Decidable (SubscribesAlone s e) :=
  match e with
  | .subscribe pfx target =>
    if h : .store false ∈ s.tasks then isFalse fun hok =>
      hok pfx target rfl h else isTrue fun _ _ _ => h
  | .publish | .unsubscribe _ _ | .removeAll _ | .clear | .advance _ => isTrue nofun

variable {s s' : WatchRegistry ω} {e : WatchEvent ω} {op : WatchOp ω} {task : Option WatchTask}

/-- A removal. -/
def removes : WatchOp ω → Prop
  | .subscribe _ _ _ => False
  | .unsubscribe _ _ | .removeAll _ | .clear => True

theorem Unwatched.remove (h : Unwatched s.trie) (hop : removes op) : Unwatched (op.apply s.trie) := by
  intro p
  cases op with
  | subscribe => exact hop.elim
  | unsubscribe pfx =>
    rw [WatchOp.apply, Trie.itemsAt_filterAt, h pfx, h p]
    exact ite_self _
  | removeAll =>
    rw [WatchOp.apply]
    split
    · exact h p
    · rw [Trie.itemsAt_filterAll, h p]
      rfl
  | clear => exact Trie.itemsAt_empty p

theorem FlagSound.init : FlagSound (init : WatchRegistry ω) :=
  ⟨fun hmem => absurd hmem not_mem_nil, fun _ => .inr Trie.itemsAt_empty⟩

theorem FlagSound.remove (h : FlagSound s) (hs : s.remove op task = some s') (hop : removes op)
    (htask : task = some (.store false) → op = .clear) : FlagSound s' := by
  rw [WatchRegistry.remove] at hs
  split at hs
  · cases hs
  cases hs
  refine ⟨fun hmem => ?_, fun hflag => (h.flag hflag).imp_right fun hnone => hnone.remove hop⟩
  obtain hold | hnew := mem_append.1 hmem
  · exact (h.pending hold).remove hop
  · -- only `clear` is about to store `false` at once
    obtain rfl := htask (mem_toList.1 hnew)
    exact Trie.itemsAt_empty

theorem FlagSound.advance {i : ℕ} (h : FlagSound s) (hs : s.step (.advance i) = some s') :
    FlagSound s' := by
  simp only [step] at hs
  split at hs
  · cases hs
  · -- the flag is computed under the lock
    split at hs
    · cases hs
    · cases hs
      refine ⟨fun hmem => ?_, h.flag⟩
      obtain hold | hnew := mem_or_eq_of_mem_set hmem
      · exact h.pending hold
      · exact Trie.itemsAt_of_isBare (by simpa using hnew.symm)
  · next flag htask =>
    cases hs
    refine ⟨fun hmem => h.pending (mem_of_mem_eraseIdx hmem), fun hflag => .inr ?_⟩
    have hflag' : flag = false := hflag
    subst hflag'
    exact h.pending (mem_of_getElem? htask)

theorem FlagSound.step (h : FlagSound s) (hok : SubscribesAlone s e) (hs : s.step e = some s') :
    FlagSound s' := by
  cases e with
  | subscribe pfx target =>
    have halone := hok pfx target rfl
    simp only [WatchRegistry.step] at hs
    split at hs
    · cases hs
    · cases hs
      exact ⟨fun hmem => absurd hmem halone, fun _ => .inl rfl⟩
  | publish =>
    simp only [WatchRegistry.step] at hs
    split at hs
    · cases hs
      exact ⟨h.pending, nofun⟩
    · cases hs
  | unsubscribe =>
    simp only [WatchRegistry.step] at hs
    split at hs
    · refine h.remove hs trivial ?_
      split <;> nofun
    · split at hs
      · cases hs
      · exact some.inj hs ▸ h
  | removeAll =>
    simp only [WatchRegistry.step] at hs
    split at hs
    · exact some.inj hs ▸ h
    · refine h.remove hs trivial ?_
      split <;> nofun
  | clear => exact h.remove hs trivial fun _ => rfl
  | advance => exact h.advance hs

theorem emit_of_unwatched {trie : PrefixTrie ω} (h : Unwatched trie) (groupId slot : ℕ)
    (changed : List BatchOp) :
    emit trie groupId slot changed = [] := by
  obtain ⟨ps, -, -, hemit⟩ := emit_eq trie groupId slot changed
  rw [hemit, flatMap_eq_nil_iff]
  intro p _
  rw [h p]
  rfl

/-- When no subscription is being entered and the flag is `false`, there is none, and no frame is
    withheld. -/
theorem watchers_flag_sound (hreach : Reach step SubscribesAlone init s)
    (hlock : s.subscribing = false) (hflag : s.hasWatchers = false) :
    Unwatched s.trie ∧ ∀ groupId slot changed, emit s.trie groupId slot changed = [] := by
  have hsound : FlagSound s := hreach.invariant FlagSound.init fun hinv hok hs => hinv.step hok hs
  have hnone : Unwatched s.trie := (hsound.flag hflag).resolve_left (by rw [hlock]; decide)
  exact ⟨hnone, emit_of_unwatched hnone⟩

/-- A watcher that comes and goes: the flag is `false` again. -/
theorem watchers_flag_after_removal :
    ∃ s : WatchRegistry Unit, Reach step SubscribesAlone init s ∧ s.hasWatchers = false ∧
      emit s.trie 1 1 [⟨[1], .delete⟩] = [] := by
  exact Reach.exists_imp_of_run (fun s => s.subscribing = false ∧ s.hasWatchers = false)
    [.subscribe [1] (), .publish, .removeAll [1], .advance 0, .advance 0]
      (by decide +kernel) fun s hreach ⟨hlock, hflag⟩ =>
      ⟨hflag, (watchers_flag_sound hreach hlock hflag).2 1 1 _⟩

/-- A watcher enters between the locked section of `clear` and its store. -/
theorem watchers_flag_stale :
    ∃ s : WatchRegistry Unit, Reach step anyStep init s ∧ s.tasks = [] ∧ s.subscribing = false ∧
      s.hasWatchers = false ∧ s.trie.itemsAt [1] = [(1, ())] := by
  exact Reach.exists_of_run [.clear, .subscribe [1] (), .publish, .advance 0] (by decide +kernel)

end WatchRegistry

end CrowDB.Kv
