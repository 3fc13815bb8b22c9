/-
  The watch registry of a group (`cluster/watch_registry.rs`).

  The watchers are kept in a trie under the bytes of their prefix.  A batch of changes walks each
  key through the trie and gathers, for every prefix on the way that has watchers, the keys and
  values; then each watcher of such a prefix is sent one frame.
-/
import CrowDB.Kv.Payload
import CrowDB.Lib.Lists
import CrowDB.Lib.Trie

namespace CrowDB.Kv

open Lib List Function

variable {ω : Type}

/-! ## The trie of watchers -/

/-- Watchers with the id and the push target of each. -/
abbrev PrefixTrie (ω : Type) := Trie UInt8 (ℕ × ω)

/-- The locked sections of the registry; an id is drawn before. -/
inductive WatchOp (ω : Type) where
  | subscribe (id : ℕ) (pfx : Bytes) (target : ω)
  | unsubscribe (pfx : Bytes) (id : ℕ)
  | removeAll (ids : List ℕ)
  | clear

/-- What a section does to the trie; `remove_all` of no ids does not take the lock. -/
def WatchOp.apply (trie : PrefixTrie ω) : WatchOp ω → PrefixTrie ω
  | .subscribe id pfx target => trie.push (id, target) pfx
  | .unsubscribe pfx id => trie.filterAt (fun w => w.1 ≠ id) pfx
  | .removeAll ids => if ids = [] then trie else trie.filterAll fun w => w.1 ∉ ids
  | .clear => Trie.empty

/-! ## Notification -/

/-- The keys and values gathered for each prefix. -/
abbrev PrefixMap := List (Bytes × List Bytes × List Bytes)

/-- `out.entry(prefix).or_default()`, and a key and a value pushed there. -/
def PrefixMap.push (pfx key value : Bytes) : PrefixMap → PrefixMap
  | [] => [(pfx, [key], [value])]
  | (p, keys, values) :: out =>
    if p = pfx then (p, keys ++ [key], values ++ [value]) :: out else
      (p, keys, values) :: PrefixMap.push pfx key value out

/-- The walk of `collect_matches` below a node; `done` are the bytes on the way to it. -/
def collectFrom (key value : Bytes) : PrefixTrie ω → (done rest : Bytes) → PrefixMap → PrefixMap
  | _, _, [], out => out
  | node, done, b :: rest, out =>
    match node.child b with
    | none => out
    | some child =>
      collectFrom key value child (done ++ [b]) rest
        (if child.items.isEmpty then out else out.push (done ++ [b]) key value)

/-- `collect_matches`. -/
def collectMatches (trie : PrefixTrie ω) (key value : Bytes) (out : PrefixMap) : PrefixMap :=
  collectFrom key value trie [] key (if trie.items.isEmpty then out else out.push [] key value)

/-- The frame a watcher is sent. -/
structure WatchNotify (ω : Type) where
  watcher : ℕ × ω
  groupId : ℕ
  slot : ℕ
  pfx : Bytes
  keys : List Bytes
  values : List Bytes

/-- `emit`: the frames, prefix by prefix. -/
def emit (trie : PrefixTrie ω) (groupId slot : ℕ) (changed : List BatchOp) : List (WatchNotify ω) :=
  let prefixMap := changed.foldl (fun out o => collectMatches trie o.key o.op.value out) []
  prefixMap.flatMap fun entry =>
    (trie.itemsAt entry.1).map fun watcher => ⟨watcher, groupId, slot, entry.1, entry.2.1, entry.2.2⟩

/-! ## What is gathered -/

/-- The prefixes of a key that have watchers, the shortest first. -/
def watchedInits (trie : PrefixTrie ω) (key : Bytes) : List Bytes :=
  key.inits.filter fun p => !(trie.itemsAt p).isEmpty

theorem collectFrom_eq (key value : Bytes) (node : PrefixTrie ω) (done rest : Bytes)
    (out : PrefixMap) :
    collectFrom key value node done rest
      (if node.items.isEmpty then out else out.push done key value) =
      ((watchedInits node rest).map (done ++ ·)).foldl
        (fun out p => PrefixMap.push p key value out) out := by
  induction rest generalizing node done out with
  | nil =>
    rw [collectFrom, watchedInits, inits, filter_cons, filter_nil, Trie.itemsAt_nil]
    by_cases hnone : node.items.isEmpty = true
    · simp [hnone]
    · simp [hnone]
  | cons b rest ih =>
    have hinits : watchedInits node (b :: rest) = (if node.items.isEmpty then [] else [[]]) ++
        (rest.inits.filter fun p => !(node.itemsAt (b :: p)).isEmpty).map (b :: ·) := by
      rw [watchedInits, inits_cons, filter_cons, filter_map, Trie.itemsAt_nil]
      by_cases hnone : node.items.isEmpty = true
      · simp [hnone, comp_def]
      · simp [hnone, comp_def]
    rw [hinits, map_append, foldl_append]
    -- the node itself first, then the walk below it
    have hself : ((if node.items.isEmpty then [] else [[]] : List Bytes).map (done ++ ·)).foldl
        (fun out p => PrefixMap.push p key value out) out =
        if node.items.isEmpty then out else out.push done key value := by
      split <;> simp
    rw [hself]
    generalize (if node.items.isEmpty then out else PrefixMap.push done key value out) = out
    rw [collectFrom]
    cases hchild : node.child b with
    | none => simp [Trie.itemsAt_cons_of_none hchild]
    | some =>
      simp only [Trie.itemsAt_cons_of_some hchild]
      rw [ih, watchedInits, map_map]
      simp [comp_def]

theorem collectMatches_eq (trie : PrefixTrie ω) (key value : Bytes) (out : PrefixMap) :
    collectMatches trie key value out =
      (watchedInits trie key).foldl (fun out p => PrefixMap.push p key value out) out := by
  rw [collectMatches, collectFrom_eq]
  simp

theorem nodup_watchedInits (trie : PrefixTrie ω) (key : Bytes) : (watchedInits trie key).Nodup := by
  apply Nodup.filter
  apply Nodup.of_map length
  have hlengths : key.inits.map length = range (key.length + 1) := by
    apply ext_getElem
    · simp
    · intro n hn _
      rw [length_map, length_inits] at hn
      simp
      omega
  rw [hlengths]
  exact nodup_range

theorem mem_watchedInits {trie : PrefixTrie ω} {key p : Bytes} :
    p ∈ watchedInits trie key ↔ trie.itemsAt p ≠ [] ∧ p <+: key := by
  simp [watchedInits, mem_filter, and_comm]

namespace PrefixMap

variable {p q key value : Bytes} {out : PrefixMap} {ps : List Bytes}

/-- What is gathered for a prefix. -/
def get (p : Bytes) : PrefixMap → List Bytes × List Bytes
  | [] => ([], [])
  | entry :: out => if entry.1 = p then entry.2 else get p out

/-- The prefixes gathered for. -/
def keys (out : PrefixMap) : List Bytes := out.map Prod.fst

theorem mem_keys_push : p ∈ keys (push q key value out) ↔ p = q ∨ p ∈ keys out := by
  induction out with
  | nil => simp [push, keys]
  | cons entry _ ih =>
    obtain ⟨r, ks, vs⟩ := entry
    rw [push]
    by_cases hr : r = q
    · subst hr
      simp [keys]
    · rw [if_neg hr]
      simp only [keys, map_cons, mem_cons] at ih ⊢
      rw [ih]
      exact or_left_comm

theorem nodup_push (h : (keys out).Nodup) : (keys (push q key value out)).Nodup := by
  induction out with
  | nil => exact nodup_singleton q
  | cons entry _ ih =>
    obtain ⟨r, ks, vs⟩ := entry
    obtain ⟨hr, hnodup⟩ := nodup_cons.1 h
    rw [push]
    by_cases hrq : r = q
    · rw [if_pos hrq]
      exact h
    · rw [if_neg hrq]
      refine nodup_cons.2 ⟨fun hmem => ?_, ih hnodup⟩
      exact (mem_keys_push.1 hmem).elim hrq hr

theorem get_push : get p (push q key value out) =
    if p = q then ((get p out).1 ++ [key], (get p out).2 ++ [value]) else get p out := by
  induction out with
  | nil =>
    by_cases hpq : p = q
    · subst hpq
      simp [push, get]
    · simp [push, get, hpq, Ne.symm hpq]
  | cons entry _ ih =>
    obtain ⟨r, ks, vs⟩ := entry
    rw [push]
    by_cases hr : r = q
    · subst hr
      by_cases hp : p = r
      · subst hp
        simp [get]
      · simp [get, hp, Ne.symm hp]
    · rw [if_neg hr, get, get, ih]
      by_cases hp : r = p
      · subst hp
        simp [hr]
      · simp [hp]

theorem eq_map_get (h : (keys out).Nodup) : out = (keys out).map fun p => (p, get p out) := by
  induction out with
  | nil => rfl
  | cons entry out ih =>
    obtain ⟨hentry, hnodup⟩ := nodup_cons.1 h
    have hrest : (keys out).map (fun p => (p, get p (entry :: out))) = (keys out).map fun p =>
      (p, get p out) := by
      apply map_congr_left
      intro p hp
      have hne : entry.1 ≠ p := fun heq => hentry (heq ▸ hp)
      rw [get, if_neg hne]
    have hkeys : keys (entry :: out) = entry.1 :: keys out := rfl
    rw [hkeys, map_cons, hrest, ← ih hnodup, get, if_pos rfl]

theorem mem_keys_foldl : p ∈ keys (ps.foldl (fun out p => push p key value out) out) ↔ p ∈ ps ∨
      p ∈ keys out := by
  induction ps generalizing out with
  | nil => simp
  | cons _ _ ih =>
    rw [foldl_cons, ih, mem_keys_push, mem_cons]
    exact or_left_comm.trans or_assoc.symm

theorem nodup_foldl (h : (keys out).Nodup) :
    (keys (ps.foldl (fun out p => push p key value out) out)).Nodup := by
  induction ps generalizing out with
  | nil => exact h
  | cons _ _ ih => exact ih (nodup_push h)

theorem get_foldl (hps : ps.Nodup) : get p (ps.foldl (fun out p => push p key value out) out) =
    if p ∈ ps then ((get p out).1 ++ [key], (get p out).2 ++ [value]) else get p out := by
  induction ps generalizing out with
  | nil => rfl
  | cons q _ ih =>
    obtain ⟨hq, hnodup⟩ := nodup_cons.1 hps
    rw [foldl_cons, ih hnodup, get_push]
    by_cases hpq : p = q
    · subst hpq
      simp [hq]
    · simp [hpq]

end PrefixMap

/-! ## What is sent -/

variable {trie : PrefixTrie ω} {changed : List BatchOp} {p : Bytes} {out : PrefixMap}

/-- Some changed key has the prefix. -/
def Touches (changed : List BatchOp) (p : Bytes) : Prop := ∃ o ∈ changed, p <+: o.key
deriving Decidable

/-- The keys of a batch that have a prefix, and their values. -/
def matching (changed : List BatchOp) (p : Bytes) : List Bytes × List Bytes :=
  ((changed.filter fun o => p <+: o.key).map (·.key),
    (changed.filter fun o => p <+: o.key).map (·.op.value))

/-- All changes of a batch. -/
def gatherAll (trie : PrefixTrie ω) (changed : List BatchOp) (out : PrefixMap) : PrefixMap :=
  changed.foldl (fun out o => collectMatches trie o.key o.op.value out) out

theorem gatherAll_cons (o : BatchOp) : gatherAll trie (o :: changed) out =
    gatherAll trie changed ((watchedInits trie o.key).foldl
      (fun out p => PrefixMap.push p o.key o.op.value out) out) := by
  rw [← collectMatches_eq]
  rfl

theorem touches_cons {o : BatchOp} : Touches (o :: changed) p ↔ p <+: o.key ∨ Touches changed p := by
  simp [Touches]

theorem nodup_gatherAll (h : (PrefixMap.keys out).Nodup) :
    (PrefixMap.keys (gatherAll trie changed out)).Nodup := by
  induction changed generalizing out with
  | nil => exact h
  | cons _ _ ih =>
    rw [gatherAll_cons]
    exact ih (PrefixMap.nodup_foldl h)

theorem mem_keys_gatherAll : p ∈ PrefixMap.keys (gatherAll trie changed out) ↔
    trie.itemsAt p ≠ [] ∧ Touches changed p ∨ p ∈ PrefixMap.keys out := by
  induction changed generalizing out with
  | nil => simp [gatherAll, Touches]
  | cons _ _ ih =>
    rw [gatherAll_cons, ih, PrefixMap.mem_keys_foldl, mem_watchedInits, touches_cons]
    tauto

theorem get_gatherAll (hp : trie.itemsAt p ≠ []) : PrefixMap.get p (gatherAll trie changed out) =
    ((PrefixMap.get p out).1 ++ (matching changed p).1, (PrefixMap.get p out).2 ++
      (matching changed p).2) := by
  induction changed generalizing out with
  | nil => simp [gatherAll, matching]
  | cons o _ ih =>
    rw [gatherAll_cons, ih, PrefixMap.get_foldl (nodup_watchedInits trie o.key)]
    by_cases hkey : p <+: o.key
    · rw [if_pos (mem_watchedInits.2 ⟨hp, hkey⟩)]
      simp [matching, hkey]
    · rw [if_neg fun hmem => hkey (mem_watchedInits.1 hmem).2]
      simp [matching, hkey]

/-- The frame of a watcher of a prefix. -/
def notifyOf (groupId slot : ℕ) (changed : List BatchOp) (p : Bytes) (watcher : ℕ × ω) :
    WatchNotify ω :=
  ⟨watcher, groupId, slot, p, (matching changed p).1, (matching changed p).2⟩

theorem emit_eq (trie : PrefixTrie ω) (groupId slot : ℕ) (changed : List BatchOp) :
    ∃ ps : List Bytes, ps.Nodup ∧ (∀ p, p ∈ ps ↔ trie.itemsAt p ≠ [] ∧ Touches changed p) ∧
      emit trie groupId slot changed = ps.flatMap fun p =>
        (trie.itemsAt p).map (notifyOf groupId slot changed p) := by
  have hnodup : (PrefixMap.keys (gatherAll trie changed [])).Nodup := nodup_gatherAll nodup_nil
  have hmem : ∀ p, p ∈ PrefixMap.keys (gatherAll trie changed []) ↔ trie.itemsAt p ≠ [] ∧
    Touches changed p := by
    intro p
    rw [mem_keys_gatherAll]
    exact or_iff_left not_mem_nil
  refine ⟨_, hnodup, hmem, ?_⟩
  have hmap := PrefixMap.eq_map_get hnodup
  have hemit : emit trie groupId slot changed = (gatherAll trie changed []).flatMap fun entry =>
      (trie.itemsAt entry.1).map fun watcher =>
        ⟨watcher, groupId, slot, entry.1, entry.2.1, entry.2.2⟩ := rfl
  rw [hemit]
  conv_lhs => rw [hmap]
  rw [flatMap_map]
  apply flatMap_congr
  intro p hp
  apply map_congr_left
  intro watcher _
  rw [get_gatherAll ((hmem p).1 hp).1]
  rfl

/-! ## Live subscriptions -/

/-- A watcher and its prefix. -/
structure Subscription (ω : Type) where
  id : ℕ
  pfx : Bytes
  target : ω

/-- What a section does to the subscriptions. -/
def WatchOp.live (subs : List (Subscription ω)) : WatchOp ω → List (Subscription ω)
  | .subscribe id pfx target => subs ++ [⟨id, pfx, target⟩]
  | .unsubscribe pfx id => subs.filter fun sub => ¬(sub.pfx = pfx ∧ sub.id = id)
  | .removeAll ids => subs.filter fun sub => sub.id ∉ ids
  | .clear => []

/-- The watchers of a prefix are its subscriptions, in the order in which they came. -/
def Registers (trie : PrefixTrie ω) (subs : List (Subscription ω)) : Prop :=
  ∀ p, trie.itemsAt p = (subs.filter fun sub => sub.pfx = p).map fun sub => (sub.id, sub.target)

theorem Registers.apply {subs : List (Subscription ω)} (h : Registers trie subs) (op : WatchOp ω) :
    Registers (op.apply trie) (op.live subs) := by
  intro p
  cases op with
  | subscribe _ pfx =>
    rw [WatchOp.apply, Trie.itemsAt_push, WatchOp.live, filter_append, map_append, ← h p]
    by_cases hp : p = pfx
    · subst hp
      simp
    · simp [hp, Ne.symm hp]
  | unsubscribe pfx =>
    rw [WatchOp.apply, Trie.itemsAt_filterAt, WatchOp.live, filter_filter]
    by_cases hp : p = pfx
    · subst hp
      rw [if_pos rfl, h p, filter_map, filter_filter]
      congr 1
      apply filter_congr
      intro sub _
      by_cases hsub : sub.pfx = p <;> simp [hsub]
    · rw [if_neg hp, h p]
      congr 1
      apply filter_congr
      intro sub _
      by_cases hsub : sub.pfx = p
      · simp [hsub, hp]
      · simp [hsub]
  | removeAll ids =>
    have hfilter : ∀ trie' : PrefixTrie ω, trie'.itemsAt p = (trie.itemsAt p).filter
      (fun w => w.1 ∉ ids) →
        trie'.itemsAt p = ((subs.filter fun sub => sub.id ∉ ids).filter fun sub => sub.pfx = p).map
          fun sub => (sub.id, sub.target) := by
      intro trie' heq
      rw [heq, h p, filter_map, filter_filter, filter_filter]
      congr 1
      apply filter_congr
      intro sub _
      simp [Bool.and_comm]
    rw [WatchOp.apply, WatchOp.live]
    split
    · next hids =>
      apply hfilter
      simp [hids]
    · exact hfilter _ (Trie.itemsAt_filterAll _ p trie)
  | clear => exact Trie.itemsAt_empty p

theorem registers_foldl (history : List (WatchOp ω)) :
    Registers (history.foldl WatchOp.apply Trie.empty) (history.foldl WatchOp.live []) := by
  induction history using reverseRecOn with
  | nil => exact Trie.itemsAt_empty
  | append_singleton _ op ih =>
    rw [foldl_append, foldl_append]
    exact ih.apply op

/-- **Watch routing**: one frame to every live subscription with a changed key of its prefix, with
    exactly those keys. -/
theorem emit_perm (history : List (WatchOp ω)) (groupId slot : ℕ) (changed : List BatchOp) :
    (emit (history.foldl WatchOp.apply Trie.empty) groupId slot changed).Perm
      (((history.foldl WatchOp.live []).filter fun sub => Touches changed sub.pfx).map fun sub =>
        ⟨(sub.id, sub.target), groupId, slot, sub.pfx,
          (changed.filter fun o => sub.pfx <+: o.key).map (·.key),
          (changed.filter fun o => sub.pfx <+: o.key).map (·.op.value)⟩) := by
  have hregisters := registers_foldl history
  generalize history.foldl WatchOp.apply Trie.empty = trie at hregisters ⊢
  generalize history.foldl WatchOp.live [] = subs at hregisters ⊢
  obtain ⟨ps, hnodup, hmem, hemit⟩ := emit_eq trie groupId slot changed
  -- the watchers of a prefix that is touched are the touched subscriptions there
  have hsubs : ∀ p ∈ ps, (trie.itemsAt p).map (notifyOf groupId slot changed p) =
      ((subs.filter fun sub => Touches changed sub.pfx).filter fun sub => sub.pfx = p).map fun sub =>
        notifyOf groupId slot changed sub.pfx (sub.id, sub.target) := by
    intro p hp
    rw [hregisters p, map_map, filter_filter]
    have htouched := ((hmem p).1 hp).2
    have hfilter : (subs.filter fun sub => decide (sub.pfx = p) && decide (Touches changed sub.pfx)) =
        subs.filter fun sub => sub.pfx = p := by
      apply filter_congr
      intro sub _
      by_cases hsub : sub.pfx = p
      · simp [hsub, htouched]
      · simp [hsub]
    rw [hfilter]
    apply map_congr_left
    intro sub hsub
    have hpfx : sub.pfx = p := by simpa using (mem_filter.1 hsub).2
    rw [comp_apply, hpfx]
  have hcovers : ∀ sub ∈ subs.filter (fun sub => Touches changed sub.pfx), sub.pfx ∈ ps := by
    intro sub hsub
    obtain ⟨hlive, htouched⟩ := mem_filter.1 hsub
    refine (hmem sub.pfx).2 ⟨?_, of_decide_eq_true htouched⟩
    rw [hregisters sub.pfx]
    exact ne_nil_of_mem (mem_map.2 ⟨sub, mem_filter.2 ⟨hlive, by simp⟩, rfl⟩)
  rw [hemit, flatMap_congr hsubs, ← map_flatMap]
  exact (flatMap_filter_perm hnodup Subscription.pfx hcovers).map _

end CrowDB.Kv
