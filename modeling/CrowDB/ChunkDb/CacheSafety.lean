/-
  The chunk cache against the store.

  A call reads, checks and writes the record of its chunk under the lock of the chunk, and puts
  the record that it wrote into the cache.  Two things break this: a write that reports a
  failure although it took effect leaves the old record in the cache, and an allocation with a
  generated id fills the cache without the lock.
-/
import CrowDB.ChunkDb.Lifecycle

namespace CrowDB

open Lib Option Function

variable {Id Seg : Type*}

namespace LifecycleSystem

variable [DecidableEq Id] (s : LifecycleSystem Id Seg)

/-! ## The conditions -/

/-- No call names an id whose allocation has not returned, and a failed write that took effect finds
    no record cached. -/
def Settles : LifecycleEvent Id Seg → Prop
  | .call _ call => ∀ p ∈ s.ops.records, p.2.call.generated = true → p.2.id ≠ call.id
  | .op i .lost => ∀ op ∈ s.ops.get i, s.cache op.id = none
  | _ => True

instance (e : LifecycleEvent Id Seg) : Decidable (s.Settles e) :=
  match e with
  | .call _ _ => inferInstanceAs (Decidable (∀ _ ∈ _, _))
  | .op _ .lost => inferInstanceAs (Decidable (∀ _ ∈ _, _))
  | .op _ .ok | .op _ .fail | .op _ (.allocated _) | .op _ (.rolledBack _ _) | .op _ (.freed _)
  | .evict _ | .allocate _ => isTrue trivial

/-- A cached record is the stored one. -/
def Agrees (id : Id) : Prop := ∀ c, s.cache id = some c → s.store id = some c

/-- No call on the chunk is past the lock. -/
def Quiet (id : Id) : Prop := ∀ i op, s.ops.get i = some op → op.id = id → op.pc = .lock

end LifecycleSystem

/-! ## The invariant -/

/-- What a call may rely on: until it writes, store and cache agree, and what it has read is what
    is stored. -/
def LifecyclePc.Reads (s : LifecycleSystem Id Seg) (id : Id) : LifecyclePc Seg → Prop
  | .lock => True
  | .readCache | .readStore | .existing | .allocate _ _ _ | .free _ _ _ | .commitFirst _
      _ _ | .write _ _ _ =>
    s.Agrees id
  | .fillCache chunk | .check chunk => s.store id = some chunk ∧ s.Agrees id
  | .commit chunk _ | .refresh chunk => s.store id = some chunk

/-- What the cache may hold at each point of a call. -/
structure CacheInv (s : LifecycleSystem Id Seg) : Prop where
  apart : ∀ i j a b, s.ops.get i = some a → s.ops.get j = some b → a.id = b.id → a.pc ≠ .lock →
    b.pc ≠ .lock → i = j
  generated : ∀ i j a b, s.ops.get i = some a → s.ops.get j = some b → a.id = b.id →
    a.call.generated = true → i = j
  reads : ∀ i a, s.ops.get i = some a → a.pc.Reads s a.id
  quiet : ∀ id, s.Quiet id → s.Agrees id
  seen : ∀ i a, s.ops.get i = some a → a.id ∈ s.seen
  unseen : ∀ id, id ∉ s.seen → s.store id = none ∧ s.cache id = none

variable {owner : Seg → Id}

namespace CacheInv

variable {s s' : LifecycleSystem Id Seg} {pc : LifecyclePc Seg} {id : Id}

theorem init : CacheInv ({} : LifecycleSystem Id Seg) where
  apart := by simp [RecordStore.get, RecordStore.empty]
  generated := by simp [RecordStore.get, RecordStore.empty]
  reads := by simp [RecordStore.get, RecordStore.empty]
  quiet _ _ c h := by cases h
  seen := by simp [RecordStore.get, RecordStore.empty]
  unseen _ _ := ⟨rfl, rfl⟩

theorem reads_of_eq (hstore : s'.store id = s.store id)
    (hcache : s'.cache id = s.cache id) (h : pc.Reads s id) : pc.Reads s' id := by
  have hagrees : s.Agrees id → s'.Agrees id := by
    intro ha c hc
    rw [hstore]
    exact ha c (hcache ▸ hc)
  cases pc with
  | lock => trivial
  | readCache | readStore | existing | allocate | free | commitFirst | write => exact hagrees h
  | fillCache | check => exact ⟨hstore.trans h.1, hagrees h.2⟩
  | commit | refresh => exact hstore.trans h

variable {i : ℕ} {op : LifecycleOp Id Seg} {call : LifecycleCall Id Seg} {b a : LifecycleOp Id Seg}
  {new : Option (LifecycleOp Id Seg)} {j : ℕ}

theorem ops_cases (hops : ∀ j, s'.ops.get j = if j = i then new else s.ops.get j)
    (hb : s'.ops.get j = some b) :
    (j = i ∧ b ∈ new) ∨ (j ≠ i ∧ s.ops.get j = some b) := by
  rw [hops] at hb
  split at hb
  · exact .inl ⟨‹_›, hb⟩
  · exact .inr ⟨‹_›, hb⟩

variable [DecidableEq Id] (h : CacheInv s)
variable {next : Option (LifecyclePc Seg)} {s₁ : LifecycleSystem Id Seg}
include h

/-- Call `i` starts, moves on or returns; all else changes at its chunk only. -/
theorem update {x : Id}
    (hops : ∀ j, s'.ops.get j = if j = i then new else s.ops.get j)
    (hold : ∀ a, s.ops.get i = some a → a.id = x)
    (hseen : ∀ id, id ∈ s.seen → id ∈ s'.seen) (hx : x ∈ s'.seen)
    (hstore : ∀ id, id ≠ x → s'.store id = s.store id)
    (hcache : ∀ id, id ≠ x → s'.cache id = s.cache id)
    (hnew : ∀ op ∈ new, op.id = x ∧ op.pc.Reads s' x)
    (hothers : ∀ j a, j ≠ i → s.ops.get j = some a → a.id = x →
      a.pc.Reads s' x ∧ ∀ op ∈ new, op.call.generated = false ∧ a.call.generated = false ∧
        (op.pc = .lock ∨ a.pc = .lock))
    (hquiet : s'.Quiet x → s'.Agrees x) : CacheInv s' := by
  refine ⟨?_, ?_, ?_, ?_, ?_, ?_⟩
  · intro j k a b ha hb hid hpa hpb
    rcases ops_cases hops ha with ⟨hj, ha'⟩ | ⟨hj, ha'⟩ <;> rcases ops_cases hops hb with
      ⟨hk, hb'⟩ | ⟨hk, hb'⟩
    · rw [hj, hk]
    · obtain ⟨-, hall⟩ := hothers k b hk hb' (hid.symm.trans (hnew a ha').1)
      exact ((hall a ha').2.2.elim hpa hpb).elim
    · obtain ⟨-, hall⟩ := hothers j a hj ha' (hid.trans (hnew b hb').1)
      exact ((hall b hb').2.2.elim hpb hpa).elim
    · exact h.apart _ _ _ _ ha' hb' hid hpa hpb
  · intro j k a b ha hb hid hg
    rcases ops_cases hops ha with ⟨hj, ha'⟩ | ⟨hj, ha'⟩ <;> rcases ops_cases hops hb with
      ⟨hk, hb'⟩ | ⟨hk, hb'⟩
    · rw [hj, hk]
    · obtain ⟨-, hall⟩ := hothers k b hk hb' (hid.symm.trans (hnew a ha').1)
      rw [(hall a ha').1] at hg
      cases hg
    · obtain ⟨-, hall⟩ := hothers j a hj ha' (hid.trans (hnew b hb').1)
      rw [(hall b hb').2.1] at hg
      cases hg
    · exact h.generated _ _ _ _ ha' hb' hid hg
  · intro j a ha
    rcases ops_cases hops ha with ⟨_, ha'⟩ | ⟨hj, ha'⟩
    · obtain ⟨hid, hr⟩ := hnew a ha'
      rw [hid]
      exact hr
    · by_cases hid : a.id = x
      · rw [hid]
        exact (hothers j a hj ha' hid).1
      · exact reads_of_eq (hstore _ hid) (hcache _ hid) (h.reads j a ha')
  · intro id hq
    by_cases hid : id = x
    · subst hid
      exact hquiet hq
    · intro c hc
      rw [hstore id hid]
      refine h.quiet id (fun j a ha hida => ?_) c (hcache id hid ▸ hc)
      have hj : j ≠ i := by
        rintro rfl
        exact hid (hida.symm.trans (hold a ha))
      exact hq j a (by rw [hops, if_neg hj, ha]) hida
  · intro j a ha
    rcases ops_cases hops ha with ⟨_, ha'⟩ | ⟨_, ha'⟩
    · rw [(hnew a ha').1]
      exact hx
    · exact hseen _ (h.seen j a ha')
  · intro id hid
    have hne : id ≠ x := by
      rintro rfl
      exact hid hx
    rw [hstore id hne, hcache id hne]
    exact h.unseen id fun hmem => hid (hseen id hmem)

omit [DecidableEq Id] in
theorem others (hop : s.ops.get i = some op)
    (hpc : op.pc ≠ .lock) (hj : j ≠ i) (ha : s.ops.get j = some a) (hid : a.id = op.id) :
    a.pc = .lock := by
  by_contra hne
  exact hj (h.apart _ _ _ _ ha hop hid hne hpc)

omit [DecidableEq Id] in
theorem not_generated (ha : s.ops.get i = some a)
    (hb : s.ops.get j = some b) (hne : i ≠ j) (hid : a.id = b.id) : a.call.generated = false := by
  by_contra hg
  exact hne (h.generated _ _ _ _ ha hb hid (by simpa using hg))

theorem of_step (hop : s.ops.get i = some op) (hops : s₁.ops = s.ops) (hseen : s₁.seen = s.seen)
    (hstore : ∀ id, id ≠ op.id → s₁.store id = s.store id)
    (hcache : ∀ id, id ≠ op.id → s₁.cache id = s.cache id)
    (hnext : ∀ pc ∈ next, pc.Reads s₁ op.id)
    (hothers : ∀ j a, j ≠ i → s.ops.get j = some a → a.id = op.id →
      a.pc.Reads s₁ op.id ∧ ∀ pc ∈ next, a.pc = .lock)
    (hquiet : (s₁.move i op next).Quiet op.id → s₁.Agrees op.id) : CacheInv (s₁.move i op next) := by
  have hreads : ∀ {pc : LifecyclePc Seg}, pc.Reads s₁ op.id → pc.Reads (s₁.move i op next) op.id :=
    reads_of_eq (by rw [LifecycleSystem.move_store]) (by rw [LifecycleSystem.move_cache])
  refine h.update (x := op.id) (fun j => by rw [LifecycleSystem.move_get, hops]) ?_ ?_ ?_
    ?_ ?_ ?_ ?_ ?_
  · intro a ha
    cases hop.symm.trans ha
    rfl
  · intro id hid
    rwa [LifecycleSystem.move_seen, hseen]
  · rw [LifecycleSystem.move_seen, hseen]
    exact h.seen i op hop
  · intro id hid
    rw [LifecycleSystem.move_store, hstore id hid]
  · intro id hid
    rw [LifecycleSystem.move_cache, hcache id hid]
  · intro op' hop'
    obtain ⟨pc, hmem, rfl⟩ := map_eq_some_iff.mp hop'
    exact ⟨rfl, hreads (hnext pc hmem)⟩
  · intro j a hj ha hid
    obtain ⟨hr, hlock⟩ := hothers j a hj ha hid
    refine ⟨hreads hr, fun op' hop' => ?_⟩
    obtain ⟨pc, hmem, rfl⟩ := map_eq_some_iff.mp hop'
    have hgen := h.not_generated hop ha hj.symm hid.symm
    exact ⟨hgen, h.not_generated ha hop hj hid, .inr (hlock pc hmem)⟩
  · intro hq c hc
    rw [LifecycleSystem.move_store]
    rw [LifecycleSystem.move_cache] at hc
    exact hquiet hq c hc

/-- **A call past the lock** moves on or returns. -/
theorem of_move (hop : s.ops.get i = some op) (hpc : op.pc ≠ .lock) (hops : s₁.ops = s.ops)
    (hseen : s₁.seen = s.seen)
    (hstore : ∀ id, id ≠ op.id → s₁.store id = s.store id)
    (hcache : ∀ id, id ≠ op.id → s₁.cache id = s.cache id)
    (hnext : ∀ pc ∈ next, pc ≠ .lock ∧ pc.Reads s₁ op.id) (hdone : next = none → s₁.Agrees op.id) :
    CacheInv (s₁.move i op next) := by
  refine h.of_step hop hops hseen hstore hcache (fun pc hmem => (hnext pc hmem).2) ?_ fun hq => ?_
  · intro j a hj ha hid
    have hlock := h.others hop hpc hj ha hid
    exact ⟨by rw [hlock]; trivial, fun _ _ => hlock⟩
  · refine hdone (eq_none_iff_forall_ne_some.mpr fun pc hmem => ?_)
    refine (hnext pc hmem).1 (hq i { op with pc := pc } ?_ rfl)
    rw [LifecycleSystem.move_get, if_pos rfl, hmem, map_some]

theorem of_waiting (hop : s.ops.get i = some op) (hpc : op.pc = .lock)
    (hnext : ∀ pc ∈ next, s.Quiet op.id ∧ (s.Agrees op.id → pc.Reads s op.id)) :
    CacheInv (s.move i op next) := by
  refine h.of_step hop rfl rfl (fun _ _ => rfl) (fun _ _ => rfl) (fun pc hmem => ?_) ?_ fun hq => ?_
  · exact (hnext pc hmem).2 (h.quiet op.id (hnext pc hmem).1)
  · exact fun j a _ ha hid => ⟨hid ▸ h.reads j a ha, fun pc hmem => (hnext pc hmem).1 j a ha hid⟩
  · refine h.quiet op.id fun j a ha hid => ?_
    by_cases hj : j = i
    · subst hj
      cases hop.symm.trans ha
      exact hpc
    · exact hq j a (by rw [LifecycleSystem.move_get, if_neg hj, ha]) hid

omit [DecidableEq Id] in
theorem quiet_of_free (hop : s.ops.get i = some op) (hpc : op.pc = .lock)
    (hfree : ∀ p ∈ s.ops.records, p.2.id = op.id → p.2.holdsLock = false) : s.Quiet op.id := by
  intro j a ha hid
  have hheld : a.holdsLock = false := hfree (j, a) (RecordStore.get_eq_some_iff.mp ha) hid
  by_cases hj : j = i
  · subst hj
    cases hop.symm.trans ha
    exact hpc
  · by_contra hne
    have hgen := h.not_generated ha hop hj hid
    unfold LifecycleOp.holdsLock at hheld
    split at hheld
    · exact hne ‹_›
    · simp [hgen] at hheld

omit [DecidableEq Id] h in
theorem locked_reads (hagrees : s.Agrees id) : call.locked.Reads s id := by
  cases call <;> exact hagrees

omit [DecidableEq Id] h in
theorem checked_reads {chunk : Chunk Seg} (hcheck : call.checked chunk = some pc)
    (hagrees : s.Agrees id) : pc ≠ .lock ∧ pc.Reads s id := by
  cases call with
  | allocateChunk => cases hcheck
  | appendChunk | sealChunk | deleteChunk | deleteChunkRange =>
    simp only [LifecycleCall.checked] at hcheck
    split at hcheck
    · cases hcheck
      exact ⟨by simp, hagrees⟩
    · cases hcheck
  | updateChunkStrip =>
    simp only [LifecycleCall.checked] at hcheck
    split at hcheck
    · obtain ⟨old, -, rfl⟩ := map_eq_some_iff.mp hcheck
      exact ⟨by simp, hagrees⟩
    · cases hcheck

variable [DecidableEq Seg]

/-- **A running call** keeps the invariant, whatever the outcome of its access. -/
theorem opStep (hop : s.ops.get i = some op) {outcome : AccessOutcome Seg}
    (hlost : outcome = .lost → s.cache op.id = none)
    (hs : s.opStep owner i op outcome = some s') : CacheInv s' := by
  obtain ⟨s₁, next, heffect, hops, hseen, rfl⟩ := LifecycleSystem.opStep_cases hs
  have hreads := h.reads i op hop
  cases heffect with
  | acquire hpc hfree =>
    refine h.of_waiting hop hpc ?_
    rintro _ ⟨⟩
    exact ⟨h.quiet_of_free hop hpc hfree, locked_reads⟩
  | timeout hpc => exact h.of_waiting hop hpc (by simp)
  | hit hpc hcache =>
    rw [hpc] at hreads
    refine h.of_move hop (by simp [hpc]) hops hseen (fun _ _ => rfl) (fun _ _ => rfl) ?_ (by simp)
    rintro _ ⟨⟩
    exact ⟨by simp, hreads _ hcache, hreads⟩
  | miss hpc | create hpc _ | built hpc | committedFirst hpc | allocated hpc _ _ | freed hpc _
  | committed hpc =>
    rw [hpc] at hreads
    refine h.of_move hop (by simp [hpc]) hops hseen (fun _ _ => rfl) (fun _ _ => rfl) ?_ (by simp)
    rintro _ ⟨⟩
    exact ⟨by simp, hreads⟩
  | found hpc hstore =>
    rw [hpc] at hreads
    refine h.of_move hop (by simp [hpc]) hops hseen (fun _ _ => rfl) (fun _ _ => rfl) ?_ (by simp)
    rintro _ ⟨⟩
    exact ⟨by simp, hstore, hreads⟩
  | unread hpc =>
    have hagrees : s.Agrees op.id := by rcases hpc with hpc | hpc <;> rwa [hpc] at hreads
    have hne : op.pc ≠ .lock := by rcases hpc with hpc | hpc <;> simp [hpc]
    exact h.of_move hop hne hops hseen (fun _ _ => rfl) (fun _ _ => rfl) (by simp) fun _ => hagrees
  | fill hpc =>
    rename_i chunk
    rw [hpc] at hreads
    refine h.of_move hop (by simp [hpc]) hops hseen (fun _ _ => rfl)
      (fun id hid => update_of_ne hid ..) ?_
      (by simp)
    rintro _ ⟨⟩
    refine ⟨by simp, hreads.1, fun c hc => ?_⟩
    rw [show (s.putCache op.id chunk).cache op.id = some chunk from update_self ..] at hc
    cases hc
    exact hreads.1
  | checked hpc hcheck =>
    rw [hpc] at hreads
    refine h.of_move hop (by simp [hpc]) hops hseen (fun _ _ => rfl) (fun _ _ => rfl) ?_ (by simp)
    rintro _ ⟨⟩
    exact checked_reads hcheck hreads.2
  | refused hpc =>
    rw [hpc] at hreads
    exact h.of_move hop (by simp [hpc]) hops hseen (fun _ _ => rfl) (fun _ _ => rfl)
      (by simp) fun _ => hreads.2
  | rolledBack hpc _ | unwritten hpc _ =>
    rw [hpc] at hreads
    exact h.of_move hop (by simp [hpc]) hops hseen (fun _ _ => rfl) (fun _ _ => rfl)
      (by simp) fun _ => hreads
  | written hpc =>
    refine h.of_move hop (by simp [hpc]) hops hseen (fun id hid => update_of_ne hid ..)
      (fun _ _ => rfl) ?_
      (by simp)
    rintro _ ⟨⟩
    exact ⟨by simp, update_self ..⟩
  | lost hpc ho =>
    refine h.of_move hop (by simp [hpc]) hops hseen (fun id hid => update_of_ne hid ..)
      (fun _ _ => rfl)
      (by simp) fun _ c hc => ?_
    rw [show (s.putStore op.id _).cache op.id = s.cache op.id from rfl, hlost ho] at hc
    cases hc
  | refreshed hpc =>
    rename_i chunk
    rw [hpc] at hreads
    refine h.of_move hop (by simp [hpc]) hops hseen (fun _ _ => rfl)
      (fun id hid => update_of_ne hid ..)
      (by simp) fun _ c hc => ?_
    rw [show (s.putCache op.id chunk).cache op.id = some chunk from update_self ..] at hc
    cases hc
    exact hreads

omit [DecidableEq Seg] in
theorem startCall (hset : ∀ p ∈ s.ops.records, p.2.call.generated = true → p.2.id ≠ call.id)
    (hs : s.startCall i call = some s') : CacheInv s' := by
  unfold LifecycleSystem.startCall at hs
  split at hs
  · cases hs
  · rename_i hguard
    cases hs
    rw [not_or] at hguard
    obtain ⟨hfree, hgen⟩ := hguard
    have hnone : s.ops.get i = none := by simpa using hfree
    have hnew : call.generated = true → call.id ∉ s.seen := fun hg hmem => hgen ⟨hg, hmem⟩
    refine h.update (x := call.id) (fun j => RecordStore.get_put j) ?_
      (fun id => List.mem_cons_of_mem _)
      List.mem_cons_self (fun _ _ => rfl) (fun _ _ => rfl) ?_ ?_ ?_
    · simp [hnone]
    · rintro _ ⟨⟩
      refine ⟨rfl, ?_⟩
      cases hg : call.generated with
      | true =>
        -- nothing is cached for an id that nobody has named
        have hcache := (h.unseen call.id (hnew hg)).2
        cases call with
        | allocateChunk =>
          cases hg
          intro c hc
          cases hcache.symm.trans hc
        | _ => cases hg
      | false =>
        cases call with
        | allocateChunk =>
          cases hg
          trivial
        | _ => trivial
    · intro j a _ ha hid
      refine ⟨reads_of_eq rfl rfl (hid ▸ h.reads j a ha), ?_⟩
      have hcall : call.generated = false := by
        by_contra hg
        exact hnew (by simpa using hg) (hid ▸ h.seen j a ha)
      rintro _ ⟨⟩
      refine ⟨hcall, ?_, .inl ?_⟩
      · by_contra hg
        exact hset (j, a) (RecordStore.get_eq_some_iff.mp ha) (by simpa using hg) hid
      · cases call with
        | allocateChunk =>
          cases hcall
          rfl
        | _ => rfl
    · intro hq
      refine h.quiet call.id fun j a ha hid => ?_
      have hj : j ≠ i := by
        rintro rfl
        cases hnone.symm.trans ha
      exact hq j a (by rw [RecordStore.get_put, if_neg hj, ha]) hid

omit [DecidableEq Seg] in
theorem evict (id : Id) : CacheInv { s with cache := Function.update s.cache id none } := by
  have hsub : ∀ {id' c}, Function.update s.cache id none id' = some c → s.cache id' = some c := by
    intro id' c hc
    by_cases heq : id' = id
    · subst heq
      rw [Function.update_self] at hc
      cases hc
    · rwa [Function.update_of_ne heq] at hc
  have hagrees : ∀ {id'}, s.Agrees id' →
      LifecycleSystem.Agrees { s with cache := Function.update s.cache id none } id' :=
        fun ha c hc => ha c (hsub hc)
  refine ⟨h.apart, h.generated, fun j a ha => ?_, fun id' hq => hagrees (h.quiet id' hq),
    h.seen, fun id' hid => ?_⟩
  · have hr := h.reads j a ha
    cases hpc : a.pc <;> rw [hpc] at hr
    case lock => trivial
    case fillCache | check => exact ⟨hr.1, hagrees hr.2⟩
    case commit | refresh => exact hr
    all_goals exact hagrees hr
  · refine ⟨(h.unseen id' hid).1, ?_⟩
    refine eq_none_iff_forall_ne_some.mpr fun c hc => ?_
    cases (h.unseen id' hid).2.symm.trans (hsub hc)

theorem step {e : LifecycleEvent Id Seg} (hset : s.Settles e) (hs : s.step owner e = some s') :
    CacheInv s' := by
  cases e with
  | call => exact h.startCall hset hs
  | op =>
    obtain ⟨op, hop, hs⟩ := bind_eq_some_iff.mp hs
    refine h.opStep hop ?_ hs
    rintro rfl
    exact hset op hop
  | evict id =>
    cases hs
    exact h.evict id
  | allocate =>
    simp only [LifecycleSystem.step] at hs
    split at hs
    · cases hs
      exact { h with reads := fun j a ha => reads_of_eq rfl rfl (h.reads j a ha) }
    · cases hs

end CacheInv

variable [DecidableEq Id] [DecidableEq Seg]

namespace LifecycleSystem

theorem cacheInv_of_reach {s : LifecycleSystem Id Seg} (h : Reach (step owner) Settles {} s) :
    CacheInv s :=
  h.invariant CacheInv.init fun hinv hok hs => hinv.step hok hs

/-- **The cache agrees with the store** where no call is past the lock, and calls check the stored
    record. -/
theorem cache_agrees_of_reach {owner : Seg → Id} {s : LifecycleSystem Id Seg}
    (h : Reach (step owner) Settles {} s) :
    (∀ id, s.Quiet id → ∀ c, s.cache id = some c → s.store id = some c) ∧
      ∀ i op c, s.ops.get i = some op → op.pc = .check c → s.store op.id = some c := by
  have hinv := cacheInv_of_reach h
  refine ⟨hinv.quiet, fun i op c hop hpc => ?_⟩
  have hreads := hinv.reads i op hop
  rw [hpc] at hreads
  exact hreads.1

/-- A seal whose write is lost finds the record evicted, so the next call reads that the chunk is
    sealed. -/
theorem cache_agrees_after_lost_seal : ∃ s :
    LifecycleSystem ℕ ℕ, Reach (step fun _ => 1) Settles {} s ∧
      (s.store 1).map Chunk.state = some .sealed ∧ s.cache 1 = s.store 1 ∧
      (∀ id, s.Quiet id → ∀ c, s.cache id = some c → s.store id = some c) := by
  exact Reach.exists_imp_of_run (fun s => (s.store 1).map Chunk.state = some .sealed ∧
    s.cache 1 = s.store 1)
    [.call 0 (.allocateChunk 1 true 1 5), .op 0 (.allocated ⟨0, 1, [10]⟩), .op 0 .ok, .op 0 .ok,
      .op 0 .ok, .op 0 .ok,
      .call 0 (.appendChunk 1 1), .call 1 (.sealChunk 1 7 9), .op 0 .ok, .op 0 .ok, .op 0 .ok,
      .op 0 (.allocated ⟨0, 1, [11]⟩), .op 0 .ok, .op 0 .ok, .op 0 .fail, .op 0 .ok, .op 1 .ok,
        .op 1 .ok, .op 1 .ok,
      .evict 1, .op 1 .lost, .call 0 (.appendChunk 1 1), .op 0 .ok, .op 0 .ok, .op 0 .ok,
        .op 0 .ok, .op 0 .ok] (by decide +kernel) fun s hs ⟨h1, h2⟩ => ⟨h1, h2,
        (cache_agrees_of_reach hs).1⟩

/-- The cache keeps an active record of a sealed chunk: after a seal whose write reported a failure,
    and after a generated-id allocation that fills the cache late. -/
theorem cache_outdated : (∃ s : LifecycleSystem ℕ ℕ, Reach (step fun _ => 1) anyStep {} s ∧
      s.ops.records.isEmpty ∧
      (s.store 1).map Chunk.state = some .sealed ∧ (s.cache 1).map Chunk.state = some .active) ∧
    ∃ s : LifecycleSystem ℕ ℕ, Reach (step fun _ => 1) anyStep {} s ∧ s.ops.records.isEmpty ∧
      (s.store 1).map Chunk.state = some .sealed ∧ (s.cache 1).map Chunk.state = some .active := by
  constructor
  · exact Reach.exists_of_run
      [.call 0 (.allocateChunk 1 false 0 5), .op 0 .ok, .op 0 .ok, .op 0 .ok, .op 0 .ok,
        .op 0 .ok, .op 0 .ok,
        .call 0 (.sealChunk 1 7 9), .op 0 .ok, .op 0 .ok, .op 0 .ok, .op 0 .lost] (by decide +kernel)
  · exact Reach.exists_of_run
      [.call 0 (.allocateChunk 1 true 0 5), .op 0 .ok, .op 0 .ok, .call 1 (.sealChunk 1 7 9),
        .op 1 .ok, .op 1 .ok,
        .op 1 .ok, .op 1 .ok, .op 1 .ok, .op 1 .ok, .op 1 .ok, .op 1 .ok, .op 0 .ok,
          .op 0 .ok] (by decide +kernel)

end LifecycleSystem

/-! ## The history of a record -/

/-- What a write may make of a stored record. -/
structure Chunk.Follows (old new : Chunk Seg) : Prop where
  live : old.state ≠ .deleted
  created : new.createTsMs = old.createTsMs
  kept : old.state = .sealed → (new.state = .sealed ∨ new.state = .deleted) ∧
    new.sealedLength = old.sealedLength ∧ new.sealedTsMs = old.sealedTsMs

/-- The record that a call is to write follows the stored one. -/
def LifecyclePc.Writes (stored : Option (Chunk Seg)) : LifecyclePc Seg → Prop
  | .allocate chunk _ _ | .free chunk _ _ | .commitFirst chunk _ _ | .write chunk _ _ =>
    ∀ old ∈ stored, old.Follows chunk
  | _ => True

theorem LifecycleCall.checked_writes {I S : Type*} {call : LifecycleCall I S} {chunk : Chunk S}
    {pc : LifecyclePc S}
    (h : call.checked chunk = some pc) : pc.Writes (some chunk) := by
  cases call <;> grind [checked, LifecyclePc.Writes, Chunk.Follows, ChunkState.canAppend,
    ChunkState.isLive,
    Chunk.withStrips]

namespace LifecycleSystem

/-- The records of `s` are still there, the same or moved on. -/
def Kept (s s' : LifecycleSystem Id Seg) : Prop :=
  ∀ id, ∀ old ∈ s.store id, ∃ new ∈ s'.store id, new = old ∨ old.Follows new

theorem Kept.refl {I S : Type*} {s : LifecycleSystem I S} : s.Kept s :=
  fun _ old hold => ⟨old, hold, .inl rfl⟩

/-- What running calls will write follows what is stored. -/
def Forward (s : LifecycleSystem Id Seg) : Prop :=
  ∀ i op, s.ops.get i = some op → op.pc.Writes (s.store op.id)

variable {s s' : LifecycleSystem Id Seg} {op : LifecycleOp Id Seg} {outcome : AccessOutcome Seg}
  {next : Option (LifecyclePc Seg)} {i : ℕ}

theorem writes_next (h : OpEffect owner s op outcome s' next) (hreads : op.pc.Reads s op.id)
    (hw : op.pc.Writes (s.store op.id)) : ∀ pc ∈ next, pc.Writes (s'.store op.id) := by
  cases h <;> rintro _ ⟨⟩
  case acquire => cases hcall : op.call <;> trivial
  case checked hpc hcheck =>
    rw [hpc] at hreads
    rw [hreads.1]
    exact LifecycleCall.checked_writes hcheck
  case create hnone =>
    rw [hnone]
    exact nofun
  case built hpc | freed hpc _ | committedFirst hpc => rwa [hpc] at hw
  case allocated hpc _ _ =>
    rw [hpc] at hw
    exact fun old hold => ⟨(hw old hold).live, (hw old hold).created, (hw old hold).kept⟩
  all_goals trivial

theorem Forward.opStep (h : s.Forward) (hinv : CacheInv s) (hop : s.ops.get i = some op)
    (hs : s.opStep owner i op outcome = some s') : s'.Forward ∧ s.Kept s' := by
  obtain ⟨s₁, next, heffect, hops, -, rfl⟩ := opStep_cases hs
  have hw := h i op hop
  have hnext := writes_next heffect (hinv.reads i op hop) hw
  have hstore : s₁.store = s.store ∨ ∃ new freed added, op.pc = .write new freed added ∧
      s₁.store = update s.store op.id (some new) := by
    cases heffect
    case written hpc | lost hpc _ => exact .inr ⟨_, _, _, hpc, rfl⟩
    all_goals exact .inl rfl
  unfold Forward Kept
  rw [move_store]
  refine ⟨fun j a ha => ?_, fun id old hold => ?_⟩
  · rw [move_get, hops] at ha
    split at ha
    · obtain ⟨pc, hmem, rfl⟩ := map_eq_some_iff.mp ha
      exact hnext pc hmem
    · obtain heq | ⟨_, _, _, hpc, heq⟩ := hstore <;> rw [heq]
      · exact h j a ha
      · by_cases hid : a.id = op.id
        · rw [hinv.others hop (by simp [hpc]) ‹_› ha hid]
          trivial
        · rw [update_of_ne hid]
          exact h j a ha
  · obtain heq | ⟨new, _, _, hpc, heq⟩ := hstore <;> rw [heq]
    · exact ⟨old, hold, .inl rfl⟩
    by_cases hid : id = op.id
    · subst hid
      rw [hpc] at hw
      exact ⟨new, update_self .., .inr (hw old hold)⟩
    · exact ⟨old, by rwa [update_of_ne hid], .inl rfl⟩

theorem Forward.step (h : s.Forward) (hinv : CacheInv s) {e : LifecycleEvent Id Seg}
    (hs : s.step owner e = some s') : s'.Forward ∧ s.Kept s' := by
  cases e with
  | op =>
    obtain ⟨op, hop, hs⟩ := bind_eq_some_iff.mp hs
    exact h.opStep hinv hop hs
  | evict =>
    cases hs
    exact ⟨h, .refl⟩
  | allocate =>
    obtain ⟨-, ⟨⟩⟩ := ite_none_right_eq_some.mp hs
    exact ⟨h, .refl⟩
  | call i call =>
    obtain ⟨hguard, ⟨⟩⟩ := ite_none_left_eq_some.mp hs
    refine ⟨fun j a ha => ?_, .refl⟩
    rw [RecordStore.get_put] at ha
    split at ha
    · cases ha
      -- only a generated id starts past the lock, and nothing is stored for it
      rcases call with ⟨id, _ | _⟩ | _ <;> try trivial
      rintro old hold
      cases (hinv.unseen id fun hmem => hguard (.inr ⟨rfl, hmem⟩)).1.symm.trans hold
    · exact h j a ha

theorem kept_of_reach (hinv : CacheInv s) (hf : s.Forward) (h : Reach (step owner) Settles s s') :
    CacheInv s' ∧ s'.Forward ∧ s.Kept s' := by
  refine h.invariant (P := fun x => CacheInv x ∧ x.Forward ∧ s.Kept x) ⟨hinv, hf, .refl⟩ ?_
  rintro x e x' ⟨hinv, hf, hkept⟩ hok hs
  obtain ⟨hf', hkept'⟩ := hf.step hinv hs
  refine ⟨hinv.step hok hs, hf', fun id old hold => ?_⟩
  obtain ⟨mid, hmid, hold⟩ := hkept id old hold
  obtain ⟨new, hnew, hmid⟩ := hkept' id mid hmid
  exact ⟨new, hnew, by grind [Chunk.Follows]⟩

/-- **A record only moves forward**: no run removes it or changes its creation time, what it was
    sealed with, or anything once it is deleted. -/
theorem record_kept_of_reach (h : Reach (step owner) Settles {} s)
    (h' : Reach (step owner) Settles s s') :
    s.Kept s' := by
  obtain ⟨hinv, hf, -⟩ := kept_of_reach CacheInv.init
    (by simp [Forward, RecordStore.get, RecordStore.empty]) h
  exact (kept_of_reach hinv hf h').2.2

/-- A sealed chunk is deleted. -/
theorem record_kept_after_delete : ∃ s s' : LifecycleSystem ℕ ℕ, Reach (step id) Settles {} s ∧
    Reach (step id) Settles s s' ∧ (∃ c ∈ s.store 1, c.state = .sealed) ∧
      (∃ c ∈ s'.store 1, c.state = .deleted) ∧
      s.Kept s' := by
  obtain ⟨s, h, hs, hstep⟩ : ∃ s : LifecycleSystem ℕ ℕ, Reach (step id) Settles {} s ∧
    (∃ c ∈ s.store 1, c.state = .sealed) ∧
      ((s.step id (.op 0 .ok)).bind (·.store 1)).map Chunk.state = some .deleted :=
    Reach.exists_of_run (.call 0 (.allocateChunk 1 true 0 5) :: .replicate 4 (.op 0 .ok) ++
      .call 0 (.sealChunk 1 7 9) ::
      .replicate 6 (.op 0 .ok) ++ .call 0 (.deleteChunk 1) :: .replicate 3 (.op 0 .ok) ++
        [.op 0 (.freed []), .op 0 .ok])
      (by decide +kernel)
  obtain ⟨c, hc, hd⟩ := map_eq_some_iff.mp hstep
  obtain ⟨s', hs', hc⟩ := bind_eq_some_iff.mp hc
  have h' : Reach (step id) Settles s s' := Reach.refl.tail (e := .op 0 .ok) trivial hs'
  exact ⟨s, s', h, h', hs, ⟨c, hc, hd⟩, record_kept_of_reach h h'⟩

end LifecycleSystem

end CrowDB
