/-
  Segments that a stored chunk lists against segments that diskdb has freed.

  A call that removes segments from a record frees them first and writes the record afterwards.
  In between the stored record lists freed segments, and it keeps them if the write fails.
-/
import CrowDB.Lib.Lists
import CrowDB.ChunkDb.CacheSafety

namespace CrowDB

open Lib List Option

variable {Id Seg : Type*} {s : LifecycleSystem Id Seg} {owner : Seg → Id}

/-! ## What a call holds -/

/-- The segments of the record that a call is going to write. -/
def LifecyclePc.pending : LifecyclePc Seg → List Seg
  | .allocate chunk _ _ | .free chunk _ _ | .commitFirst chunk _ _ | .write chunk _ _ =>
      chunk.segments
  | .lock | .readCache | .readStore | .fillCache _ | .check _ | .existing | .commit _
      _ | .refresh _ => []

/-- The segments that a call has freed, until it has written the record without them. -/
def LifecyclePc.freed : LifecyclePc Seg → List Seg
  | .commitFirst _ freed _ | .write _ freed _ => freed
  | _ => []

/-- The segments that a failed write leaves in the record although they are freed. -/
def LifecyclePc.writing : LifecyclePc Seg → List Seg
  | .write _ freed _ => freed
  | _ => []

/-- The record write is not done. -/
def LifecyclePc.unwritten : LifecyclePc Seg → Bool
  | .commit _ _ | .refresh _ => false
  | _ => true

/-- The segments of the strip that an update is given. -/
def LifecycleCall.newSegments : LifecycleCall Id Seg → List Seg
  | .updateChunkStrip _ _ strip => strip.segments
  | _ => []

namespace LifecycleSystem

/-- A call on the chunk has freed the segment and has still to write the record. -/
def Freeing (s : LifecycleSystem Id Seg) (id : Id) (g : Seg) : Prop :=
  ∃ i op, s.ops.get i = some op ∧ op.id = id ∧ g ∈ op.pc.freed

variable [DecidableEq Id] [DecidableEq Seg]

/-- An update's strip is allocated for the chunk and nobody else's; a record write behind a free
    does not fail. -/
def FreesSafely (owner : Seg → Id) (s : LifecycleSystem Id Seg) : LifecycleEvent Id Seg → Prop
  | .call _ call => call.newSegments.Nodup ∧ ∀ g ∈ call.newSegments, owner g = call.id ∧ g ∈ s.busy ∧
      (∀ c ∈ s.store call.id, g ∉ c.segments) ∧ ∀ p ∈ s.ops.records, g ∉ p.2.call.newSegments ∧
        g ∉ p.2.pc.pending
  | .op i .fail => ∀ op ∈ s.ops.get i, op.pc.writing = []
  | _ => True

instance (owner : Seg → Id) (s : LifecycleSystem Id Seg) (e : LifecycleEvent Id Seg) :
    Decidable (FreesSafely owner s e) :=
  match e with
  | .call _ _ => inferInstanceAs (Decidable (_ ∧ _))
  | .op _ .fail => inferInstanceAs (Decidable (∀ _ ∈ _, _))
  | .op _ .ok | .op _ .lost | .op _ (.allocated _) | .op _ (.rolledBack _ _) | .op _ (.freed _)
  | .evict _ | .allocate _ => isTrue trivial

end LifecycleSystem

/-! ## Strips -/

namespace Chunk

theorem filter_segments_perm (c : Chunk Seg) (p : ChunkStrip Seg → Bool) :
    ((c.strips.filter p).flatMap ChunkStrip.segments ++
      (c.strips.filter fun s => !p s).flatMap ChunkStrip.segments).Perm
      c.segments := by
  rw [← flatMap_append]
  exact (filter_append_perm p c.strips).flatMap_right _

end Chunk

/-! ## The invariant -/

/-- The segments that a call will write are its chunk's, allocated, and not among those it will
    free. -/
def LifecyclePc.Holds (owner : Seg → Id) (s : LifecycleSystem Id Seg) (id : Id) :
    LifecyclePc Seg → Prop
  | .allocate chunk _ _ | .commitFirst chunk _ _ | .write chunk _ _ =>
    chunk.state.isLive = true → chunk.segments.Nodup ∧ ∀ g ∈ chunk.segments, owner g = id ∧ g ∈ s.busy
  | .free chunk segments _ =>
    (chunk.state.isLive = true → chunk.segments.Nodup ∧
      ∀ g ∈ chunk.segments, owner g = id ∧ g ∈ s.busy ∧ g ∉ segments) ∧
    ∃ c, s.store id = some c ∧ c.state.isLive = true ∧ ∀ g ∈ segments, g ∈ c.segments
  | .lock | .readCache | .readStore | .fillCache _ | .check _ | .existing | .commit _
      _ | .refresh _ => True

/-- The strip that an update is given is still its own. -/
structure LifecycleOp.Claims (owner : Seg → Id) (s : LifecycleSystem Id Seg)
    (op : LifecycleOp Id Seg) : Prop where
  nodup : op.call.newSegments.Nodup
  owned : ∀ g ∈ op.call.newSegments, owner g = op.id
  busy : op.pc.unwritten = true → ∀ g ∈ op.call.newSegments, g ∈ s.busy
  unlisted : op.pc.unwritten = true → ∀ g ∈ op.call.newSegments, ∀ c, s.store op.id = some c →
    g ∉ c.segments

/-- Who holds a segment at each point of a call. -/
structure SegmentInv (owner : Seg → Id) (s : LifecycleSystem Id Seg) : Prop where
  disjoint : ∀ g ∈ s.freed, g ∉ s.busy
  stored : ∀ id c, s.store id = some c → c.state.isLive = true →
    c.segments.Nodup ∧ ∀ g ∈ c.segments, owner g = id ∧ (g ∈ s.busy ∨ s.Freeing id g)
  holds : ∀ i op, s.ops.get i = some op → op.pc.Holds owner s op.id
  claims : ∀ i op, s.ops.get i = some op → op.Claims owner s
  apart : ∀ i j a b, i ≠ j → s.ops.get i = some a → s.ops.get j = some b → a.pc.unwritten = true →
    ∀ g ∈ a.call.newSegments, g ∉ b.call.newSegments ∧ g ∉ b.pc.pending

namespace SegmentInv

variable {s' : LifecycleSystem Id Seg} {pc : LifecyclePc Seg} {id : Id}

theorem init : SegmentInv owner ({} : LifecycleSystem Id Seg) where
  disjoint := by simp
  stored := by simp
  holds := by simp [RecordStore.get, RecordStore.empty]
  claims := by simp [RecordStore.get, RecordStore.empty]
  apart := by simp [RecordStore.get, RecordStore.empty]

theorem holds_mono (hstore : s'.store id = s.store id)
    (hbusy : ∀ g, owner g = id → g ∈ s.busy → g ∈ s'.busy) (h : pc.Holds owner s id) :
    pc.Holds owner s' id := by
  cases pc with
  | allocate | commitFirst | write =>
    intro hlive
    obtain ⟨hnodup, hall⟩ := h hlive
    exact ⟨hnodup, fun g hg => ⟨(hall g hg).1, hbusy g (hall g hg).1 (hall g hg).2⟩⟩
  | free =>
    obtain ⟨h1, c, hc, h2⟩ := h
    refine ⟨fun hlive => ?_, c, hstore.trans hc, h2⟩
    obtain ⟨hnodup, hall⟩ := h1 hlive
    exact ⟨hnodup, fun g hg => ⟨(hall g hg).1, hbusy g (hall g hg).1 (hall g hg).2.1,
      (hall g hg).2.2⟩⟩
  | lock | readCache | readStore | fillCache | check | existing | commit | refresh => trivial

variable {op : LifecycleOp Id Seg} {chunk : Chunk Seg} {i : ℕ} {next : Option (LifecyclePc Seg)}
  {call : LifecycleCall Id Seg}

/-- What a call holds does not change when no segment of its chunk is freed and no record of its
    chunk is written. -/
theorem claims_mono (hun : pc.unwritten = true → op.pc.unwritten = true)
    (hstore : s'.store op.id = s.store op.id)
    (hbusy : op.pc.unwritten = true → ∀ g ∈ op.call.newSegments, g ∈ s.busy → g ∈ s'.busy)
    (h : op.Claims owner s) :
    LifecycleOp.Claims owner s' { op with pc := pc } where
  nodup := h.nodup
  owned := h.owned
  busy hpc g hg := hbusy (hun hpc) g hg (h.busy (hun hpc) g hg)
  unlisted hpc g hg c hc := h.unlisted (hun hpc) g hg c (hstore ▸ hc)

theorem checked_holds
    (hcheck : call.checked chunk = some pc) (hstore : s.store id = some chunk)
    (hlisted : chunk.state.isLive = true → chunk.segments.Nodup ∧
      ∀ g ∈ chunk.segments, owner g = id ∧ g ∈ s.busy)
    (hnodup : call.newSegments.Nodup) (hnew : ∀ g ∈ call.newSegments, owner g = id ∧ g ∈ s.busy ∧
      g ∉ chunk.segments) :
    pc.Holds owner s id ∧ chunk.state.isLive = true ∧ ∀ g ∈ pc.pending, g ∈ chunk.segments ∨
      g ∈ call.newSegments := by
  have hactive : chunk.state.canAppend = true → chunk.state.isLive = true := fun h =>
    decide_eq_true (.inl (of_decide_eq_true h))
  cases call with
  | allocateChunk => cases hcheck
  | appendChunk =>
    simp only [LifecycleCall.checked] at hcheck
    split at hcheck <;> cases hcheck
    rename_i hstate
    exact ⟨fun hlive => hlisted hlive, hactive hstate, fun g hg => .inl hg⟩
  | sealChunk =>
    simp only [LifecycleCall.checked] at hcheck
    split at hcheck <;> cases hcheck
    rename_i hstate
    exact ⟨fun _ => hlisted (hactive hstate), hactive hstate, fun g hg => .inl hg⟩
  | deleteChunk =>
    simp only [LifecycleCall.checked] at hcheck
    split at hcheck <;> cases hcheck
    rename_i hstate
    have hdeleted : ¬ (ChunkState.deleted.isLive = true) := by decide
    exact ⟨⟨fun hlive => absurd hlive hdeleted, chunk, hstore, hstate, fun g hg => hg⟩, hstate,
      fun g hg => .inl hg⟩
  | deleteChunkRange _ offset size =>
    simp only [LifecycleCall.checked] at hcheck
    split at hcheck <;> cases hcheck
    rename_i hstate
    have hlive := hactive hstate
    have hperm := chunk.filter_segments_perm (·.overlaps offset size)
    have hkept : ∀ g ∈ (chunk.strips.filter fun s => !s.overlaps offset size).flatMap
      ChunkStrip.segments,
        g ∈ chunk.segments := fun g hg => hperm.subset (mem_append_right _ hg)
    obtain ⟨hseg, hall⟩ := hlisted hlive
    obtain ⟨-, hkeptNodup, hapart⟩ := nodup_append.mp (hperm.nodup_iff.mpr hseg)
    refine ⟨⟨fun _ => ⟨hkeptNodup, fun g hg => ?_⟩, chunk, hstore, hlive, fun g hg => ?_⟩,
      hlive, fun g hg => ?_⟩
    · exact ⟨(hall g (hkept g hg)).1, (hall g (hkept g hg)).2, fun hg' => hapart g hg' g hg rfl⟩
    · exact hperm.subset (mem_append_left _ hg)
    · exact .inl (hkept g hg)
  | updateChunkStrip _ _ strip =>
    simp only [LifecycleCall.checked] at hcheck
    split at hcheck
    · rename_i hlive
      obtain ⟨old, hold, rfl⟩ := map_eq_some_iff.mp hcheck
      obtain ⟨rest, hperm, hset⟩ := flatMap_set_perm hold ChunkStrip.segments
      obtain ⟨hseg, hall⟩ := hlisted hlive
      obtain ⟨-, hrest, hapart⟩ := nodup_append.mp (hperm.nodup_iff.mp hseg)
      have hmem : ∀ g ∈ rest, g ∈ chunk.segments :=
        fun g hg => hperm.mem_iff.mpr (mem_append_right _ hg)
      have hmemOld : ∀ g ∈ old.segments, g ∈ chunk.segments := fun g hg =>
        hperm.mem_iff.mpr (mem_append_left _ hg)
      refine ⟨⟨fun _ => ⟨?_, fun g hg => ?_⟩, chunk, hstore, hlive, hmemOld⟩, hlive, fun g hg => ?_⟩
      · refine (hset strip).nodup_iff.mpr (nodup_append.mpr ⟨hnodup, hrest, ?_⟩)
        rintro g hg _ hg' rfl
        exact (hnew g hg).2.2 (hmem g hg')
      · rcases mem_append.mp ((hset strip).mem_iff.mp hg) with hg | hg
        · exact ⟨(hnew g hg).1, (hnew g hg).2.1, fun hg' => (hnew g hg).2.2 (hmemOld g hg')⟩
        · exact ⟨(hall g (hmem g hg)).1, (hall g (hmem g hg)).2, fun hg' => hapart g hg' g hg rfl⟩
      · rcases mem_append.mp ((hset strip).mem_iff.mp hg) with hg | hg
        · exact .inr hg
        · exact .inl (hmem g hg)
    · cases hcheck

theorem move_cases (hops : s'.ops = s.ops) {j : ℕ} {b : LifecycleOp Id Seg}
    (hb : (s'.move i op next).ops.get j = some b) :
    (j = i ∧ ∃ pc ∈ next, b = { op with pc := pc }) ∨ (j ≠ i ∧ s.ops.get j = some b) := by
  rw [LifecycleSystem.move_get, hops] at hb
  split at hb
  · obtain ⟨pc, hmem, rfl⟩ := map_eq_some_iff.mp hb
    exact .inl ⟨‹_›, pc, hmem, rfl⟩
  · exact .inr ⟨‹_›, hb⟩

theorem freeing_move (next : Option (LifecyclePc Seg)) (hops : s'.ops = s.ops)
    (hop : s.ops.get i = some op)
    {g : Seg} (h : s.Freeing id g) : (s'.move i op next).Freeing id g ∨
      (id = op.id ∧ g ∈ op.pc.freed) := by
  obtain ⟨j, a, ha, rfl, hg⟩ := h
  by_cases hj : j = i
  · subst hj
    cases hop.symm.trans ha
    exact .inr ⟨rfl, hg⟩
  · refine .inl ⟨j, a, ?_, rfl, hg⟩
    rw [LifecycleSystem.move_get, if_neg hj, hops, ha]

variable (h : SegmentInv owner s) {added freed : List Seg}
include h

/-- **A step that frees nothing and writes no record.** -/
theorem of_steady (hop : s.ops.get i = some op) {s₁ : LifecycleSystem Id Seg}
    (hops : s₁.ops = s.ops) (hstore : s₁.store = s.store) (hbusy : ∀ g ∈ s.busy, g ∈ s₁.busy)
    (hdisjoint : ∀ g ∈ s₁.freed, g ∉ s₁.busy) (hfreed : ∀ g ∈ op.pc.freed, ∃ pc ∈ next, g ∈ pc.freed)
    (hnext : ∀ pc ∈ next, pc.Holds owner s₁ op.id ∧ (pc.unwritten = true → op.pc.unwritten = true) ∧
      ∀ g ∈ pc.pending, g ∈ op.pc.pending ∨ g ∉ s.busy ∨ g ∈ op.call.newSegments ∨
        ∃ c, s.store op.id = some c ∧ c.state.isLive = true ∧ g ∈ c.segments) :
    SegmentInv owner (s₁.move i op next) := by
  have hstore' : ∀ id, (s₁.move i op next).store id = s.store id :=
    fun id => by rw [LifecycleSystem.move_store, hstore]
  have hbusy' : ∀ g ∈ s.busy, g ∈ (s₁.move i op next).busy := fun g hg => by
    rw [LifecycleSystem.move_busy]
    exact hbusy g hg
  refine ⟨?_, ?_, ?_, ?_, ?_⟩
  · rw [LifecycleSystem.move_freed, LifecycleSystem.move_busy]
    exact hdisjoint
  · intro id c hc hlive
    obtain ⟨hnodup, hall⟩ := h.stored id c (hstore' id ▸ hc) hlive
    refine ⟨hnodup, fun g hg => ⟨(hall g hg).1, ?_⟩⟩
    rcases (hall g hg).2 with hb | hf
    · exact .inl (hbusy' g hb)
    · rcases freeing_move next hops hop hf with hf | ⟨rfl, hg⟩
      · exact .inr hf
      · obtain ⟨pc, hmem, hg⟩ := hfreed g hg
        refine .inr ⟨i, { op with pc := pc }, ?_, rfl, hg⟩
        rw [LifecycleSystem.move_get, if_pos rfl, hmem, map_some]
  · intro j a ha
    rcases move_cases hops ha with ⟨-, pc, hmem, rfl⟩ | ⟨-, ha⟩
    · refine holds_mono ?_ (fun g _ hg => ?_) (hnext pc hmem).1
      · rw [LifecycleSystem.move_store]
      · rwa [LifecycleSystem.move_busy]
    · exact holds_mono (hstore' _) (fun g _ hg => hbusy' g hg) (h.holds j a ha)
  · intro j a ha
    rcases move_cases hops ha with ⟨-, pc, hmem, rfl⟩ | ⟨-, ha⟩
    · exact claims_mono (hnext pc hmem).2.1 (hstore' _) (fun _ g _ hg => hbusy' g hg)
        (h.claims i op hop)
    · exact claims_mono id (hstore' _) (fun _ g _ hg => hbusy' g hg) (h.claims j a ha)
  · intro j k a b hjk ha hb hun g hg
    rcases move_cases hops ha with ⟨hj, pc, hmem, rfl⟩ | ⟨hj, ha'⟩ <;>
      rcases move_cases hops hb with ⟨hk, pc', hmem', rfl⟩ | ⟨hk, hb'⟩
    · exact absurd (hj.trans hk.symm) hjk
    · subst hj
      exact h.apart j k op b hjk hop hb' ((hnext pc hmem).2.1 hun) g hg
    · subst hk
      obtain ⟨h1, h2⟩ := h.apart j k a op hjk ha' hop hun g hg
      refine ⟨h1, fun hp => ?_⟩
      have hcl := h.claims j a ha'
      rcases (hnext pc' hmem').2.2 g hp with hp | hp | hp | ⟨c, hc, hlive, hgc⟩
      · exact h2 hp
      · exact hp (hcl.busy hun g hg)
      · exact h1 hp
      · -- the record is one of the same chunk, and does not list the strip that is given
        have hid : a.id = op.id := (hcl.owned g hg).symm.trans ((h.stored op.id c hc hlive).2 g hgc).1
        exact hcl.unlisted hun g hg c (hid ▸ hc) hgc
    · exact h.apart j k a b hjk ha' hb' hun g hg

variable [DecidableEq Id] [DecidableEq Seg]

/-- **A call frees segments** of the stored record. -/
theorem of_freed (hc : CacheInv s) (hop : s.ops.get i = some op)
    {segments : List Seg} (hpc : op.pc = .free chunk segments added)
    (hsub : ∀ g ∈ freed, g ∈ segments ∧ g ∈ s.busy) :
    SegmentInv owner ((s.freeSegments freed).move i op (some (.commitFirst chunk freed added))) := by
  have hholds := h.holds i op hop
  rw [hpc] at hholds
  obtain ⟨hchunk, c, hstore, hlive, hlisted⟩ := hholds
  have hops : (s.freeSegments freed).ops = s.ops := rfl
  have hne : op.pc ≠ .lock := by simp [hpc]
  have hun' : op.pc.unwritten = true := by rw [hpc]; rfl
  have howner : ∀ g ∈ freed, owner g = op.id := fun g hg =>
    ((h.stored op.id c hstore hlive).2 g (hlisted g (hsub g hg).1)).1
  have hbusy : ∀ g ∈ s.busy, g ∉ freed →
      g ∈ ((s.freeSegments freed).move i op (some (.commitFirst chunk freed added))).busy := by
    intro g hg hnot
    exact mem_filter.mpr ⟨hg, decide_eq_true hnot⟩
  -- the strip that a call is given is in no record
  have hclaim : ∀ j a, s.ops.get j = some a → a.pc.unwritten = true →
    ∀ g ∈ a.call.newSegments, g ∉ freed := by
    intro j a ha hun g hg hf
    have hcl := h.claims j a ha
    have hid : a.id = op.id := (hcl.owned g hg).symm.trans (howner g hf)
    exact hcl.unlisted hun g hg c (hid ▸ hstore) (hlisted g (hsub g hf).1)
  refine ⟨?_, ?_, ?_, ?_, ?_⟩
  · intro g hg hb
    obtain ⟨hb, hnot⟩ := mem_filter.mp hb
    rcases mem_append.mp hg with hg | hg
    · exact h.disjoint g hg hb
    · exact of_decide_eq_true hnot hg
  · intro id c' hc' hlive'
    obtain ⟨hnodup, hall⟩ := h.stored id c' hc' hlive'
    refine ⟨hnodup, fun g hg => ⟨(hall g hg).1, ?_⟩⟩
    by_cases hf : g ∈ freed
    · refine .inr ⟨i, { op with pc := .commitFirst chunk freed added }, ?_, ?_, hf⟩
      · rw [LifecycleSystem.move_get, if_pos rfl, map_some]
      · exact (howner g hf).symm.trans (hall g hg).1
    · rcases (hall g hg).2 with hb | hfr
      · exact .inl (hbusy g hb hf)
      · rcases freeing_move _ hops hop hfr with hfr | ⟨-, hg⟩
        · exact .inr hfr
        · rw [hpc] at hg
          cases hg
  · intro j a ha
    rcases move_cases hops ha with ⟨-, pc, hmem, rfl⟩ | ⟨hj, ha⟩
    · cases hmem
      intro hl
      obtain ⟨hnodup, hall⟩ := hchunk hl
      refine ⟨hnodup, fun g hg => ⟨(hall g hg).1, hbusy g (hall g hg).2.1 fun hf =>
        (hall g hg).2.2 (hsub g hf).1⟩⟩
    · by_cases hid : a.id = op.id
      · rw [hc.others hop hne hj ha hid]
        trivial
      · refine holds_mono (by rw [LifecycleSystem.move_store]; rfl) (fun g hg hb => ?_)
          (h.holds j a ha)
        exact hbusy g hb fun hf => hid (hg.symm.trans (howner g hf))
  · intro j a ha
    have hkept : ∀ id, ((s.freeSegments freed).move i op
      (some (.commitFirst chunk freed added))).store id = s.store id :=
      fun id => by rw [LifecycleSystem.move_store]; rfl
    rcases move_cases hops ha with ⟨-, pc, -, rfl⟩ | ⟨-, ha⟩
    · exact claims_mono (fun _ => hun') (hkept _) (fun hun g hg hb =>
        hbusy g hb (hclaim i op hop hun g hg))
        (h.claims i op hop)
    · exact claims_mono id (hkept _) (fun hun g hg hb => hbusy g hb (hclaim j a ha hun g hg))
        (h.claims j a ha)
  · intro j k a b hjk ha hb hun g hg
    rcases move_cases hops ha with ⟨hj, pc, _, rfl⟩ | ⟨hj, ha'⟩ <;>
      rcases move_cases hops hb with ⟨hk, pc', hmem', rfl⟩ | ⟨hk, hb'⟩
    · exact absurd (hj.trans hk.symm) hjk
    · subst hj
      exact h.apart j k op b hjk hop hb' hun' g hg
    · subst hk
      cases hmem'
      have := h.apart j k a op hjk ha' hop hun g hg
      rwa [hpc] at this
    · exact h.apart j k a b hjk ha' hb' hun g hg

omit [DecidableEq Seg] in
/-- **A record is written** with the segments that its call holds. -/
theorem of_written (hc : CacheInv s) (hop : s.ops.get i = some op)
    (hpc : op.pc = .write chunk freed added) (hnext : ∀ pc ∈ next, pc = .commit chunk added) :
    SegmentInv owner ((s.putStore op.id chunk).move i op next) := by
  have hholds := h.holds i op hop
  rw [hpc] at hholds
  have hne : op.pc ≠ .lock := by simp [hpc]
  have hops : (s.putStore op.id chunk).ops = s.ops := rfl
  have hself : (s.putStore op.id chunk).store op.id = some chunk := Function.update_self ..
  have hother : ∀ id, id ≠ op.id → (s.putStore op.id chunk).store id = s.store id := fun id hid =>
    Function.update_of_ne hid ..
  refine ⟨?_, ?_, ?_, ?_, ?_⟩
  · rw [LifecycleSystem.move_freed, LifecycleSystem.move_busy]
    exact h.disjoint
  · intro id c hstore hlive
    rw [LifecycleSystem.move_store] at hstore
    by_cases hid : id = op.id
    · subst hid
      cases hself.symm.trans hstore
      obtain ⟨hnodup, hall⟩ := hholds hlive
      refine ⟨hnodup, fun g hg => ⟨(hall g hg).1, .inl ?_⟩⟩
      rw [LifecycleSystem.move_busy]
      exact (hall g hg).2
    · rw [hother id hid] at hstore
      obtain ⟨hnodup, hall⟩ := h.stored id c hstore hlive
      refine ⟨hnodup, fun g hg => ⟨(hall g hg).1, ?_⟩⟩
      rcases (hall g hg).2 with hb | hf
      · refine .inl ?_
        rw [LifecycleSystem.move_busy]
        exact hb
      · refine .inr ((freeing_move _ hops hop hf).resolve_right ?_)
        rintro ⟨heq, -⟩
        exact hid heq
  · intro j a ha
    rcases move_cases hops ha with ⟨-, pc, hmem, rfl⟩ | ⟨hj, ha⟩
    · cases hnext pc hmem
      trivial
    · by_cases hid : a.id = op.id
      · rw [hc.others hop hne hj ha hid]
        trivial
      · refine holds_mono ?_ (fun g _ hb => ?_) (h.holds j a ha)
        · rw [LifecycleSystem.move_store, hother _ hid]
        · rwa [LifecycleSystem.move_busy]
  · intro j a ha
    rcases move_cases hops ha with ⟨-, pc, hmem, rfl⟩ | ⟨hj, ha⟩
    · cases hnext pc hmem
      have hcl := h.claims i op hop
      exact ⟨hcl.nodup, hcl.owned, nofun, nofun⟩
    · have hcl := h.claims j a ha
      refine ⟨hcl.nodup, hcl.owned, fun hun g hg => ?_, fun hun g hg c hstore => ?_⟩
      · rw [LifecycleSystem.move_busy]
        exact hcl.busy hun g hg
      · rw [LifecycleSystem.move_store] at hstore
        by_cases hid : a.id = op.id
        · rw [hid, hself] at hstore
          cases hstore
          have := (h.apart j i a op hj ha hop hun g hg).2
          rwa [hpc] at this
        · rw [hother _ hid] at hstore
          exact hcl.unlisted hun g hg c hstore
  · intro j k a b hjk ha hb hun g hg
    rcases move_cases hops ha with ⟨hj, pc, hmem, rfl⟩ | ⟨hj, ha'⟩ <;>
      rcases move_cases hops hb with ⟨hk, pc', hmem', rfl⟩ | ⟨_, hb'⟩
    · exact absurd (hj.trans hk.symm) hjk
    · cases hnext pc hmem
      cases hun
    · subst hk
      cases hnext pc' hmem'
      exact ⟨(h.apart j k a op hjk ha' hop hun g hg).1, by simp [LifecyclePc.pending]⟩
    · exact h.apart j k a b hjk ha' hb' hun g hg

omit [DecidableEq Id] [DecidableEq Seg] in
theorem listed_busy (hc : CacheInv s) (hop : s.ops.get i = some op) (hpc : op.pc ≠ .lock)
    (hfreed : op.pc.freed = []) {c : Chunk Seg} (hstore : s.store op.id = some c)
    (hlive : c.state.isLive = true) :
    c.segments.Nodup ∧ ∀ g ∈ c.segments, owner g = op.id ∧ g ∈ s.busy := by
  obtain ⟨hnodup, hall⟩ := h.stored op.id c hstore hlive
  refine ⟨hnodup, fun g hg => ⟨(hall g hg).1, (hall g hg).2.resolve_right ?_⟩⟩
  rintro ⟨j, a, ha, hid, hg⟩
  by_cases hj : j = i
  · subst hj
    cases hop.symm.trans ha
    rw [hfreed] at hg
    cases hg
  · rw [hc.others hop hpc hj ha hid] at hg
    cases hg

omit [DecidableEq Id] in
theorem allocate_disjoint (segments : List Seg) :
    ∀ g ∈ (s.allocateSegments segments).freed, g ∉ (s.allocateSegments segments).busy := by
  intro g hg hb
  obtain ⟨hg, hnot⟩ := mem_filter.mp hg
  rcases mem_append.mp hb with hb | hb
  · exact h.disjoint g hg hb
  · exact of_decide_eq_true hnot hb

/-- **A running call** keeps the invariant, unless its record write fails after it has freed. -/
theorem opStep (hc : CacheInv s) (hop : s.ops.get i = some op) {outcome : AccessOutcome Seg}
    (hfail : outcome = .fail → op.pc.writing = []) (hs : s.opStep owner i op outcome = some s') :
    SegmentInv owner s' := by
  obtain ⟨s₁, next, heffect, hops, -, rfl⟩ := LifecycleSystem.opStep_cases hs
  have hholds := h.holds i op hop
  cases heffect with
  | acquire hpc =>
    refine h.of_steady hop hops rfl (fun _ hg => hg) h.disjoint (by simp [hpc, LifecyclePc.freed]) ?_
    rintro _ ⟨⟩
    rw [hpc]
    cases op.call <;> exact ⟨trivial, fun _ => rfl, nofun⟩
  | timeout hpc | refused hpc | refreshed hpc =>
    exact h.of_steady hop hops rfl (fun _ hg => hg) h.disjoint
      (by simp [hpc, LifecyclePc.freed]) (by simp)
  | unread hpc =>
    refine h.of_steady hop hops rfl (fun _ hg => hg) h.disjoint ?_ (by simp)
    rcases hpc with hpc | hpc <;> simp [hpc, LifecyclePc.freed]
  | hit hpc _ | miss hpc | found hpc _ | fill hpc | committed hpc =>
    refine h.of_steady hop hops rfl (fun _ hg => hg) h.disjoint (by simp [hpc, LifecyclePc.freed]) ?_
    rintro _ ⟨⟩
    rw [hpc]
    exact ⟨trivial, id, nofun⟩
  | checked hpc hcheck =>
    rename_i chunk pc
    have hreads := hc.reads i op hop
    rw [hpc] at hreads
    have hcl := h.claims i op hop
    have hun : op.pc.unwritten = true := by rw [hpc]; rfl
    obtain ⟨hpcHolds, hlive, hpending⟩ := checked_holds hcheck hreads.1
      (h.listed_busy hc hop (by simp [hpc]) (by simp [hpc, LifecyclePc.freed]) hreads.1) hcl.nodup
      fun g hg => ⟨hcl.owned g hg, hcl.busy hun g hg, hcl.unlisted hun g hg chunk hreads.1⟩
    refine h.of_steady hop hops rfl (fun _ hg => hg) h.disjoint (by simp [hpc, LifecyclePc.freed]) ?_
    rintro _ ⟨⟩
    refine ⟨hpcHolds, fun _ => hun, fun g hg => ?_⟩
    rcases hpending g hg with hg | hg
    · exact .inr (.inr (.inr ⟨chunk, hreads.1, hlive, hg⟩))
    · exact .inr (.inr (.inl hg))
  | create hpc =>
    refine h.of_steady hop hops rfl (fun _ hg => hg) h.disjoint (by simp [hpc, LifecyclePc.freed]) ?_
    rintro _ ⟨⟩
    rw [hpc]
    exact ⟨fun _ => ⟨nodup_nil, nofun⟩, fun _ => rfl, nofun⟩
  | built hpc | committedFirst hpc =>
    refine h.of_steady hop hops rfl (fun _ hg => hg) h.disjoint ?_ ?_
    · simp [hpc, LifecyclePc.freed]
    · rintro _ ⟨⟩
      rw [hpc] at hholds ⊢
      exact ⟨hholds, fun _ => rfl, fun g hg => .inl hg⟩
  | allocated hpc hun howner =>
    rename_i chunk left added strip
    obtain ⟨hstrip, hnew⟩ := of_decide_eq_true hun
    have hsegments : (chunk.withStrips (chunk.strips ++ [strip])).segments = chunk.segments ++
      strip.segments := by
      simp [Chunk.segments, Chunk.withStrips]
    refine h.of_steady hop hops rfl (fun g hg => mem_append_left _ hg) (h.allocate_disjoint _)
      (by simp [hpc, LifecyclePc.freed]) ?_
    rintro _ ⟨⟩
    rw [hpc] at hholds ⊢
    refine ⟨fun hlive => ?_, fun _ => rfl, fun g hg => ?_⟩
    · obtain ⟨hnodup, hall⟩ := hholds hlive
      rw [hsegments]
      refine ⟨nodup_append.mpr ⟨hnodup, hstrip, ?_⟩, fun g hg => ?_⟩
      · rintro g hg _ hg' rfl
        exact hnew g hg' (hall g hg).2
      · rcases mem_append.mp hg with hg | hg
        · exact ⟨(hall g hg).1, mem_append_left _ (hall g hg).2⟩
        · exact ⟨howner g hg, mem_append_right _ hg⟩
    · rw [LifecyclePc.pending, hsegments] at hg
      exact (mem_append.mp hg).imp id fun hg => .inl (hnew g hg)
  | rolledBack hpc hun =>
    obtain ⟨-, hnew⟩ := of_decide_eq_true hun
    refine h.of_steady hop hops rfl (fun g hg => ?_) (fun g hg hb => ?_)
      (by simp [hpc, LifecyclePc.freed]) (by simp)
    · refine mem_filter.mpr ⟨mem_append_left _ hg, decide_eq_true fun hr => ?_⟩
      exact hnew g (mem_append_right _ hr) hg
    · obtain ⟨hb, hnot⟩ := mem_filter.mp hb
      rcases mem_append.mp hg with hg | hg
      · exact h.allocate_disjoint _ g hg hb
      · exact of_decide_eq_true hnot hg
  | freed hpc hsub => exact h.of_freed hc hop hpc hsub
  | written hpc => exact h.of_written hc hop hpc fun pc hmem => (some_inj.mp hmem).symm
  | unwritten hpc ho =>
    have hfreed : op.pc.freed = [] := by
      have := hfail ho
      rw [hpc] at this ⊢
      exact this
    exact h.of_steady hop hops rfl (fun _ hg => hg) h.disjoint (by simp [hfreed]) (by simp)
  | lost hpc => exact h.of_written hc hop hpc (by simp)

omit [DecidableEq Seg] in
theorem startCall
    (hsafe : LifecycleSystem.FreesSafely owner s (.call i call)) (hs : s.startCall i call = some s') :
    SegmentInv owner s' := by
  unfold LifecycleSystem.startCall at hs
  split at hs <;> cases hs
  rename_i hguard
  rw [not_or] at hguard
  have hnone : s.ops.get i = none := by simpa using hguard.1
  obtain ⟨hnodup, hnew⟩ := hsafe
  have hothers : ∀ {j b}, s.ops.get j = some b → ∀ g ∈ call.newSegments, g ∉ b.call.newSegments ∧
    g ∉ b.pc.pending :=
    fun hb g hg => (hnew g hg).2.2.2 _ (RecordStore.get_eq_some_iff.mp hb)
  have hstart : call.start.pending = [] ∧ ∀ s' :
    LifecycleSystem Id Seg, call.start.Holds owner s' call.id := by
    cases call with
    | allocateChunk _ generated =>
      cases generated
      · exact ⟨rfl, fun _ => trivial⟩
      · exact ⟨rfl, fun _ _ => ⟨nodup_nil, nofun⟩⟩
    | _ => exact ⟨rfl, fun _ => trivial⟩
  have hcases : ∀ {j b}, (s.ops.put i ⟨call, call.start⟩).get j = some b →
      (j = i ∧ b = ⟨call, call.start⟩) ∨ (j ≠ i ∧ s.ops.get j = some b) := by
    intro j b hb
    rw [RecordStore.get_put] at hb
    split at hb
    · exact .inl ⟨‹_›, (some_inj.mp hb).symm⟩
    · exact .inr ⟨‹_›, hb⟩
  refine ⟨h.disjoint, ?_, ?_, ?_, ?_⟩
  · intro id c hc hlive
    obtain ⟨hseg, hall⟩ := h.stored id c hc hlive
    refine ⟨hseg, fun g hg => ⟨(hall g hg).1, (hall g hg).2.imp_right ?_⟩⟩
    rintro ⟨j, a, ha, hid, hg⟩
    refine ⟨j, a, ?_, hid, hg⟩
    have hj : j ≠ i := by
      rintro rfl
      cases hnone.symm.trans ha
    rw [RecordStore.get_put, if_neg hj, ha]
  · intro j a ha
    rcases hcases ha with ⟨-, rfl⟩ | ⟨-, ha⟩
    · exact hstart.2 _
    · exact holds_mono rfl (fun _ _ hg => hg) (h.holds j a ha)
  · intro j a ha
    rcases hcases ha with ⟨-, rfl⟩ | ⟨-, ha⟩
    · exact ⟨hnodup, fun g hg => (hnew g hg).1, fun _ g hg => (hnew g hg).2.1,
        fun _ g hg c hc => (hnew g hg).2.2.1 c hc⟩
    · obtain ⟨h1, h2, h3, h4⟩ := h.claims j a ha
      exact ⟨h1, h2, h3, h4⟩
  · intro j k a b hjk ha hb hun g hg
    rcases hcases ha with ⟨hj, rfl⟩ | ⟨_, ha'⟩ <;> rcases hcases hb with ⟨hk, rfl⟩ | ⟨_, hb'⟩
    · exact absurd (hj.trans hk.symm) hjk
    · exact hothers hb' g hg
    · refine ⟨fun hg' => (hothers ha' g hg').1 hg, ?_⟩
      simp [hstart.1]
    · exact h.apart j k a b hjk ha' hb' hun g hg

omit [DecidableEq Id] [DecidableEq Seg] in
theorem of_env (hops : s'.ops = s.ops) (hstore : s'.store = s.store)
    (hbusy : ∀ g ∈ s.busy, g ∈ s'.busy) (hdisjoint : ∀ g ∈ s'.freed, g ∉ s'.busy) :
    SegmentInv owner s' := by
  refine ⟨hdisjoint, ?_, ?_, ?_, ?_⟩
  · intro id c hc hlive
    obtain ⟨hseg, hall⟩ := h.stored id c (hstore ▸ hc) hlive
    refine ⟨hseg, fun g hg => ⟨(hall g hg).1, (hall g hg).2.imp (hbusy g) ?_⟩⟩
    rintro ⟨j, a, ha, hid, hg⟩
    exact ⟨j, a, hops ▸ ha, hid, hg⟩
  · intro j a ha
    exact holds_mono (by rw [hstore]) (fun g _ hg => hbusy g hg) (h.holds j a (hops ▸ ha))
  · intro j a ha
    exact claims_mono id (by rw [hstore]) (fun _ g _ hg => hbusy g hg) (h.claims j a (hops ▸ ha))
  · intro j k a b hjk ha hb
    exact h.apart j k a b hjk (hops ▸ ha) (hops ▸ hb)

theorem step (hc : CacheInv s) {e : LifecycleEvent Id Seg}
    (hsafe : LifecycleSystem.FreesSafely owner s e) (hs : s.step owner e = some s') :
    SegmentInv owner s' := by
  cases e with
  | call => exact h.startCall hsafe hs
  | op =>
    obtain ⟨op, hop, hs⟩ := bind_eq_some_iff.mp hs
    refine h.opStep hc hop ?_ hs
    rintro rfl
    exact hsafe op hop
  | evict =>
    cases hs
    exact h.of_env rfl rfl (fun _ hg => hg) h.disjoint
  | allocate segments =>
    simp only [LifecycleSystem.step] at hs
    split at hs <;> cases hs
    exact h.of_env rfl rfl (fun g hg => mem_append_left _ hg) (h.allocate_disjoint segments)

end SegmentInv

namespace LifecycleSystem

variable [DecidableEq Id] [DecidableEq Seg] {owner : Seg → Id} {s : LifecycleSystem Id Seg}

theorem segmentInv_of_reach
    (h : Reach (step owner) (fun s e => s.Settles e ∧ FreesSafely owner s e) {} s) :
    SegmentInv owner s ∧ CacheInv s := by
  refine h.invariant (P := fun s => SegmentInv owner s ∧ CacheInv s)
    ⟨SegmentInv.init, CacheInv.init⟩ ?_
  rintro s e s' ⟨hinv, hc⟩ ⟨hset, hsafe⟩ hs
  exact ⟨hinv.step hc hsafe hs, hc.step hset hs⟩

/-- **A stored chunk lists no freed segment** that a running call is not about to take out of the
    record. -/
theorem listed_not_freed_of_reach
    (h : Reach (step owner) (fun s e => s.Settles e ∧ FreesSafely owner s e) {} s) {id : Id}
    {c : Chunk Seg}
    (hstore : s.store id = some c) (hlive : c.state.isLive = true) {g : Seg} (hg : g ∈ c.segments)
    (hidle : ¬ s.Freeing id g) : g ∉ s.freed := by
  obtain ⟨hinv, -⟩ := segmentInv_of_reach h
  intro hf
  obtain ⟨-, hall⟩ := hinv.stored id c hstore hlive
  exact hinv.disjoint g hf ((hall g hg).2.resolve_right hidle)

/-- One of two strips is replaced, a range is deleted, and the chunk lists what is left. -/
theorem listed_not_freed_after_update :
    ∃ s : LifecycleSystem ℕ ℕ, Reach (step fun _ => 1) (fun s e => s.Settles e ∧
      FreesSafely (fun _ => 1) s e) {} s ∧
      (s.store 1).map Chunk.segments = some [12] ∧ s.freed = [10, 11] ∧ 12 ∉ s.freed := by
  refine Reach.exists_imp_of_run
    (fun s => s.ops.records = [] ∧ (s.store 1).map Chunk.segments = some [12] ∧
      (s.store 1).map Chunk.state = some .active ∧ s.freed = [10, 11])
    [.call 0 (.allocateChunk 1 false 2 5), .op 0 .ok, .op 0 .ok, .op 0 (.allocated ⟨0, 8, [10]⟩),
      .op 0 (.allocated ⟨8, 8, [11]⟩), .op 0 .ok, .op 0 .ok, .op 0 .ok, .op 0 .ok, .allocate [12],
      .call 0 (.updateChunkStrip 1 0 ⟨0, 8, [12]⟩), .op 0 .ok, .op 0 .ok, .op 0 .ok,
        .op 0 (.freed [10]), .op 0 .ok,
      .op 0 .ok, .op 0 .ok, .op 0 .ok, .call 0 (.deleteChunkRange 1 8 4), .op 0 .ok,
        .op 0 .ok, .op 0 .ok,
      .op 0 (.freed [11]), .op 0 .ok, .op 0 .ok, .op 0 .ok,
        .op 0 .ok] (by decide +kernel) fun s hs ⟨hops, hsegments, hstate, hfreed⟩ => ?_
  obtain ⟨c, hc, hlisted⟩ := map_eq_some_iff.mp hsegments
  refine ⟨hsegments, hfreed, listed_not_freed_of_reach hs hc ?_ (by simp [hlisted]) ?_⟩
  · rw [hc] at hstate
    simp [ChunkState.isLive, some_inj.mp hstate]
  · rintro ⟨i, op, hop, -⟩
    have hmem := RecordStore.get_eq_some_iff.mp hop
    rw [hops] at hmem
    cases hmem

/-- A live record lists freed segments: after a delete whose record write fails, between free and
    record write of a delete, and after an update whose strip shares a segment with the one it
    replaces. -/
theorem listed_freed : (∃ s : LifecycleSystem ℕ ℕ, Reach (step fun _ => 1) anyStep {} s ∧
      s.ops.records = [] ∧
      (s.store 1).map Chunk.state = some .active ∧ (s.store 1).map Chunk.segments = some [10] ∧
        10 ∈ s.freed) ∧
    (∃ s : LifecycleSystem ℕ ℕ, Reach (step fun _ => 1) anyStep {} s ∧
      (s.store 1).map Chunk.state = some .active ∧ (s.store 1).map Chunk.segments = some [10] ∧
        10 ∈ s.freed) ∧
    ∃ s : LifecycleSystem ℕ ℕ, Reach (step fun _ => 1) anyStep {} s ∧ s.ops.records = [] ∧
      (s.store 1).map Chunk.state = some .active ∧ (s.store 1).map Chunk.segments = some [10] ∧
        10 ∈ s.freed := by
  refine ⟨?_, ?_, ?_⟩
  · exact Reach.exists_of_run
      [.call 0 (.allocateChunk 1 false 1 5), .op 0 .ok, .op 0 .ok, .op 0 (.allocated ⟨0, 8, [10]⟩),
        .op 0 .ok, .op 0 .ok,
        .op 0 .ok, .op 0 .ok, .call 0 (.deleteChunk 1), .op 0 .ok, .op 0 .ok, .op 0 .ok,
          .op 0 (.freed [10]), .op 0 .ok,
        .op 0 .fail] (by decide +kernel)
  · exact Reach.exists_of_run
      [.call 0 (.allocateChunk 1 false 1 5), .op 0 .ok, .op 0 .ok, .op 0 (.allocated ⟨0, 8, [10]⟩),
        .op 0 .ok, .op 0 .ok,
        .op 0 .ok, .op 0 .ok, .call 0 (.deleteChunk 1), .op 0 .ok, .op 0 .ok, .op 0 .ok,
          .op 0 (.freed [10])] (by decide +kernel)
  · exact Reach.exists_of_run
      [.call 0 (.allocateChunk 1 false 1 5), .op 0 .ok, .op 0 .ok, .op 0 (.allocated ⟨0, 8, [10]⟩),
        .op 0 .ok, .op 0 .ok,
        .op 0 .ok, .op 0 .ok, .call 0 (.updateChunkStrip 1 0 ⟨0, 8, [10]⟩), .op 0 .ok,
          .op 0 .ok, .op 0 .ok,
        .op 0 (.freed [10]), .op 0 .ok, .op 0 .ok, .op 0 .ok, .op 0 .ok] (by decide +kernel)

end LifecycleSystem

end CrowDB
