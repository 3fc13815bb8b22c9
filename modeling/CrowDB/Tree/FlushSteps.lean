/-
  The steps of a flush keep the invariant (`flush`, `drain_all_frozen_locked`).

  Most of them move the flush on and leave tables and tree alone (`LsmInv.move`).  The others
  publish to the tree, empty a memtable that was taken, or write to the active one.
-/
import CrowDB.Tree.FlushInv

namespace CrowDB

open Lib List

variable {K V : Type*} [LinearOrder K]

variable {opt : MemOptions}

namespace LsmInv

variable {s s' : LsmState K V}

variable (h : LsmInv s) {taken toDrain : List ℕ} {pc : FlushPc K V}
include h

theorem atPc (hpc : s.flush = some pc) :
    LsmAt s pc.taken pc.late pc.transit (pc.cs.getD s.lastAppliedSlot) := by
  have hat := h.toLsmAt
  simpa [LsmState.taken, LsmState.late, LsmState.transit, LsmState.bound, hpc] using hat
omit h in
theorem move {late : List ℕ} {transit : List (K × Cell V)} {bound : ℕ}
    (h : LsmAt s taken late transit bound) (f : Option (FlushPc K V)) :
    LsmAt { s with flush := f } taken late transit bound :=
  { h with }

/-! ## Start, and the slots it reads -/

theorem flushStart (hnone : s.flush = none) : LsmInv { s with flush := some (.freeze s.active) } := by
  have hat : LsmAt s [] [] [] s.lastAppliedSlot := by
    have hat := h.toLsmAt
    simpa [LsmState.taken, LsmState.late, LsmState.transit, LsmState.bound, hnone] using hat
  refine ⟨move hat _, ?_⟩
  rintro _ ⟨⟩
  trivial

theorem flush_freeze {active : ℕ} (hpc : s.flush = some (.freeze active)) :
    LsmInv { s with flush := some .readFinal } := by
  refine ⟨move (h.atPc hpc) _, ?_⟩
  rintro _ ⟨⟩
  trivial

theorem flush_readFinal (hpc : s.flush = some .readFinal)
    (hset : s.frozen = [] → s.Above s.contiguousSlot s.active) :
    LsmInv { s with flush := some (.take 0 s.contiguousSlot false) } := by
  refine ⟨move (h.atPc hpc) _, ?_⟩
  rintro _ ⟨⟩
  exact ⟨h.last_le.trans h.bound_le, le_rfl, .inl rfl, hset⟩

variable {wroteAny : Bool} {group : List (K × Cell V)} {last : Option K} {pass : FlushPass}
  {rest : List ℕ}
  {iter finalCs cs t : ℕ} {p : K × Cell V}

theorem flush_done (hpc : s.flush = some (.take iter finalCs wroteAny))
    (hend : ¬ (iter < opt.maxMemtableCount ∧ s.frozen ≠ [])) :
    LsmInv { s with flush := some (.finish finalCs wroteAny) } := by
  refine ⟨move (h.atPc hpc) _, ?_⟩
  rintro _ ⟨⟩
  obtain ⟨_, h6, h7, h8⟩ := h.pc _ hpc
  refine ⟨h6, ?_⟩
  rcases h7 with rfl | heq
  · -- in the first round the loop ends only when no memtable is frozen
    have hfrozen : s.frozen = [] := by
      by_contra hne
      exact hend ⟨by have := opt.two_le; omega, hne⟩
    refine .inr fun t ht => ?_
    rw [LsmState.listed, hfrozen, nil_append, mem_singleton] at ht
    rw [ht]
    exact h8 hfrozen
  · exact .inl heq.le

theorem flush_take (hpc : s.flush = some (.take iter finalCs wroteAny)) :
    LsmInv { s with frozen := [], flush := some (.readSlot iter wroteAny s.frozen) } := by
  have hat : LsmAt s [] [] [] s.lastAppliedSlot := h.atPc hpc
  have hperm : ([s.active] ++ s.frozen).Perm (s.listed ++ []) := by
    rw [append_nil]
    exact perm_append_comm
  have hsub : ∀ t ∈ [s.active], t ∈ s.listed := fun t ht => mem_append_right _ ht
  exact { hat with
    listed_floors := fun t ht => hat.listed_floors t (hsub t ht)
    live_nodup := hperm.nodup_iff.mpr hat.live_nodup
    live_lt := fun t ht => hat.live_lt t (hperm.mem_iff.mp ht)
    late_taken := fun t ht => ht
    refs := fun a ha hne t ht => hperm.mem_iff.mpr (hat.refs a ha hne t ht)
    listed_new := fun t ht => hat.listed_new t (hsub t ht)
    held := by
      intro p hp
      refine (hat.held p hp).imp_right ?_
      rintro (hl1 | ⟨t, ht, hat⟩ | ⟨q, hq, -⟩)
      · exact .inl hl1
      · exact .inr (.inl ⟨t, hperm.mem_iff.mpr ht, hat⟩)
      · cases hq
    pc := by
      rintro _ ⟨⟩
      trivial }

/-- **The contiguous slot is read**: from here on it separates tree and memtables. -/
theorem flush_readSlot
    (hpc : s.flush = some (.readSlot iter wroteAny toDrain))
    (hset : (∀ a ∈ s.applies, a.todo ≠ [] → ∀ t ∈ a.table, t ∉ toDrain) ∧ ∀ t ∈ s.listed,
      s.Above s.contiguousSlot t) :
    LsmInv { s with flush := some (.readActive iter wroteAny toDrain s.contiguousSlot) } := by
  have hat : LsmAt s toDrain toDrain [] s.lastAppliedSlot := h.atPc hpc
  exact { hat with
    last_le := hat.bound_le
    bound_le := le_rfl
    listed_floors := fun t ht => (hat.listed_floors t ht).trans hat.bound_le
    late_taken := by
      intro t ht
      cases ht
    refs := by
      intro a ha hne t ht
      rcases mem_append.mp (hat.refs a ha hne t ht) with hmem | hmem
      · exact mem_append_left _ hmem
      · exact absurd hmem (hset.1 a ha hne t ht)
    listed_new := hset.2
    l1_old := fun p hp => (hat.l1_old p hp).trans hat.bound_le
    pc := by
      rintro _ ⟨⟩
      trivial }

theorem flush_readActive
    (hpc : s.flush = some (.readActive iter wroteAny toDrain cs)) :
    LsmInv { s with flush := some (.merge ⟨iter, wroteAny, toDrain, cs, s.active⟩ none []) } := by
  refine ⟨move (h.atPc hpc) _, ?_⟩
  rintro _ ⟨⟩
  refine ⟨mem_concat_self, by simp, fun t _ p _ _ => .inr (.inr ?_)⟩
  intro k hk
  cases hk

/-! ## The merge -/

theorem publish (hpc : s.flush = some (.merge pass last group)) (f : Option (FlushPc K V)) :
    LsmAt { s with l1 := publishGroup s.l1 group, flush := f } pass.toDrain [] [] pass.cs := by
  have hat : LsmAt s pass.toDrain [] [] pass.cs := h.atPc hpc
  obtain ⟨-, hgroup, -⟩ := h.pc _ hpc
  obtain ⟨hnoOlder, -, hcells⟩ := publishGroup_spec s.l1 group
  exact { hat with
    l1_cells := by
      intro p hp
      rcases hcells p hp with hp | hp
      · exact hat.l1_cells p hp
      · exact (hgroup p hp).1
    l1_old := by
      intro p hp
      rcases hcells p hp with hp | hp
      · exact hat.l1_old p hp
      · exact (hgroup p hp).2
    held := by
      intro p hp
      refine (hat.held p hp).imp_right ?_
      rintro (hl1 | htab | htr)
      · exact .inl (hnoOlder _ _ hl1)
      · exact .inr (.inl htab)
      · exact .inr (.inr htr) }

theorem flushPublish (hpc : s.flush = some (.merge pass last group)) :
    LsmInv { s with l1 := publishGroup s.l1 group, flush := some (.merge pass last []) } := by
  obtain ⟨h5, _, h7⟩ := h.pc _ hpc
  obtain ⟨hnoOlder, hin, -⟩ := publishGroup_spec s.l1 group
  refine ⟨h.publish hpc _, ?_⟩
  rintro _ ⟨⟩
  refine ⟨h5, by simp, fun t ht p hp hle => ?_⟩
  rcases h7 t ht p hp hle with hl1 | ⟨g, hg, hkey, hslot⟩ | hlast
  · exact .inl (hnoOlder _ _ hl1)
  · obtain ⟨q, hq, hqk, hqs⟩ := hin g hg
    exact .inl ⟨q, hq, hqk.trans hkey, hslot.trans hqs⟩
  · exact .inr (.inr hlast)

theorem flush_merge_next (hpc : s.flush = some (.merge pass last group))
    (hnext : LsmState.nextEntry (pass.toDrain.map s.tables) pass.cs last = some p) :
    LsmInv { s with flush := some (.merge { pass with wroteAny := true } (some p.1)
      (group ++ [p])) } := by
  have hspec := LsmState.nextEntry_spec (pass.toDrain.map s.tables) pass.cs last
  rw [hnext] at hspec
  obtain ⟨hmem, hmin⟩ := hspec
  obtain ⟨h5, h6, h7⟩ := h.pc _ hpc
  refine ⟨move (h.atPc hpc) _, ?_⟩
  rintro _ ⟨⟩
  obtain ⟨_, htab, hcell, hle, -⟩ := LsmState.mem_mergeEntries.mp hmem
  obtain ⟨t₀, -, rfl⟩ := mem_map.mp htab
  refine ⟨h5, fun q hq => ?_, fun t ht q hq hqle => ?_⟩
  · rcases mem_append.mp hq with hq | hq
    · exact h6 q hq
    · rw [mem_singleton.mp hq]
      exact ⟨h.table_cells t₀ p hcell, hle⟩
  · rcases h7 t ht q hq hqle with hl1 | ⟨g, hg, hkey⟩ | hlast
    · exact .inl hl1
    · exact .inr (.inl ⟨g, mem_append_left _ hg, hkey⟩)
    · have hq' : q ∈ LsmState.mergeEntries (pass.toDrain.map s.tables) pass.cs last :=
        LsmState.mem_mergeEntries.mpr ⟨_, mem_map_of_mem ht, hq, hqle, hlast⟩
      rcases hmin q hq' with hlt | ⟨heq, hslot⟩
      · refine .inr (.inr ?_)
        rintro _ ⟨⟩
        exact hlt
      · exact .inr (.inl ⟨p, mem_concat_self, heq, hslot⟩)

theorem flush_merge_end (hpc : s.flush = some (.merge pass last group))
    (hnext : LsmState.nextEntry (pass.toDrain.map s.tables) pass.cs last = none) :
    LsmInv { s with l1 := publishGroup s.l1 group, flush := some (.drain pass pass.toDrain) } := by
  have hspec := LsmState.nextEntry_spec (pass.toDrain.map s.tables) pass.cs last
  rw [hnext] at hspec
  obtain ⟨h5, _, h7⟩ := h.pc _ hpc
  obtain ⟨hnoOlder, hin, -⟩ := publishGroup_spec s.l1 group
  refine ⟨h.publish hpc _, ?_⟩
  rintro _ ⟨⟩
  refine ⟨h5, fun t ht p hp hle => ?_⟩
  rcases h7 t ht p hp hle with hl1 | ⟨g, hg, hkey, hslot⟩ | hlast
  · exact hnoOlder _ _ hl1
  · obtain ⟨q, hq, hqk, hqs⟩ := hin g hg
    exact ⟨q, hq, hqk.trans hkey, hslot.trans hqs⟩
  · have hp' : p ∈ LsmState.mergeEntries (pass.toDrain.map s.tables) pass.cs last :=
      LsmState.mem_mergeEntries.mpr ⟨_, mem_map_of_mem ht, hp, hle, hlast⟩
    rw [hspec] at hp'
    cases hp'

/-! ## The drain -/

omit h in
theorem replaceTaken {transit transit' : List (K × Cell V)}
    (h : LsmAt s taken [] transit cs) (ht : t ∈ taken) (tab : MemTable K V) (f : Option (FlushPc K V))
    (hcells : ∀ p ∈ tab.cells.records, p ∈ (s.tables t).cells.records)
    (hfloor : tab.durableFloor ≤ s.contiguousSlot) (hsub : rest.Sublist taken)
    (hheld : ∀ k n, s.Held taken transit k n → (s.setTable t tab).Held rest transit' k n) :
    LsmAt { s.setTable t tab with flush := f } rest [] transit' cs := by
  have hlisted : t ∉ s.listed := fun hmem => disjoint_of_nodup_append h.live_nodup hmem ht
  have hne : ∀ t' ∈ s.listed, (s.setTable t tab).tables t' = s.tables t' := by
    intro t' ht'
    refine LsmState.setTable_of_ne _ _ ?_
    rintro rfl
    exact hlisted ht'
  have hmem : ∀ t', ∀ p ∈ ((s.setTable t tab).tables t').cells.records, p ∈
    (s.tables t').cells.records := by
    intro t' p hp
    by_cases htt : t' = t
    · subst htt
      rw [LsmState.setTable_self] at hp
      exact hcells p hp
    · rw [LsmState.setTable_of_ne _ _ htt] at hp
      exact hp
  have hlive : (s.listed ++ rest).Sublist (s.listed ++ taken) := (List.Sublist.refl _).append hsub
  exact { h with
    floors := by
      intro t'
      by_cases htt : t' = t
      · subst htt
        exact (congrArg MemTable.durableFloor (LsmState.setTable_self ..)).trans_le hfloor
      · exact (congrArg MemTable.durableFloor (LsmState.setTable_of_ne _ _ htt)).trans_le
          (h.floors t')
    listed_floors := fun t' ht' =>
      (congrArg MemTable.durableFloor (hne t' ht')).trans_le (h.listed_floors t' ht')
    live_nodup := h.live_nodup.sublist hlive
    live_lt := fun t' ht' => h.live_lt t' (hlive.subset ht')
    late_taken := by
      intro t' ht'
      cases ht'
    table_cells := fun t' p hp => h.table_cells t' p (hmem t' p hp)
    listed_new := fun t' ht' p hp => h.listed_new t' ht' p (hmem t' p hp)
    held := fun p hp => (h.held p hp).imp_right (hheld _ _) }
omit h in
theorem merged_setTable {tab : MemTable K V} (ht : t ∉ rest) (h : s.Merged cs rest) :
    (s.setTable t tab).Merged cs rest := by
  intro t' ht' p hp hle
  rw [LsmState.setTable_of_ne] at hp
  · exact h t' ht' p hp hle
  · rintro rfl
    exact ht ht'

theorem flush_drain (hpc : s.flush = some (.drain pass (t :: rest))) :
    LsmInv { s.setTable t (((s.tables t).setDurableFloor pass.cs).drainUpTo pass.cs).2 with
      flush := some (.leftovers pass t rest) } := by
  have hat : LsmAt s (t :: rest) [] [] pass.cs := h.atPc hpc
  obtain ⟨h5, h6⟩ := h.pc _ hpc
  have hnodup : t ∉ rest := (nodup_cons.mp (nodup_append.mp hat.live_nodup).2.1).1
  refine ⟨replaceTaken hat mem_cons_self _ _ ?_ ?_ (List.Sublist.refl _) ?_, ?_⟩
  · exact fun p hp => (RecordStore.mem_filter.mp hp).1
  · exact max_le (h.floors t) hat.bound_le
  · rintro k n (hl1 | ⟨t', ht', p, hp, hk, hn⟩ | ⟨p, hp, -⟩)
    · exact .inl hl1
    · by_cases htt : t' = t
      · subst htt
        by_cases hle : p.2.slot ≤ pass.cs
        · obtain ⟨q, hq, hqk, hqs⟩ := h6 t' mem_cons_self p hp hle
          exact .inl ⟨q, hq, hqk.trans hk, hn.trans hqs⟩
        · refine .inr (.inl ⟨t', ht', p, ?_, hk, hn⟩)
          rw [LsmState.setTable_self]
          exact RecordStore.mem_filter.mpr ⟨hp, decide_eq_true (Nat.lt_of_not_le hle)⟩
      · refine .inr (.inl ⟨t', ht', p, ?_, hk, hn⟩)
        rw [LsmState.setTable_of_ne _ _ htt]
        exact hp
    · cases hp
  · rintro _ ⟨⟩
    refine ⟨h5, merged_setTable hnodup fun t' ht' => h6 t' (mem_cons_of_mem t ht'), fun p hp => ?_⟩
    rw [LsmState.setTable_self] at hp
    exact of_decide_eq_true (RecordStore.mem_filter.mp hp).2

theorem flush_leftovers (hpc : s.flush = some (.leftovers pass t rest)) :
    LsmInv { s.setTable t (s.tables t).drainAll.2 with
      flush := some (.relocate pass (s.tables t).drainAll.1 rest) } := by
  have hat : LsmAt s (t :: rest) [] [] pass.cs := h.atPc hpc
  obtain ⟨h5, h6, h7⟩ := h.pc _ hpc
  have hnodup : t ∉ rest := (nodup_cons.mp (nodup_append.mp hat.live_nodup).2.1).1
  refine ⟨replaceTaken hat mem_cons_self _ _ ?_ (h.floors t) (sublist_cons_self t rest) ?_, ?_⟩
  · intro p hp
    cases hp
  · rintro k n (hl1 | ⟨t', ht', p, hp, hk, hn⟩ | ⟨p, hp, -⟩)
    · exact .inl hl1
    · by_cases htt : t' = t
      · subst htt
        exact .inr (.inr ⟨p, hp, hk, hn⟩)
      · refine .inr (.inl ⟨t', ?_, p, ?_, hk, hn⟩)
        · rcases mem_append.mp ht' with ht' | ht'
          · exact mem_append_left _ ht'
          · exact mem_append_right _ ((mem_cons.mp ht').resolve_left htt)
        · rw [LsmState.setTable_of_ne _ _ htt]
          exact hp
    · cases hp
  · rintro _ ⟨⟩
    exact ⟨h5, merged_setTable hnodup h6, fun p hp => ⟨h.table_cells t p hp, h7 p hp⟩⟩

theorem flush_relocate {cells : List (K × Cell V)}
    (hpc : s.flush = some (.relocate pass (p :: cells) rest)) :
    LsmInv { s.upsertAt pass.active p with flush := some (.relocate pass cells rest) } := by
  have hat : LsmAt s rest [] (p :: cells) pass.cs := h.atPc hpc
  obtain ⟨h5, h6, h7⟩ := h.pc _ hpc
  obtain ⟨hstarted, hslot⟩ := h7 p mem_cons_self
  have hlisted : pass.active ∉ rest := fun hmem => disjoint_of_nodup_append hat.live_nodup h5 hmem
  exact { hat with
    floors := fun t => upsertAt_floor.trans_le (hat.floors t)
    listed_floors := fun t ht => upsertAt_floor.trans_le (hat.listed_floors t ht)
    table_cells := by
      intro t q hq
      rcases upsertAt_cells hq with hq | rfl
      · exact hat.table_cells t q hq
      · exact hstarted
    listed_new := fun t ht => above_upsertAt hslot (hat.listed_new t ht)
    held := by
      intro q hq
      refine (hat.held q hq).imp_right ?_
      rintro (hl1 | ⟨t, ht, hat⟩ | ⟨r, hr, hk, hn⟩)
      · exact .inl hl1
      · exact .inr (.inl ⟨t, ht, upsertAt_noOlder _ _ hat⟩)
      · rcases mem_cons.mp hr with rfl | hr
        · have hfloor : (s.tables pass.active).durableFloor < r.2.slot :=
            (hat.listed_floors _ h5).trans_lt hslot
          obtain ⟨c, hc, hck, hcs⟩ := upsertAt_self hfloor
          exact .inr (.inl ⟨pass.active, mem_append_left _ h5, c, hc, hck.trans hk, hn.trans hcs⟩)
        · exact .inr (.inr ⟨r, hr, hk, hn⟩)
    pc := by
      rintro _ ⟨⟩
      exact ⟨h5, merged_setTable hlisted h6, fun q hq => h7 q (mem_cons_of_mem p hq)⟩ }

theorem flush_relocated (hpc : s.flush = some (.relocate pass [] rest)) :
    LsmInv { s with flush := some (.drain pass rest) } := by
  obtain ⟨h5, h6, -⟩ := h.pc _ hpc
  refine ⟨move (h.atPc hpc) _, ?_⟩
  rintro _ ⟨⟩
  exact ⟨h5, h6⟩

theorem flush_drained (hpc : s.flush = some (.drain pass [])) :
    LsmInv { s with flush := some (.raiseFloor pass) } := by
  refine ⟨move (h.atPc hpc) _, ?_⟩
  rintro _ ⟨⟩
  exact (h.pc _ hpc).1

/-! ## The end of a round, and of the flush -/

theorem flush_raiseFloor (hpc : s.flush = some (.raiseFloor pass)) :
    LsmInv { s.setTable pass.active ((s.tables pass.active).setDurableFloor pass.cs) with
      flush := some (.storeSlot pass) } := by
  have hat : LsmAt s [] [] [] pass.cs := h.atPc hpc
  have hcells : ∀ t, ((s.setTable pass.active
    ((s.tables pass.active).setDurableFloor pass.cs)).tables t).cells =
      (s.tables t).cells := by
    intro t
    by_cases ht : t = pass.active
    · rw [ht, LsmState.setTable_self]
      rfl
    · rw [LsmState.setTable_of_ne _ _ ht]
  have hfloors : ∀ t n, (s.tables t).durableFloor ≤ n → pass.cs ≤ n →
      ((s.setTable pass.active ((s.tables pass.active).setDurableFloor pass.cs)).tables
        t).durableFloor ≤ n := by
    intro t n hn hcs
    by_cases ht : t = pass.active
    · rw [ht] at hn ⊢
      rw [LsmState.setTable_self]
      exact max_le hn hcs
    · rw [LsmState.setTable_of_ne _ _ ht]
      exact hn
  exact { hat with
    floors := fun t => hfloors t _ (hat.floors t) hat.bound_le
    listed_floors := fun t ht => hfloors t _ (hat.listed_floors t ht) le_rfl
    table_cells := fun t p hp => hat.table_cells t p (hcells t ▸ hp)
    listed_new := fun t ht p hp => hat.listed_new t ht p (hcells t ▸ hp)
    held := by
      intro p hp
      refine (hat.held p hp).imp_right ?_
      rintro (hl1 | ⟨t, ht, hat⟩ | htr)
      · exact .inl hl1
      · refine .inr (.inl ⟨t, ht, ?_⟩)
        rw [AtLeast, hcells t]
        exact hat
      · exact .inr (.inr htr)
    pc := by
      rintro _ ⟨⟩
      exact h.pc _ hpc }

theorem flush_storeSlot (hpc : s.flush = some (.storeSlot pass)) : LsmInv { s with
      lastAppliedSlot := pass.cs, flush := some (.take (pass.iter + 1) pass.cs pass.wroteAny) } := by
  have hat : LsmAt s [] [] [] pass.cs := h.atPc hpc
  exact { hat with
    last_le := le_rfl
    pc := by
      rintro _ ⟨⟩
      refine ⟨le_rfl, hat.bound_le, .inr rfl, fun _ => ?_⟩
      exact hat.listed_new _ mem_concat_self }

theorem flush_finish (hpc : s.flush = some (.finish finalCs wroteAny)) {n : ℕ}
    (hn : n = s.lastAppliedSlot ∨ (s.lastAppliedSlot < finalCs ∧ n = finalCs)) :
    LsmInv { s with lastAppliedSlot := n, flush := none } := by
  have hat : LsmAt s [] [] [] s.lastAppliedSlot := h.atPc hpc
  obtain ⟨h5, h6⟩ := h.pc _ hpc
  have hle : s.lastAppliedSlot ≤ n := by
    rcases hn with rfl | ⟨hlt, rfl⟩
    · exact le_rfl
    · exact hlt.le
  exact { hat with
    last_le := le_rfl
    bound_le := by
      rcases hn with rfl | ⟨-, rfl⟩
      · exact hat.bound_le
      · exact h5
    listed_floors := fun t ht => (hat.listed_floors t ht).trans hle
    listed_new := by
      intro t ht
      rcases hn with rfl | ⟨hlt, rfl⟩
      · exact hat.listed_new t ht
      · exact h6.resolve_left (Nat.not_le.mpr hlt) t ht
    l1_old := fun p hp => (hat.l1_old p hp).trans hle
    pc := by
      intro pc hpc
      cases hpc }

/-! ## Step and run -/

/-- **A step of the flush** keeps the invariant, if what it reads is settled. -/
theorem flushStep (hpc : s.flush = some pc) (hset : pc.Settled s) : LsmInv (s.flushStep opt pc) := by
  cases pc with
  | freeze =>
    simp only [LsmState.flushStep]
    split
    · exact h.flush_freeze hpc
    · exact h.freezeActive.flush_freeze hpc
  | readFinal => exact h.flush_readFinal hpc hset
  | take =>
    simp only [LsmState.flushStep]
    split
    · exact h.flush_take hpc
    · exact h.flush_done hpc ‹_›
  | readSlot => exact h.flush_readSlot hpc hset
  | readActive => exact h.flush_readActive hpc
  | merge =>
    simp only [LsmState.flushStep]
    split
    · exact h.flush_merge_next hpc ‹_›
    · exact h.flush_merge_end hpc ‹_›
  | drain _ rest =>
    cases rest with
    | nil => exact h.flush_drained hpc
    | cons => exact h.flush_drain hpc
  | leftovers => exact h.flush_leftovers hpc
  | relocate _ cells =>
    cases cells with
    | nil => exact h.flush_relocated hpc
    | cons => exact h.flush_relocate hpc
  | raiseFloor => exact h.flush_raiseFloor hpc
  | storeSlot => exact h.flush_storeSlot hpc
  | finish =>
    refine h.flush_finish hpc ?_
    split
    · exact .inr ⟨(‹_ ∧ _› : _ ∧ _).2, rfl⟩
    · exact .inl rfl

theorem step {e : LsmEvent K V} (hfresh : s.Fresh e) (hset : s.Settled e)
    (hs : s.step opt e = some s') :
    LsmInv s' := by
  cases LsmState.steps_of_step hs with
  | applyStart => exact h.applyStart hfresh
  | readActive ha => exact h.applyReadActive ha
  | upsert ha htodo htable => exact h.applyUpsert ha htodo htable
  | note ha htodo hreceived hcur => exact h.applyNote ha htodo hreceived hcur
  | autoFreeze => exact h.freezeActive
  | flushStart hnone => exact h.flushStart hnone
  | flushStep hpc => exact h.flushStep hpc (hset _ hpc)
  | flushPublish hpc => exact h.flushPublish hpc
  | getStart | probe | answer => exact { h with }

end LsmInv

theorem LsmState.lsmInv_of_reach {s : LsmState K V}
    (h : Reach (LsmState.step opt) (fun s e => s.Fresh e ∧ s.Settled e) {} s) : LsmInv s :=
  h.invariant LsmInv.init fun hinv hok hs => hinv.step hok.1 hok.2 hs

end CrowDB
