/-
  Gets next to a flush.

  A flush takes the frozen memtables off the list before it publishes their cells, and empties
  them before what is left is in the active one; so a get finds what was applied only if it
  does not list the memtables meanwhile and none of them is emptied while it probes.
-/
import CrowDB.Tree.FlushSafety

namespace CrowDB

open Lib List

variable {K V : Type*} [LinearOrder K]

/-! ## The conditions -/

variable (s : LsmState K V) {opt : MemOptions}

/-- The flush runs alone, apart from gets. -/
def LsmState.FlushAlone : LsmEvent K V → Prop
  | .applyStart _ _ | .applyReadActive _ | .applyUpsert _ | .applyNote _ | .autoFreeze =>
      s.flush.isNone
  | .flushStart => s.applies.isEmpty
  | _ => True

/-- The flush removes cells from a memtable. -/
def FlushPc.removes : FlushPc K V → Bool
  | .drain _ (_ :: _) | .leftovers _ _ _ => true
  | _ => false

/-- A get lists the memtables only while the flush holds no cells, and none is emptied that a get
    has to probe. -/
def LsmState.ReadsApart : LsmEvent K V → Prop
  | .getStart _ => s.taken = [] ∧ s.transit.isEmpty
  | .flushStep => ∀ pc ∈ s.flush, pc.removes = true → ∀ g ∈ s.gets, g.todo = []
  | _ => True

instance (s : LsmState K V) (e : LsmEvent K V) : Decidable (s.FlushAlone e) :=
  match e with
  | .applyStart _ _ | .applyReadActive _ | .applyUpsert _ | .applyNote _ | .autoFreeze =>
    inferInstanceAs (Decidable (_ = _))
  | .flushStart => inferInstanceAs (Decidable (_ = _))
  | .flushStep | .flushPublish | .getStart _ | .getStep _ => isTrue trivial

instance (s : LsmState K V) (e : LsmEvent K V) : Decidable (s.ReadsApart e) :=
  match e with
  | .getStart _ => inferInstanceAs (Decidable (_ ∧ _))
  | .flushStep =>
    inferInstanceAs (Decidable (∀ _ ∈ _, _))
  | .applyStart _ _ | .applyReadActive _ | .applyUpsert _ | .applyNote _ | .autoFreeze
  | .flushStart | .flushPublish | .getStep _ => isTrue trivial

/-! ## A flush alone -/

/-- The memtables that a flush does not drain are empty when it reads the contiguous slot. -/
def FlushPc.Alone : FlushPc K V → Prop
  | .freeze active => active = s.active
  | .readFinal => (s.tables s.active).isEmpty
  | .take iter _ _ => (iter = 0 → (s.tables s.active).isEmpty) ∧ (iter ≠ 0 → s.frozen = [])
  | .readSlot _ _ _ => s.frozen = [] ∧ (s.tables s.active).isEmpty
  | .finish _ _ => True
  | _ => s.frozen = []

/-- No apply runs next to the flush. -/
structure AloneInv (s : LsmState K V) : Prop where
  applies : s.flush.isSome → s.applies = []
  pc : ∀ pc ∈ s.flush, pc.Alone s

namespace AloneInv

variable {s s' : LsmState K V} {pc : FlushPc K V}

theorem above_of_isEmpty {t n : ℕ} (h : (s.tables t).isEmpty) : s.Above n t := by
  intro p hp
  rw [MemTable.isEmpty, List.isEmpty_iff] at h
  rw [h] at hp
  cases hp

theorem settled (h : AloneInv s) (e : LsmEvent K V) : s.Settled e := by
  cases e with
  | flushStep =>
    intro pc hpc
    have hpc' := h.pc pc hpc
    cases pc with
    | readFinal => exact fun _ => above_of_isEmpty hpc'
    | readSlot =>
      obtain ⟨hfrozen, hempty⟩ := hpc'
      refine ⟨fun a ha => ?_, fun t ht => ?_⟩
      · rw [h.applies (by rw [show s.flush = _ from hpc]; rfl)] at ha
        cases ha
      · rw [LsmState.listed, hfrozen, nil_append, mem_singleton] at ht
        rw [ht]
        exact above_of_isEmpty hempty
    | _ => trivial
  | _ => trivial

theorem of_none (h : s'.flush = none) : AloneInv s' where
  applies hsome := by simp [h] at hsome
  pc := by simp [h]

theorem of_pc (happlies : s.applies = []) (hpc : s.flush = some pc) (h : pc.Alone s) :
    AloneInv s where
  applies _ := happlies
  pc := by
    rw [hpc]
    rintro _ ⟨⟩
    exact h

theorem flushStep (h : AloneInv s) (hpc : s.flush = some pc) : AloneInv (s.flushStep opt pc) := by
  have happlies := h.applies (by rw [hpc]; rfl)
  have hp := h.pc pc hpc
  cases pc with
  | freeze =>
    simp only [LsmState.flushStep]
    split
    · rename_i hor
      exact of_pc happlies rfl (hor.resolve_left fun hne => hne (Eq.symm hp))
    · refine of_pc happlies rfl ?_
      have hfresh : s.freezeActive.tables s.freezeActive.active =
        { durableFloor := s.lastAppliedSlot } :=
        LsmInv.freezeActive_fresh
      exact (congrArg MemTable.isEmpty hfresh).trans rfl
  | readFinal => exact of_pc happlies rfl ⟨fun _ => hp, fun hne => absurd rfl hne⟩
  | take iter =>
    simp only [LsmState.flushStep]
    split
    · rename_i hcond
      have hiter : iter = 0 := by
        by_contra hne
        exact hcond.2 (hp.2 hne)
      exact of_pc happlies rfl ⟨rfl, hp.1 hiter⟩
    · exact of_pc happlies rfl trivial
  | readSlot => exact of_pc happlies rfl hp.1
  | merge =>
    simp only [LsmState.flushStep]
    split <;> exact of_pc happlies rfl hp
  | drain _ rest => cases rest <;> exact of_pc happlies rfl hp
  | relocate _ cells => cases cells <;> exact of_pc happlies rfl hp
  | readActive | leftovers | raiseFloor => exact of_pc happlies rfl hp
  | storeSlot => exact of_pc happlies rfl ⟨fun hzero => absurd hzero (Nat.succ_ne_zero _), fun _ =>
      hp⟩
  | finish => exact of_none rfl

theorem step (h : AloneInv s) {e : LsmEvent K V} (halone : s.FlushAlone e)
    (hs : s.step opt e = some s') : AloneInv s' := by
  cases LsmState.steps_of_step hs with
  | applyStart | readActive | upsert | note | autoFreeze =>
      exact of_none (Option.isNone_iff_eq_none.mp halone)
  | flushStart => exact of_pc (isEmpty_iff.mp halone) rfl rfl
  | flushStep hpc => exact h.flushStep hpc
  | flushPublish hpc => exact of_pc (h.applies (by rw [hpc]; rfl)) rfl (h.pc _ hpc)
  | getStart | probe | answer =>
    exact ⟨h.applies, fun pc hpc => by have := h.pc pc hpc; cases pc <;> exact this⟩

end AloneInv

/-! ## Gets in progress -/

/-- A get has a new enough cell, or will probe one, or will find it in the tree. -/
def LsmState.GetOk (g : GetTask K V) : Prop :=
  (∃ c ∈ g.best, g.need ≤ c.slot) ∨ (∃ t ∈ g.todo, AtLeast (s.tables t).cells g.key g.need) ∨
    (AtLeast s.l1 g.key g.need ∧ (∀ c ∈ g.best, g.need ≤ c.slot) ∧
      ∀ t ∈ g.todo, ∀ p ∈ (s.tables t).cells.records, p.1 = g.key → g.need ≤ p.2.slot)

/-- The gets find what they need. -/
structure ReadsInv (s : LsmState K V) : Prop where
  gets : ∀ g ∈ s.gets, 0 < g.need → s.GetOk g
  best : ∀ g ∈ s.gets, ∀ c ∈ g.best, (g.key, c) ∈ s.started
  todo_lt : ∀ g ∈ s.gets, ∀ t ∈ g.todo, t < s.nextId
  answers : ∀ a ∈ s.answers, 0 < a.need → ∃ c ∈ a.cell, a.need ≤ c.slot ∧ (a.key, c) ∈ s.started

namespace ReadsInv

variable {s s' : LsmState K V}

theorem init : ReadsInv ({} : LsmState K V) where
  gets := by simp
  best := by simp
  todo_lt := by simp
  answers := by simp

theorem foldl_max_mem (l : List ℕ) (n : ℕ) : l.foldl max n = n ∨ l.foldl max n ∈ l := by
  induction l generalizing n with
  | nil => exact .inl rfl
  | cons a l ih =>
    rw [foldl_cons]
    rcases ih (max n a) with h | h
    · rw [h]
      rcases Nat.le_total n a with hle | hle
      · exact .inr (by rw [Nat.max_eq_right hle]; exact mem_cons_self)
      · exact .inl (Nat.max_eq_left hle)
    · exact .inr (mem_cons_of_mem a h)

theorem exists_of_appliedSlot {k : K} (hpos : 0 < s.appliedSlot k) :
    ∃ p ∈ s.started, p.1 = k ∧ p.2.slot = s.appliedSlot k ∧ p.2.slot ∈ s.noted := by
  have hmem : s.appliedSlot k ∈
      (s.started.filter fun p => decide (p.1 = k ∧ p.2.slot ∈ s.noted)).map fun p => p.2.slot :=
    (foldl_max_mem _ 0).resolve_left (Nat.ne_of_gt hpos)
  obtain ⟨p, hp, hslot⟩ := mem_map.mp hmem
  obtain ⟨hp, hk⟩ := mem_filter.mp hp
  obtain ⟨hk, hnoted⟩ := of_decide_eq_true hk
  exact ⟨p, hp, hk, hslot, hnoted⟩

theorem getOk_probe {g : GetTask K V} {t : ℕ} {rest : List ℕ} (htodo : g.todo = t :: rest)
    (hok : s.GetOk g) :
    s.GetOk { g with todo := rest, best := LsmState.pickCell g.best ((s.tables t).find g.key) } := by
  have hspec := LsmState.pickCell_spec g.best ((s.tables t).find g.key)
  rcases hok with ⟨c, hc, hn⟩ | ⟨t', ht', q, hq, hk, hn⟩ | ⟨hat, hbest, hnew⟩
  · -- the best cell stays new enough
    cases hp : LsmState.pickCell g.best ((s.tables t).find g.key) with
    | none =>
      rw [hp] at hspec
      rw [hspec.1] at hc
      cases hc
    | some d =>
      rw [hp] at hspec
      exact .inl ⟨d, rfl, hn.trans (hspec.2.1 c hc)⟩
  · rw [htodo] at ht'
    rcases mem_cons.mp ht' with rfl | ht'
    · have hfind : (s.tables t').find g.key = some q.2 := RecordStore.get_eq_some_iff.mpr (hk ▸ hq)
      cases hp : LsmState.pickCell g.best ((s.tables t').find g.key) with
      | none =>
        rw [hp] at hspec
        rw [hspec.2] at hfind
        cases hfind
      | some d =>
        rw [hp] at hspec
        exact .inl ⟨d, rfl, hn.trans (hspec.2.2 q.2 hfind)⟩
    · exact .inr (.inl ⟨t', ht', q, hq, hk, hn⟩)
  · refine .inr (.inr ⟨hat, fun d hd => ?_, fun t' ht' =>
      hnew t' (by rw [htodo]; exact mem_cons_of_mem t ht')⟩)
    rw [show LsmState.pickCell g.best ((s.tables t).find g.key) = some d from hd] at hspec
    rcases hspec.1 with heq | heq
    · exact hbest d heq
    · exact hnew t (by rw [htodo]; exact mem_cons_self) (g.key, d) (RecordStore.mem_of_get heq) rfl

variable (h : ReadsInv s) (hinv : LsmInv s)
include h hinv

theorem of_other (hgets : s'.gets = s.gets)
    (hanswers : s'.answers = s.answers)
    (hstarted : ∀ p ∈ s.started, p ∈ s'.started) (hid : s.nextId ≤ s'.nextId)
    (hl1 : NoOlder s.l1 s'.l1)
    (htables : ∀ g ∈ s.gets, ∀ t ∈ g.todo, NoOlder (s.tables t).cells (s'.tables t).cells ∧
      ∀ p ∈ (s'.tables t).cells.records, p ∈ (s.tables t).cells.records ∨
        s.bound < p.2.slot) : ReadsInv s' where
  gets := by
    intro g hg hpos
    rw [hgets] at hg
    rcases h.gets g hg hpos with hbest | ⟨t, ht, hat⟩ | ⟨hat, hbest, hnew⟩
    · exact .inl hbest
    · exact .inr (.inl ⟨t, ht, (htables g hg t ht).1 _ _ hat⟩)
    · refine .inr (.inr ⟨hl1 _ _ hat, hbest, fun t ht p hp hk => ?_⟩)
      rcases (htables g hg t ht).2 p hp with hp | hlt
      · exact hnew t ht p hp hk
      · obtain ⟨q, hq, -, hn⟩ := hat
        exact (hn.trans (hinv.l1_old q hq)).trans hlt.le
  best := by
    rw [hgets]
    exact fun g hg c hc => hstarted _ (h.best g hg c hc)
  todo_lt := by
    rw [hgets]
    exact fun g hg t ht => (h.todo_lt g hg t ht).trans_le hid
  answers := by
    intro a ha hpos
    rw [hanswers] at ha
    obtain ⟨c, hc, hn, hmem⟩ := h.answers a ha hpos
    exact ⟨c, hc, hn, hstarted _ hmem⟩

theorem of_same (hgets : s'.gets = s.gets)
    (hanswers : s'.answers = s.answers)
    (hstarted : ∀ p ∈ s.started, p ∈ s'.started) (hid : s.nextId ≤ s'.nextId)
    (hl1 : NoOlder s.l1 s'.l1)
    (htables : ∀ g ∈ s.gets, ∀ t ∈ g.todo, (s'.tables t).cells = (s.tables t).cells) :
    ReadsInv s' := by
  refine h.of_other hinv hgets hanswers hstarted hid hl1 fun g hg t ht => ?_
  rw [htables g hg t ht]
  exact ⟨NoOlder.refl _, fun p hp => .inl hp⟩

theorem of_upsertAt {t : ℕ} {p : K × Cell V}
    (hp : s.bound < p.2.slot)
    (htables : s'.tables = (s.upsertAt t p).tables) (hgets : s'.gets = s.gets)
    (hanswers : s'.answers = s.answers)
    (hstarted : ∀ p ∈ s.started, p ∈ s'.started) (hid : s.nextId ≤ s'.nextId) (hl1 : s'.l1 = s.l1) :
    ReadsInv s' := by
  refine h.of_other hinv hgets hanswers hstarted hid (hl1 ▸ NoOlder.refl _) fun g _ t' _ => ?_
  rw [htables]
  refine ⟨LsmInv.upsertAt_noOlder, fun q hq => ?_⟩
  rcases LsmInv.upsertAt_cells hq with hq | rfl
  · exact .inl hq
  · exact .inr hp

theorem flushStep {pc : FlushPc K V}
    (hpc : s.flush = some pc) (hapart : pc.removes = true → ∀ g ∈ s.gets, g.todo = []) :
    ReadsInv (s.flushStep opt pc) := by
  have hsame : ∀ f : Option (FlushPc K V), ReadsInv { s with flush := f } := fun f =>
    h.of_same hinv rfl rfl (fun _ hp => hp) le_rfl (NoOlder.refl _) fun _ _ _ _ => rfl
  have hempty : ∀ {t tab f}, pc.removes = true → ReadsInv { s.setTable t tab with flush := f } := by
    intro t tab f hrem
    refine h.of_same hinv rfl rfl (fun _ hp => hp) le_rfl (NoOlder.refl _) fun g hg t' ht' => ?_
    rw [hapart hrem g hg] at ht'
    cases ht'
  cases pc with
  | freeze =>
    simp only [LsmState.flushStep]
    split
    · exact hsame _
    · refine h.of_same hinv rfl rfl (fun _ hp => hp) (Nat.le_succ _)
        (NoOlder.refl _) fun g hg t ht => ?_
      exact congrArg MemTable.cells (LsmInv.freezeActive_of_ne (h.todo_lt g hg t ht).ne)
  | take =>
    simp only [LsmState.flushStep]
    split
    · exact h.of_same hinv rfl rfl (fun _ hp => hp) le_rfl (NoOlder.refl _) fun _ _ _ _ => rfl
    · exact hsame _
  | readFinal | readSlot | readActive => exact hsame _
  | merge _ _ group =>
    simp only [LsmState.flushStep]
    split
    · exact hsame _
    · exact h.of_same hinv rfl rfl (fun _ hp => hp) le_rfl (publishGroup_spec s.l1 group).1
        fun _ _ _ _ => rfl
  | drain _ rest =>
    cases rest with
    | nil => exact hsame _
    | cons => exact hempty rfl
  | leftovers => exact hempty rfl
  | relocate pass cells =>
    cases cells with
    | nil => exact hsame _
    | cons p =>
      have hbound : s.bound < p.2.slot := by
        have hslot := ((hinv.pc _ hpc).2.2 p mem_cons_self).2
        rw [show s.bound = pass.cs by simp [LsmState.bound, hpc, FlushPc.cs]]
        exact hslot
      exact h.of_upsertAt hinv hbound rfl rfl rfl (fun _ hp => hp) le_rfl rfl
  | raiseFloor pass =>
    refine h.of_same hinv rfl rfl (fun _ hp => hp) le_rfl (NoOlder.refl _) fun g _ t _ => ?_
    by_cases hta : t = pass.active
    · rw [hta]
      exact (congrArg MemTable.cells (LsmState.setTable_self ..)).trans rfl
    · exact congrArg MemTable.cells (LsmState.setTable_of_ne _ _ hta)
  | storeSlot pass | finish finalCs wroteAny =>
    exact h.of_same hinv rfl rfl (fun _ hp => hp) le_rfl (NoOlder.refl _) fun _ _ _ _ => rfl

/-- **A get that starts** while the flush holds nothing sees what was applied. -/
theorem getStart {k : K} (htaken : s.taken = [])
    (htransit : s.transit = []) :
    ReadsInv (s.getStart k) := by
  have hok : 0 < s.appliedSlot k → s.GetOk
    { key := k, need := s.appliedSlot k, todo := s.frozen ++ [s.active] } := by
    intro hpos
    obtain ⟨p, hp, hk, hslot, hnoted⟩ := exists_of_appliedSlot hpos
    rcases hinv.held p hp with ⟨a, ha, hpa⟩ | hl1 | ⟨t, ht, hat⟩ | ⟨q, hq, -⟩
    · exact absurd ((hinv.todo a ha p hpa).2 ▸ hnoted) (hinv.task_slots a ha).2
    · rw [hk, hslot] at hl1
      refine .inr (.inr ⟨hl1, by simp, fun t ht q hq _ => ?_⟩)
      obtain ⟨r, hr, -, hn⟩ := hl1
      exact (hn.trans (hinv.l1_old r hr)).trans (hinv.listed_new t ht q hq).le
    · rw [htaken, append_nil] at ht
      rw [hk, hslot] at hat
      exact .inr (.inl ⟨t, ht, hat⟩)
    · rw [htransit] at hq
      cases hq
  have hgets : ∀ g ∈ (s.getStart k).gets, g ∈ s.gets ∨
      g = { key := k, need := s.appliedSlot k, todo := s.frozen ++ [s.active] } := fun g hg =>
    (mem_append.mp hg).imp_right mem_singleton.mp
  exact {
    gets := by
      intro g hg hpos
      rcases hgets g hg with hg | rfl
      · exact h.gets g hg hpos
      · exact hok hpos
    best := by
      intro g hg c hc
      rcases hgets g hg with hg | rfl
      · exact h.best g hg c hc
      · cases hc
    todo_lt := by
      intro g hg t ht
      rcases hgets g hg with hg | rfl
      · exact h.todo_lt g hg t ht
      · exact hinv.live_lt t (mem_append_left _ ht)
    answers := h.answers }

theorem getStep {i : ℕ} (hs : s.getStep i = some s') :
    ReadsInv s' := by
  obtain ⟨g, hg, rfl⟩ := Option.map_eq_some_iff.mp hs
  have hmem := mem_of_getElem? hg
  split
  · rename_i t rest htodo
    exact {
      gets := forall_mem_set h.gets fun hpos => getOk_probe htodo (h.gets g hmem hpos)
      best := by
        refine forall_mem_set h.best fun c hc => ?_
        have hspec := LsmState.pickCell_spec g.best ((s.tables t).find g.key)
        rw [show LsmState.pickCell g.best ((s.tables t).find g.key) = some c from hc] at hspec
        rcases hspec.1 with heq | heq
        · exact h.best g hmem c heq
        · exact hinv.table_cells t _ (RecordStore.mem_of_get heq)
      todo_lt := by
        refine forall_mem_set h.todo_lt fun t' ht' => h.todo_lt g hmem t' ?_
        rw [htodo]
        exact mem_cons_of_mem t ht'
      answers := h.answers }
  · rename_i htodo
    exact {
      gets := fun g' hg' => h.gets g' (mem_of_mem_eraseIdx hg')
      best := fun g' hg' => h.best g' (mem_of_mem_eraseIdx hg')
      todo_lt := fun g' hg' => h.todo_lt g' (mem_of_mem_eraseIdx hg')
      answers := by
        refine forall_mem_concat h.answers ?_
        intro hpos
        rcases h.gets g hmem hpos with ⟨c, hc, hn⟩ | ⟨t, ht, -⟩ | ⟨⟨q, hq, hk, hn⟩, hbest, -⟩
        · exact ⟨c, by simp [show g.best = some c from hc], hn, h.best g hmem c hc⟩
        · rw [htodo] at ht
          cases ht
        · cases hb : g.best with
          | some c => exact ⟨c, by simp, hbest c hb, h.best g hmem c hb⟩
          | none =>
            have hget : s.l1.get g.key = some q.2 := RecordStore.get_eq_some_iff.mpr (hk ▸ hq)
            exact ⟨q.2, by simp [hget], hn, hinv.l1_cells _ (hk ▸ hq)⟩ }

theorem step {e : LsmEvent K V}
    (hapart : s.ReadsApart e) (hs : s.step opt e = some s') : ReadsInv s' := by
  cases LsmState.steps_of_step hs with
  | applyStart =>
    exact h.of_same hinv rfl rfl (fun p hp => mem_append_left _ hp) le_rfl
      (NoOlder.refl _) fun _ _ _ _ => rfl
  | readActive | note | flushStart =>
    exact h.of_same hinv rfl rfl (fun _ hp => hp) le_rfl (NoOlder.refl _) fun _ _ _ _ => rfl
  | @upsert _ a p _ _ ha htodo =>
    have hmem := mem_of_getElem? ha
    have hbound : s.bound < p.2.slot := by
      rw [(hinv.todo a hmem p (by rw [htodo]; exact mem_cons_self)).2]
      exact hinv.bound_le.trans_lt (hinv.contiguous_lt hmem)
    exact h.of_upsertAt hinv hbound rfl rfl rfl (fun _ hp => hp) le_rfl rfl
  | autoFreeze =>
    refine h.of_same hinv rfl rfl (fun _ hp => hp) (Nat.le_succ _)
      (NoOlder.refl _) fun g hg t ht => ?_
    exact congrArg MemTable.cells (LsmInv.freezeActive_of_ne (h.todo_lt g hg t ht).ne)
  | flushStep hpc => exact h.flushStep hinv hpc (hapart _ hpc)
  | flushPublish =>
    exact h.of_same hinv rfl rfl (fun _ hp => hp) le_rfl (publishGroup_spec s.l1 _).1 fun _ _ _ _ =>
      rfl
  | getStart => exact h.getStart hinv hapart.1 (isEmpty_iff.mp hapart.2)
  | probe | answer => exact h.getStep hinv hs

end ReadsInv

/-! ## Every get -/

namespace LsmState

/-- Every get has given a cell that is not older than what was applied when it started. -/
def GetsFresh : Prop :=
  ∀ a ∈ s.answers, 0 < a.need → ∃ c ∈ a.cell, a.need ≤ c.slot ∧ (a.key, c) ∈ s.started

/-- **Gets see completed writes** at every point of a flush that they are kept apart from. -/
theorem gets_fresh_of_reach {opt : MemOptions} {s : LsmState K V}
    (h : Reach (step opt) (fun s e => (s.Fresh e ∧ s.FlushAlone e) ∧ s.ReadsApart e) {} s) :
    s.GetsFresh := by
  have halone : ∀ {s : LsmState K V},
      Reach (step opt) (fun s e => (s.Fresh e ∧ s.FlushAlone e) ∧ s.ReadsApart e) {} s → AloneInv s :=
    fun hr => hr.invariant (AloneInv.of_none rfl) fun hinv hok hs => hinv.step hok.1.2 hs
  have hinv : ∀ {s : LsmState K V},
      Reach (step opt) (fun s e => (s.Fresh e ∧ s.FlushAlone e) ∧ s.ReadsApart e) {} s → LsmInv s :=
    fun hr => lsmInv_of_reach (hr.strengthen halone fun _ e ha hok => ⟨hok.1.1, ha.settled e⟩)
  have hreads : ReadsInv s := h.invariant_of hinv ReadsInv.init fun hi hr hok hs =>
    hr.step hi hok.2 hs
  exact hreads.answers

/-- A get that probes while a flush publishes, and one that finds the cell in the tree. -/
theorem gets_fresh_around_flush :
    ∃ s : LsmState ℕ ℕ, Reach (step ⟨2, le_rfl⟩)
      (fun s e => (s.Fresh e ∧ s.FlushAlone e) ∧ s.ReadsApart e) {} s ∧
      s.answers = [⟨7, 2, some ⟨2, some 2⟩⟩, ⟨7, 2, some ⟨2, some 2⟩⟩] ∧ s.GetsFresh := by
  exact Reach.exists_and_of_run
    ([.applyStart 1 [(7, some 1)], .applyReadActive 0, .applyUpsert 0, .applyNote 0,
    .autoFreeze,
      .applyStart 2 [(7, some 2)], .applyReadActive 0, .applyUpsert 0, .applyNote 0,
        .flushStart, .flushStep,
      .getStart 7, .flushStep, .getStep 0, .flushStep, .flushStep, .getStep 0, .flushStep,
        .flushStep, .getStep 0] ++
      replicate 8 .flushStep ++ [.getStart 7, .getStep 0, .flushStep, .getStep 0, .getStep 0])
        (by decide +kernel) fun s hs _ => gets_fresh_of_reach hs

/-- A get lists the memtables after the flush has taken the frozen ones; and one has probed an older
    memtable when the newer one is emptied. -/
theorem gets_missing_and_rolled_back :
    (∃ s : LsmState ℕ ℕ, Reach (step ⟨2, le_rfl⟩) (fun s e => s.Fresh e ∧ s.FlushAlone e) {} s ∧
      s.answers = [⟨7, 1, none⟩]) ∧
    ∃ s : LsmState ℕ ℕ, Reach (step ⟨2, le_rfl⟩) (fun s e => s.Fresh e ∧ s.FlushAlone e) {} s ∧
      s.answers = [⟨7, 2, some ⟨1, some 1⟩⟩] := by
  constructor
  · exact Reach.exists_of_run
      [.applyStart 1 [(7, some 1)], .applyReadActive 0, .applyUpsert 0, .applyNote 0,
        .flushStart, .flushStep,
        .flushStep, .flushStep, .getStart 7, .getStep 0, .getStep 0] (by decide +kernel)
  · exact Reach.exists_of_run
      ([.applyStart 1 [(7, some 1)], .applyReadActive 0, .applyUpsert 0, .applyNote 0, .autoFreeze,
        .applyStart 2 [(7, some 2)], .applyReadActive 0, .applyUpsert 0, .applyNote 0,
          .getStart 7, .getStep 0,
        .flushStart] ++ replicate 14 .flushStep ++ [.getStep 0, .getStep 0]) (by decide +kernel)

end LsmState

end CrowDB
