/-
  Where the cells are while applies and a flush run.

  A cell that an apply has written is in a listed memtable, in one that the flush has taken,
  on its way back to the active memtable, or in the tree; and the listed memtables are newer
  than the tree.  This needs that a flush reads the contiguous slot only when the memtables
  it does not drain are above it, and that no apply still writes to the ones it drains.
-/
import CrowDB.Lib.Lists
import CrowDB.Tree.Flush

namespace CrowDB

open Lib List

variable {K V : Type*} [LinearOrder K]

/-! ## The pieces of the two functions -/

variable {p : K × Cell V}

theorem latest_slot {slot : ℕ} {ops : List (K × Option V)} (hp : p ∈ (latest slot ops).records) :
    p.2.slot = slot := by
  have hfold : ∀ (ops : List (K × Option V))
    (cells : RecordStore K (Cell V)), (∀ p ∈ cells.records, p.2.slot = slot) →
      ∀ p ∈ (ops.foldl (fun cells op => cells.put op.1 ⟨slot, op.2⟩) cells).records,
        p.2.slot = slot := by
    intro ops
    induction ops with
    | nil => exact fun cells h => h
    | cons _ _ ih =>
      intro cells h
      refine ih _ fun p hp => ?_
      rcases RecordStore.mem_put.mp hp with rfl | ⟨hp, -⟩
      · rfl
      · exact h p hp
  exact hfold ops .empty (by simp [RecordStore.empty]) p hp

theorem recomputeContiguous_spec (received : List ℕ) :
    ∀ fuel cur, cur ≤ recomputeContiguous received fuel cur ∧
      ∀ n, cur < n → n ≤ recomputeContiguous received fuel cur → n ∈ received
  | 0, cur => ⟨le_rfl, fun n h1 h2 => absurd h2 (Nat.not_le.mpr h1)⟩
  | fuel + 1, cur => by
    unfold recomputeContiguous
    split
    · rename_i hmem
      obtain ⟨h1, h2⟩ := recomputeContiguous_spec received fuel (cur + 1)
      refine ⟨(Nat.le_succ cur).trans h1, fun n hn hle => ?_⟩
      rcases Nat.lt_or_ge (cur + 1) n with hlt | hge
      · exact h2 n hlt hle
      · rw [show n = cur + 1 by omega]
        exact hmem
    · exact ⟨le_rfl, fun n h1 h2 => absurd h2 (Nat.not_le.mpr h1)⟩

namespace LsmState

theorem mem_mergeEntries {tables : List (MemTable K V)} {cs : ℕ} {last : Option K} :
    p ∈ mergeEntries tables cs last ↔ ∃ t ∈ tables, p ∈ t.cells.records ∧ p.2.slot ≤ cs ∧
      ∀ k ∈ last, k < p.1 := by
  simp only [mergeEntries, mem_flatMap, mem_filter, Bool.and_eq_true, decide_eq_true_eq,
    Option.all_eq_true]
  rfl

/-- **The merge**: the lowest key that is left, with its highest slot. -/
theorem nextEntry_spec (tables : List (MemTable K V)) (cs : ℕ) (last : Option K) :
    match nextEntry tables cs last with
    | none => mergeEntries tables cs last = []
    | some p => p ∈ mergeEntries tables cs last ∧
        ∀ q ∈ mergeEntries tables cs last, p.1 < q.1 ∨ (p.1 = q.1 ∧ q.2.slot ≤ p.2.slot) := by
  -- the best so far against what the fold has passed, `seen`
  have hfold : ∀ (entries seen : List (K × Cell V)) (best : K × Cell V),
      best ∈ seen → (∀ q ∈ seen, best.1 < q.1 ∨ (best.1 = q.1 ∧ q.2.slot ≤ best.2.slot)) →
      ∃ p, entries.foldl mergePick (some best) = some p ∧ p ∈ seen ++ entries ∧
        ∀ q ∈ seen ++ entries, p.1 < q.1 ∨ (p.1 = q.1 ∧ q.2.slot ≤ p.2.slot) := by
    intro entries
    induction entries with
    | nil =>
      intro seen best hmem hmin
      exact ⟨best, rfl, by simpa using hmem, by simpa using hmin⟩
    | cons e _ ih =>
      intro seen best hmem hmin
      rw [append_cons, foldl_cons, mergePick]
      split
      · rename_i hwins
        refine ih (seen ++ [e]) e (by simp) fun q hq => ?_
        have hwins : e.1 < best.1 ∨ (e.1 = best.1 ∧ best.2.slot < e.2.slot) := of_decide_eq_true hwins
        rcases mem_append.mp hq with hq | hq
        · rcases hmin q hq with hlt | ⟨heq, hle⟩ <;> rcases hwins with hw | ⟨hw, hs⟩
          · exact .inl (hw.trans hlt)
          · exact .inl (hw ▸ hlt)
          · exact .inl (heq ▸ hw)
          · exact .inr ⟨hw.trans heq, by omega⟩
        · rw [mem_singleton.mp hq]
          exact .inr ⟨rfl, le_rfl⟩
      · rename_i hloses
        refine ih (seen ++ [e]) best (by simp [hmem]) (forall_mem_concat hmin ?_)
        simp only [mergeWins, decide_eq_true_eq, not_or, not_and, not_lt] at hloses
        rcases lt_or_eq_of_le hloses.1 with hlt | heq
        · exact .inl hlt
        · exact .inr ⟨heq, hloses.2 heq.symm⟩
  unfold nextEntry
  cases hentries : mergeEntries tables cs last with
  | nil => rfl
  | cons e entries =>
    obtain ⟨p, hp, hmem, hmin⟩ := hfold entries [e] e (by simp) (by
      intro q hq
      rw [mem_singleton.mp hq]
      exact .inr ⟨rfl, le_rfl⟩)
    rw [foldl_cons, mergePick, hp]
    exact ⟨hmem, hmin⟩

end LsmState

/-! ## Where the cells are -/

namespace FlushPc

/-- The memtables that the flush has taken and not emptied. -/
def taken : FlushPc K V → List ℕ
  | .readSlot _ _ toDrain | .readActive _ _ toDrain _ => toDrain
  | .merge pass _ _ => pass.toDrain
  | .drain _ rest | .relocate _ _ rest => rest
  | .leftovers _ t rest => t :: rest
  | _ => []

/-- The memtables that the flush has taken and that applies may still write to. -/
def late : FlushPc K V → List ℕ
  | .readSlot _ _ toDrain => toDrain
  | _ => []

/-- The cells on their way to the active memtable. -/
def transit : FlushPc K V → List (K × Cell V)
  | .relocate _ cells _ => cells
  | _ => []

/-- The slot that the round drains up to, once it is read. -/
def cs : FlushPc K V → Option ℕ
  | .readActive _ _ _ cs => some cs
  | .merge pass _ _ | .drain pass _ | .leftovers pass _ _ | .relocate pass _ _
  | .raiseFloor pass | .storeSlot pass => some pass.cs
  | _ => none

end FlushPc

namespace LsmState

variable (s : LsmState K V)

/-- The tables that a get lists. -/
def listed : List ℕ := s.frozen ++ [s.active]

/-- The tables that the flush took. -/
def taken : List ℕ := s.flush.elim [] FlushPc.taken

/-- Those that applies may still write to. -/
def late : List ℕ := s.flush.elim [] FlushPc.late

/-- The cells on their way back. -/
def transit : List (K × Cell V) := s.flush.elim [] FlushPc.transit

/-- The slot that separates tree and memtables. -/
def bound : ℕ := (s.flush.bind FlushPc.cs).getD s.lastAppliedSlot

/-- An apply still has to write the cell. -/
def Pending (p : K × Cell V) : Prop := ∃ a ∈ s.applies, p ∈ a.todo

/-- A cell of the key, of slot `n` or later, is in the tree, in a memtable, or on its way. -/
def Held (taken : List ℕ) (transit : List (K × Cell V)) (k : K) (n : ℕ) : Prop :=
  AtLeast s.l1 k n ∨ (∃ t ∈ s.listed ++ taken, AtLeast (s.tables t).cells k n) ∨
    ∃ p ∈ transit, p.1 = k ∧ n ≤ p.2.slot

/-- The cells of these memtables up to `cs` are in the tree. -/
def Merged (cs : ℕ) (ts : List ℕ) : Prop :=
  ∀ t ∈ ts, ∀ p ∈ (s.tables t).cells.records, p.2.slot ≤ cs → AtLeast s.l1 p.1 p.2.slot

/-- All cells of the table are above `n`. -/
def Above (n t : ℕ) : Prop := ∀ p ∈ (s.tables t).cells.records, n < p.2.slot
deriving Decidable

end LsmState

/-! ## The conditions -/

/-- The memtables not drained are above the contiguous slot, and no apply writes to the others. -/
def FlushPc.Settled (s : LsmState K V) : FlushPc K V → Prop
  | .readFinal => s.frozen = [] → s.Above s.contiguousSlot s.active
  | .readSlot _ _ toDrain =>
    (∀ a ∈ s.applies, a.todo ≠ [] → ∀ t ∈ a.table, t ∉ toDrain) ∧
      ∀ t ∈ s.listed, s.Above s.contiguousSlot t
  | _ => True

namespace LsmState

/-- Every slot is applied once, and none is 0. -/
def Fresh (s : LsmState K V) : LsmEvent K V → Prop
  | .applyStart slot _ => 0 < slot ∧ slot ∉ s.slots
  | _ => True

/-- `FlushPc.Settled` at a flush step. -/
def Settled (s : LsmState K V) : LsmEvent K V → Prop
  | .flushStep => ∀ pc ∈ s.flush, pc.Settled s
  | _ => True

end LsmState

instance (s : LsmState K V) (pc : FlushPc K V) : Decidable (pc.Settled s) := by
  cases pc <;> unfold FlushPc.Settled <;> infer_instance

instance (s : LsmState K V) (e : LsmEvent K V) : Decidable (s.Fresh e) := by
  cases e <;> unfold LsmState.Fresh <;> infer_instance

instance (s : LsmState K V) (e : LsmEvent K V) : Decidable (s.Settled e) := by
  cases e <;> unfold LsmState.Settled <;> infer_instance

/-! ## The invariant -/

/-- What holds at each point of a flush. -/
def FlushPc.Ok (s : LsmState K V) : FlushPc K V → Prop
  | .freeze _ | .readFinal | .readSlot _ _ _ | .readActive _ _ _ _ => True
  | .take iter finalCs _ =>
    s.lastAppliedSlot ≤ finalCs ∧ finalCs ≤ s.contiguousSlot ∧
      (iter = 0 ∨ finalCs = s.lastAppliedSlot) ∧ (s.frozen = [] → s.Above finalCs s.active)
  | .finish finalCs _ =>
    finalCs ≤ s.contiguousSlot ∧ (finalCs ≤ s.lastAppliedSlot ∨ ∀ t ∈ s.listed, s.Above finalCs t)
  | .merge pass last group =>
    pass.active ∈ s.listed ∧ (∀ p ∈ group, p ∈ s.started ∧ p.2.slot ≤ pass.cs) ∧
      ∀ t ∈ pass.toDrain, ∀ p ∈ (s.tables t).cells.records, p.2.slot ≤ pass.cs →
        AtLeast s.l1 p.1 p.2.slot ∨ (∃ g ∈ group, g.1 = p.1 ∧ p.2.slot ≤ g.2.slot) ∨
          ∀ k ∈ last, k < p.1
  | .drain pass rest => pass.active ∈ s.listed ∧ s.Merged pass.cs rest
  | .leftovers pass t rest => pass.active ∈ s.listed ∧ s.Merged pass.cs rest ∧ s.Above pass.cs t
  | .relocate pass cells rest =>
    pass.active ∈ s.listed ∧ s.Merged pass.cs rest ∧ ∀ p ∈ cells, p ∈ s.started ∧ pass.cs < p.2.slot
  | .raiseFloor pass | .storeSlot pass => pass.active ∈ s.listed

/-- Tasks, memtables and tree when the flush has taken `taken`, applies may write to `late`, the
    cells `transit` are carried, and `bound` separates tree and memtables. -/
structure LsmAt (s : LsmState K V) (taken late : List ℕ) (transit : List (K × Cell V)) (bound : ℕ) :
    Prop where
  slots_pos : ∀ n ∈ s.slots, 0 < n
  started_slots : ∀ p ∈ s.started, p.2.slot ∈ s.slots
  noted_slots : ∀ n ∈ s.noted, n ∈ s.slots
  task_slots : ∀ a ∈ s.applies, a.slot ∈ s.slots ∧ a.slot ∉ s.noted
  tasks_nodup : (s.applies.map ApplyTask.slot).Nodup
  todo : ∀ a ∈ s.applies, ∀ p ∈ a.todo, p ∈ s.started ∧ p.2.slot = a.slot
  contiguous : ∀ n, 0 < n → n ≤ s.contiguousSlot → n ∈ s.noted
  received : ∀ n ∈ s.receivedSlots, n ∈ s.noted
  last_le : s.lastAppliedSlot ≤ bound
  bound_le : bound ≤ s.contiguousSlot
  floors : ∀ t, (s.tables t).durableFloor ≤ s.contiguousSlot
  listed_floors : ∀ t ∈ s.listed, (s.tables t).durableFloor ≤ bound
  live_nodup : (s.listed ++ taken).Nodup
  live_lt : ∀ t ∈ s.listed ++ taken, t < s.nextId
  late_taken : ∀ t ∈ late, t ∈ taken
  refs : ∀ a ∈ s.applies, a.todo ≠ [] → ∀ t ∈ a.table, t ∈ s.listed ++ late
  table_cells : ∀ t, ∀ p ∈ (s.tables t).cells.records, p ∈ s.started
  l1_cells : ∀ p ∈ s.l1.records, p ∈ s.started
  listed_new : ∀ t ∈ s.listed, s.Above bound t
  l1_old : ∀ p ∈ s.l1.records, p.2.slot ≤ bound
  held : ∀ p ∈ s.started, s.Pending p ∨ s.Held taken transit p.1 p.2.slot

/-- Where the cells are. -/
structure LsmInv (s : LsmState K V) : Prop extends LsmAt s s.taken s.late s.transit s.bound where
  pc : ∀ pc ∈ s.flush, pc.Ok s

namespace LsmInv

variable {s s' : LsmState K V} {a : ApplyTask K V}

theorem init : LsmInv ({} : LsmState K V) where
  slots_pos := by simp
  started_slots := by simp
  noted_slots := by simp
  task_slots := by simp
  tasks_nodup := by simp
  todo := by simp
  contiguous := by
    intro n hpos hle
    exact absurd hle (Nat.not_le.mpr hpos)
  received := by simp
  last_le := le_rfl
  bound_le := le_rfl
  floors _ := le_rfl
  listed_floors _ _ := le_rfl
  live_nodup := by simp [LsmState.listed, LsmState.taken]
  live_lt := by simp [LsmState.listed, LsmState.taken]
  late_taken := by simp [LsmState.late]
  refs := by simp
  table_cells := by simp [RecordStore.empty]
  l1_cells := by simp [RecordStore.empty]
  listed_new := by simp [LsmState.Above, RecordStore.empty]
  l1_old := by simp [RecordStore.empty]
  held := by simp
  pc := by simp

theorem contiguous_lt (h : LsmInv s) (ha : a ∈ s.applies) : s.contiguousSlot < a.slot := by
  obtain ⟨hslot, hnot⟩ := h.task_slots a ha
  by_contra hle
  exact hnot (h.contiguous a.slot (h.slots_pos _ hslot) (Nat.le_of_not_lt hle))

/-! ## Applies -/

variable {pc : FlushPc K V} {i : ℕ} {t : ℕ}

theorem ok_mono (hok : pc.Ok s) (hfrozen : s'.frozen = s.frozen) (hactive : s'.active = s.active)
    (hlast : s'.lastAppliedSlot = s.lastAppliedSlot) (hcontig : s.contiguousSlot ≤ s'.contiguousSlot)
    (hstarted : ∀ p ∈ s.started, p ∈ s'.started) (hl1 : s'.l1 = s.l1)
    (htaken : pc.late = [] → ∀ t ∈ pc.taken, s'.tables t = s.tables t)
    (habove : ∀ n ≤ s.contiguousSlot, ∀ t, s.Above n t → s'.Above n t) : pc.Ok s' := by
  have hlisted : s'.listed = s.listed := by rw [LsmState.listed, LsmState.listed, hfrozen, hactive]
  have hmerged : ∀ {cs ts}, (∀ t ∈ ts, s'.tables t = s.tables t) → s.Merged cs ts →
    s'.Merged cs ts := by
    intro cs ts hts hm t ht p hp hle
    rw [hts t ht] at hp
    rw [hl1]
    exact hm t ht p hp hle
  cases pc with
  | freeze | readFinal | readSlot | readActive => trivial
  | take _ finalCs =>
    obtain ⟨h1, h2, h3, h4⟩ := hok
    refine ⟨hlast ▸ h1, h2.trans hcontig, hlast ▸ h3, fun hf => ?_⟩
    rw [hactive]
    exact habove finalCs h2 _ (h4 (hfrozen ▸ hf))
  | finish finalCs =>
    obtain ⟨h1, h2⟩ := hok
    refine ⟨h1.trans hcontig, ?_⟩
    rw [hlast, hlisted]
    exact h2.imp_right fun hall t ht => habove finalCs h1 t (hall t ht)
  | merge =>
    obtain ⟨h1, h2, h3⟩ := hok
    refine ⟨hlisted ▸ h1, fun p hp => ⟨hstarted p (h2 p hp).1, (h2 p hp).2⟩, ?_⟩
    intro t ht p hp
    rw [htaken rfl t ht] at hp
    rw [hl1]
    exact h3 t ht p hp
  | drain => exact ⟨hlisted ▸ hok.1, hmerged (htaken rfl) hok.2⟩
  | leftovers _ t =>
    obtain ⟨h1, h2, h3⟩ := hok
    refine ⟨hlisted ▸ h1, hmerged (fun t' ht' => htaken rfl t' (mem_cons_of_mem t ht')) h2, ?_⟩
    intro p hp
    rw [htaken rfl t mem_cons_self] at hp
    exact h3 p hp
  | relocate =>
    obtain ⟨h1, h2, h3⟩ := hok
    exact ⟨hlisted ▸ h1, hmerged (htaken rfl) h2, fun p hp => ⟨hstarted p (h3 p hp).1, (h3 p hp).2⟩⟩
  | raiseFloor pass | storeSlot pass =>
    rw [FlushPc.Ok, hlisted]
    exact hok

theorem applyStart (h : LsmInv s) {slot : ℕ} {ops : List (K × Option V)}
    (hfresh : 0 < slot ∧ slot ∉ s.slots) :
    LsmInv (s.applyStart slot ops) := by
  obtain ⟨hpos, hnew⟩ := hfresh
  exact { h with
    slots_pos := forall_mem_concat h.slots_pos hpos
    started_slots := by
      intro p hp
      rcases mem_append.mp hp with hp | hp
      · exact mem_append_left _ (h.started_slots p hp)
      · rw [latest_slot hp]
        exact mem_concat_self
    noted_slots := fun n hn => mem_append_left _ (h.noted_slots n hn)
    task_slots := forall_mem_concat
      (fun a ha => ⟨mem_append_left _ (h.task_slots a ha).1, (h.task_slots a ha).2⟩)
        ⟨mem_concat_self, fun hn => hnew (h.noted_slots slot hn)⟩
    tasks_nodup := by
      simp only [LsmState.applyStart, map_append, map_cons, map_nil]
      refine nodup_append.mpr ⟨h.tasks_nodup, nodup_singleton _, ?_⟩
      intro n hn m hm hnm
      obtain ⟨a, ha, rfl⟩ := mem_map.mp hn
      rw [mem_singleton.mp hm] at hnm
      exact hnew (hnm ▸ (h.task_slots a ha).1)
    todo := forall_mem_concat
      (fun a ha p hp => ⟨mem_append_left _ (h.todo a ha p hp).1, (h.todo a ha p hp).2⟩)
        fun p hp => ⟨mem_append_right _ hp, latest_slot hp⟩
    refs := by
      refine forall_mem_concat h.refs ?_
      intro _ t ht
      cases ht
    table_cells := fun t p hp => mem_append_left _ (h.table_cells t p hp)
    l1_cells := fun p hp => mem_append_left _ (h.l1_cells p hp)
    held := by
      intro p hp
      rcases mem_append.mp hp with hp | hp
      · rcases h.held p hp with ⟨a, ha, hpa⟩ | hheld
        · exact .inl ⟨a, mem_append_left _ ha, hpa⟩
        · exact .inr hheld
      · exact .inl ⟨_, mem_concat_self, hp⟩
    pc := fun pc hpc => ok_mono (h.pc pc hpc) rfl rfl rfl le_rfl
      (fun p hp => mem_append_left _ hp) rfl (fun _ _ _ => rfl) fun _ _ _ ha => ha }

theorem applyReadActive (h : LsmInv s) (ha : s.applies[i]? = some a) :
    LsmInv { s with applies := s.applies.set i { a with table := some s.active } } := by
  have hmem := mem_of_getElem? ha
  exact { h with
    task_slots := forall_mem_set h.task_slots (h.task_slots a hmem)
    tasks_nodup := nodup_map_set ha rfl h.tasks_nodup
    todo := forall_mem_set h.todo (h.todo a hmem)
    refs := by
      refine forall_mem_set h.refs fun _ t ht => ?_
      cases ht
      exact mem_append_left _ mem_concat_self
    held := by
      intro p hp
      refine (h.held p hp).imp_left ?_
      rintro ⟨b, hb, hpb⟩
      rcases mem_set_or_eq ha hb with rfl | hb
      · exact ⟨_, mem_set (List.getElem?_eq_some_iff.mp ha).1 _, hpb⟩
      · exact ⟨b, hb, hpb⟩ }

section upsertAt

variable {t' : ℕ}

theorem upsertAt_cells {q : K × Cell V} (hq : q ∈ ((s.upsertAt t p).tables t').cells.records) :
    q ∈ (s.tables t').cells.records ∨ q = p := by
  by_cases ht : t' = t
  · subst ht
    rw [LsmState.upsertAt, LsmState.setTable_self] at hq
    exact MemTable.mem_upsert hq
  · rw [LsmState.upsertAt, LsmState.setTable_of_ne _ _ ht] at hq
    exact .inl hq

theorem upsertAt_noOlder : NoOlder (s.tables t').cells ((s.upsertAt t p).tables t').cells := by
  by_cases ht : t' = t
  · subst ht
    rw [LsmState.upsertAt, LsmState.setTable_self]
    exact MemTable.noOlder_upsert
  · rw [LsmState.upsertAt, LsmState.setTable_of_ne _ _ ht]
    exact NoOlder.refl _

theorem upsertAt_floor : ((s.upsertAt t p).tables t').durableFloor = (s.tables t').durableFloor := by
  by_cases ht : t' = t
  · subst ht
    rw [LsmState.upsertAt, LsmState.setTable_self, MemTable.upsert_durableFloor]
  · rw [LsmState.upsertAt, LsmState.setTable_of_ne _ _ ht]

theorem upsertAt_self (h : (s.tables t).durableFloor < p.2.slot) :
    AtLeast ((s.upsertAt t p).tables t).cells p.1 p.2.slot := by
  rw [LsmState.upsertAt, LsmState.setTable_self]
  exact (MemTable.upsert_spec h).2.1

theorem above_upsertAt {n : ℕ} (hp : n < p.2.slot) (h : s.Above n t') :
    (s.upsertAt t p).Above n t' := by
  intro q hq
  rcases upsertAt_cells hq with hq | rfl
  · exact h q hq
  · exact hp

theorem held_upsertAt {taken : List ℕ} {transit : List (K × Cell V)} {k : K} {n : ℕ}
    (h : s.Held taken transit k n) : (s.upsertAt t p).Held taken transit k n := by
  rcases h with h | ⟨t', ht', h⟩ | h
  · exact .inl h
  · exact .inr (.inl ⟨t', ht', upsertAt_noOlder k n h⟩)
  · exact .inr (.inr h)

end upsertAt

theorem not_mem_taken (h : LsmInv s) (hpc : pc ∈ s.flush) (hlate : pc.late = [])
    (ht : t ∈ s.listed ++ s.late) :
    t ∉ pc.taken := by
  have hl : s.late = [] := by rw [LsmState.late, show s.flush = some pc from hpc,
    Option.elim_some, hlate]
  rw [hl, append_nil] at ht
  have htaken : s.taken = pc.taken := by rw [LsmState.taken, show s.flush = some pc from hpc,
    Option.elim_some]
  intro hmem
  exact disjoint_of_nodup_append h.live_nodup ht (htaken ▸ hmem)

theorem applyUpsert (h : LsmInv s) {rest : List (K × Cell V)}
    (ha : s.applies[i]? = some a) (htodo : a.todo = p :: rest) (htable : a.table = some t) :
    LsmInv { s.upsertAt t p with applies := s.applies.set i { a with todo := rest } } := by
  have hmem := mem_of_getElem? ha
  have hcontig := h.contiguous_lt hmem
  obtain ⟨hstarted, hslot⟩ := h.todo a hmem p (by simp [htodo])
  have hlive : t ∈ s.listed ++ s.late := h.refs a hmem (by simp [htodo]) t htable
  have hrest : ∀ q ∈ rest, q ∈ a.todo := fun q hq => by simp [htodo, hq]
  have hbound : s.bound < p.2.slot := by
    have := h.bound_le
    omega
  exact { h with
    task_slots := forall_mem_set h.task_slots (h.task_slots a hmem)
    tasks_nodup := nodup_map_set ha rfl h.tasks_nodup
    todo := forall_mem_set h.todo fun q hq => h.todo a hmem q (hrest q hq)
    floors := fun t' => upsertAt_floor.trans_le (h.floors t')
    listed_floors := fun t' ht' => upsertAt_floor.trans_le (h.listed_floors t' ht')
    refs := forall_mem_set h.refs fun _ => h.refs a hmem (by simp [htodo])
    table_cells := by
      intro t' q hq
      rcases upsertAt_cells hq with hq | rfl
      · exact h.table_cells t' q hq
      · exact hstarted
    listed_new := fun t' ht' => above_upsertAt hbound (h.listed_new t' ht')
    held := by
      intro q hq
      rcases h.held q hq with ⟨b, hb, hqb⟩ | hheld
      · rcases mem_set_or_eq ha hb with rfl | hb
        · rw [htodo] at hqb
          rcases mem_cons.mp hqb with rfl | hqb
          · -- the cell is written now
            refine .inr (.inr (.inl ⟨t, ?_, upsertAt_self (by have := h.floors t; omega)⟩))
            rcases mem_append.mp hlive with ht | ht
            · exact mem_append_left _ ht
            · exact mem_append_right _ (h.late_taken t ht)
          · exact .inl ⟨_, mem_set (List.getElem?_eq_some_iff.mp ha).1 _, hqb⟩
        · exact .inl ⟨b, hb, hqb⟩
      · exact .inr (held_upsertAt hheld)
    pc := by
      intro pc hpc
      refine ok_mono (h.pc pc hpc) rfl rfl rfl le_rfl (fun _ hp => hp) rfl ?_ ?_
      · intro hlate t' ht'
        have hne : t' ≠ t := by
          rintro rfl
          exact h.not_mem_taken hpc hlate hlive ht'
        exact LsmState.setTable_of_ne _ _ hne
      · exact fun n hn t' => above_upsertAt (by omega) }

theorem applyNote (h : LsmInv s) {received : List ℕ} {cur : ℕ} (ha : s.applies[i]? = some a)
    (htodo : a.todo = []) (hreceived : received = a.slot :: s.receivedSlots)
    (hcur : cur = recomputeContiguous received received.length s.contiguousSlot) :
    LsmInv { s with
      applies := s.applies.eraseIdx i
      noted := a.slot :: s.noted
      receivedSlots := received.filter fun n => decide (cur < n)
      contiguousSlot := cur } := by
  subst hreceived hcur
  have hmem := mem_of_getElem? ha
  obtain ⟨hmono, hrec⟩ := recomputeContiguous_spec (a.slot :: s.receivedSlots)
    (a.slot :: s.receivedSlots).length s.contiguousSlot
  have hreceived : ∀ n ∈ a.slot :: s.receivedSlots, n ∈ a.slot :: s.noted := by
    intro n hn
    rcases mem_cons.mp hn with rfl | hn
    · exact mem_cons_self
    · exact mem_cons_of_mem _ (h.received n hn)
  exact { h with
    noted_slots := by
      intro n hn
      rcases mem_cons.mp hn with rfl | hn
      · exact (h.task_slots a hmem).1
      · exact h.noted_slots n hn
    task_slots := by
      intro b hb
      obtain ⟨h1, h2⟩ := h.task_slots b (mem_of_mem_eraseIdx hb)
      refine ⟨h1, fun hn => ?_⟩
      rcases mem_cons.mp hn with heq | hn
      · exact ne_of_mem_eraseIdx h.tasks_nodup ha hb heq
      · exact h2 hn
    tasks_nodup := h.tasks_nodup.sublist ((eraseIdx_sublist _ _).map _)
    todo := fun b hb => h.todo b (mem_of_mem_eraseIdx hb)
    contiguous := by
      intro n hpos hle
      rcases Nat.lt_or_ge s.contiguousSlot n with hlt | hge
      · exact hreceived n (hrec n hlt hle)
      · exact mem_cons_of_mem _ (h.contiguous n hpos hge)
    received := fun n hn => hreceived n (mem_filter.mp hn).1
    bound_le := h.bound_le.trans hmono
    floors := fun t => (h.floors t).trans hmono
    refs := fun b hb => h.refs b (mem_of_mem_eraseIdx hb)
    held := by
      intro p hp
      refine (h.held p hp).imp_left ?_
      rintro ⟨b, hb, hpb⟩
      rcases mem_eraseIdx_or_eq ha hb with rfl | hb
      · rw [htodo] at hpb
        cases hpb
      · exact ⟨b, hb, hpb⟩
    pc := fun pc hpc => ok_mono (h.pc pc hpc) rfl rfl rfl hmono (fun _ hp => hp) rfl
      (fun _ _ _ => rfl) fun _ _ _ hab => hab }

/-! ## Freezing -/

theorem freezeActive_fresh : s.freezeActive.tables s.nextId = { durableFloor := s.lastAppliedSlot } :=
  Function.update_self ..

theorem freezeActive_of_ne (ht : t ≠ s.nextId) : s.freezeActive.tables t = s.tables t :=
  Function.update_of_ne ht ..

theorem mem_listed_freezeActive : t ∈ s.freezeActive.listed ↔ t ∈ s.listed ∨ t = s.nextId := by
  simp [LsmState.listed, LsmState.freezeActive, or_assoc]

theorem freezeActive_cells (hp : p ∈ (s.freezeActive.tables t).cells.records) :
    t ≠ s.nextId ∧ p ∈ (s.tables t).cells.records := by
  by_cases ht : t = s.nextId
  · subst ht
    rw [freezeActive_fresh] at hp
    cases hp
  · rw [freezeActive_of_ne ht] at hp
    exact ⟨ht, hp⟩

theorem freezeActive_floor (s : LsmState K V) (t : ℕ) :
    (s.freezeActive.tables t).durableFloor = s.lastAppliedSlot ∨
    (s.freezeActive.tables t).durableFloor = (s.tables t).durableFloor := by
  by_cases ht : t = s.nextId
  · subst ht
    rw [freezeActive_fresh]
    exact .inl rfl
  · rw [freezeActive_of_ne ht]
    exact .inr rfl

theorem freezeActive_ok (h : LsmInv s) (hpc : pc ∈ s.flush) : pc.Ok s.freezeActive := by
  have hok := h.pc pc hpc
  have habove : ∀ {n t}, s.Above n t → s.freezeActive.Above n t :=
    fun hab p hp => hab p (freezeActive_cells hp).2
  have hlisted : ∀ {t}, t ∈ s.listed → t ∈ s.freezeActive.listed :=
    fun ht => mem_listed_freezeActive.mpr (.inl ht)
  have hmerged : ∀ {cs ts}, s.Merged cs ts → s.freezeActive.Merged cs ts :=
    fun hm t ht p hp => hm t ht p (freezeActive_cells hp).2
  cases pc with
  | freeze | readFinal | readSlot | readActive => trivial
  | take =>
    obtain ⟨h1, h2, h3, -⟩ := hok
    exact ⟨h1, h2, h3, fun hf => absurd hf (append_ne_nil_of_right_ne_nil _ (cons_ne_nil _ _))⟩
  | finish =>
    refine ⟨hok.1, hok.2.imp_right fun hall t ht => ?_⟩
    rcases mem_listed_freezeActive.mp ht with ht | rfl
    · exact habove (hall t ht)
    · exact fun p hp => absurd rfl (freezeActive_cells hp).1
  | merge =>
    exact ⟨hlisted hok.1, hok.2.1, fun t ht p hp => hok.2.2 t ht p (freezeActive_cells hp).2⟩
  | drain => exact ⟨hlisted hok.1, hmerged hok.2⟩
  | leftovers => exact ⟨hlisted hok.1, hmerged hok.2.1, habove hok.2.2⟩
  | relocate => exact ⟨hlisted hok.1, hmerged hok.2.1, hok.2.2⟩
  | raiseFloor pass | storeSlot pass => exact hlisted hok

theorem freezeActive (h : LsmInv s) : LsmInv s.freezeActive := by
  have hfresh : s.nextId ∉ s.listed ++ s.taken := fun hmem => lt_irrefl _ (h.live_lt _ hmem)
  have hlive : ∀ t ∈ s.freezeActive.listed ++ s.freezeActive.taken, t ∈ s.listed ++ s.taken ∨
    t = s.nextId := by
    intro t ht
    rcases mem_append.mp ht with ht | ht
    · exact (mem_listed_freezeActive.mp ht).imp_left (mem_append_left _)
    · exact .inl (mem_append_right _ ht)
  exact { h with
    floors := by
      intro t
      rcases freezeActive_floor s t with hf | hf <;> rw [hf]
      · exact h.last_le.trans h.bound_le
      · exact h.floors t
    listed_floors := by
      intro t ht
      rcases mem_listed_freezeActive.mp ht with ht | rfl
      · rcases freezeActive_floor s t with hf | hf <;> rw [hf]
        · exact h.last_le
        · exact h.listed_floors t ht
      · rw [freezeActive_fresh]
        exact h.last_le
    live_nodup := by
      have heq : s.freezeActive.listed ++ s.freezeActive.taken = s.listed ++ s.nextId :: s.taken := by
        simp [LsmState.listed, LsmState.freezeActive, LsmState.taken]
      rw [heq]
      exact perm_middle.nodup_iff.mpr (nodup_cons.mpr ⟨hfresh, h.live_nodup⟩)
    live_lt := by
      intro t ht
      rcases hlive t ht with ht | rfl
      · exact Nat.lt_succ_of_lt (h.live_lt t ht)
      · exact Nat.lt_succ_self _
    refs := by
      intro a ha hne t ht
      rcases mem_append.mp (h.refs a ha hne t ht) with ht | ht
      · exact mem_append_left _ (mem_listed_freezeActive.mpr (.inl ht))
      · exact mem_append_right _ ht
    table_cells := fun t p hp => h.table_cells t p (freezeActive_cells hp).2
    listed_new := by
      intro t ht p hp
      obtain ⟨hne, hp⟩ := freezeActive_cells hp
      exact h.listed_new t ((mem_listed_freezeActive.mp ht).resolve_right hne) p hp
    held := by
      intro p hp
      refine (h.held p hp).imp_right ?_
      rintro (hl1 | ⟨t, ht, hat⟩ | htr)
      · exact .inl hl1
      · refine .inr (.inl ⟨t, ?_, ?_⟩)
        · rcases mem_append.mp ht with ht | ht
          · exact mem_append_left _ (mem_listed_freezeActive.mpr (.inl ht))
          · exact mem_append_right _ ht
        · rw [freezeActive_of_ne (h.live_lt t ht).ne]
          exact hat
      · exact .inr (.inr htr)
    pc := fun pc hpc => h.freezeActive_ok hpc }

end LsmInv

end CrowDB
