/-
  Chosen slots on their way to the tree (`learner.rs`, `crowdb_tree_engine.rs`).

  A slot with operations is applied.  A NoOp has none and moves the frontier of the tree by
  `force_advance_slot`, which takes every gap below it for NoOps as well.  A flush turns the
  frontier into a floor, so a batch that was in such a gap is refused afterwards.
-/
import CrowDB.Tree.FlushReads

namespace CrowDB

open Lib List Option

variable {K V : Type*} [LinearOrder K]

/-! ## The system -/

/-- `force_advance_slot`.  Every slot up to this one counts as handed over. -/
def LsmState.forceAdvanceSlot (s : LsmState K V) (slot : ℕ) : LsmState K V :=
  let cur := recomputeContiguous s.receivedSlots s.receivedSlots.length (max s.contiguousSlot slot)
  { s with
    contiguousSlot := cur
    receivedSlots := s.receivedSlots.filter fun n => decide (cur < n)
    slots := s.slots ++ List.range' 1 slot
    noted := List.range' 1 slot ++ s.noted }

/-- The tree, and the slots that the learner has handed over. -/
structure EngineState (K V : Type*) [LinearOrder K] where
  tree : LsmState K V := {}
  handed : List ℕ := []

/-- A slot is handed over, or the tree goes on. -/
inductive EngineEvent (K V : Type*) where
  | handOver (slot : ℕ)
  | tree (e : LsmEvent K V)

variable {e : LsmEvent K V} {opt : MemOptions}

namespace EngineState

variable (chosen : ℕ → List (K × Option V))

/-- `apply_entry`: what is chosen for the slot is decoded; with no operations it is a NoOp. -/
def handOver (top : ℕ) (s : EngineState K V) (slot : ℕ) :
    Option (EngineState K V) :=
  if slot = 0 ∨ top < slot ∨ slot ∈ s.handed then none
  else some
    { tree :=
        if (chosen slot).isEmpty then
          s.tree.forceAdvanceSlot slot else s.tree.applyStart slot (chosen slot)
      handed := slot :: s.handed }

/-- One step. -/
def step (opt : MemOptions) (chosen : ℕ → List (K × Option V)) (top : ℕ) (s : EngineState K V) :
    EngineEvent K V → Option (EngineState K V)
  | .handOver slot => s.handOver chosen top slot
  | .tree (.applyStart _ _) => none
  | .tree e => (s.tree.step opt e).map fun t => { s with tree := t }

theorem step_tree {chosen : ℕ → List (K × Option V)} {top : ℕ} {s s' : EngineState K V}
    (hs : s.step opt chosen top (.tree e) = some s') :
    (∀ slot ops, e ≠ .applyStart slot ops) ∧ ∃ t, s.tree.step opt e = some t ∧
    { s with tree := t } = s' := by
  have hmap : (∀ slot ops, e ≠ .applyStart slot ops) →
      s.step opt chosen top (.tree e) = (s.tree.step opt e).map fun t => { s with tree := t } := by
    intro hne
    cases e with
    | applyStart slot ops => exact absurd rfl (hne slot ops)
    | _ => rfl
  by_cases hne : ∀ slot ops, e ≠ .applyStart slot ops
  · rw [hmap hne] at hs
    exact ⟨hne, map_eq_some_iff.mp hs⟩
  · push Not at hne
    obtain ⟨slot, ops, rfl⟩ := hne
    cases hs

/-! ## The conditions -/

variable (s : EngineState K V)

/-- The batches of lower slots have been applied before a NoOp is handed over. -/
def InOrder : EngineEvent K V → Prop
  | .handOver slot => (chosen slot).isEmpty → ∀ n < slot, 0 < n → (chosen n).isEmpty = false →
      n ∈ s.handed ∧ ∀ a ∈ s.tree.applies, a.slot ≠ n
  | .tree _ => True

/-- `LsmState.Settled` of the tree. -/
def Settled : EngineEvent K V → Prop
  | .handOver _ => True
  | .tree e => s.tree.Settled e

/-- No flush at a hand-over. -/
def FlushAlone : EngineEvent K V → Prop
  | .handOver _ => s.tree.flush.isNone
  | .tree e => s.tree.FlushAlone e

instance (chosen : ℕ → List (K × Option V)) (s : EngineState K V) (e : EngineEvent K V) :
    Decidable (s.InOrder chosen e) :=
  match e with
  | .handOver _ => inferInstanceAs (Decidable (_ → _))
  | .tree _ => isTrue trivial

instance (s : EngineState K V) (e : EngineEvent K V) : Decidable (s.Settled e) :=
  match e with
  | .handOver _ => isTrue trivial
  | .tree e => inferInstanceAs (Decidable (s.tree.Settled e))

instance (s : EngineState K V) (e : EngineEvent K V) : Decidable (s.FlushAlone e) :=
  match e with
  | .handOver _ => inferInstanceAs (Decidable (_ = _))
  | .tree e => inferInstanceAs (Decidable (s.tree.FlushAlone e))

end EngineState

/-! ## What the chosen slots amount to -/

/-- The cell of the highest slot up to `n` whose batch has the key. -/
def foldBatches (chosen : ℕ → List (K × Option V)) : ℕ → K → Option (Cell V)
  | 0, _ => none
  | n + 1, k => ((latest (n + 1) (chosen (n + 1))).get k).or (foldBatches chosen n k)

variable {chosen : ℕ → List (K × Option V)}

theorem foldBatches_eq_none {n : ℕ} {k : K} (h : foldBatches chosen n k = none) {m : ℕ} (hpos : 0 < m)
    (hle : m ≤ n) : (latest m (chosen m)).get k = none := by
  induction n with
  | zero => omega
  | succ n ih =>
    obtain ⟨hlast, hrest⟩ := or_eq_none_iff.mp h
    rcases Nat.lt_or_ge n m with hlt | hge
    · rw [show m = n + 1 by omega]
      exact hlast
    · exact ih hrest hge

theorem foldBatches_eq_some {n : ℕ} {k : K} {c : Cell V} (h : foldBatches chosen n k = some c) :
    (0 < c.slot ∧ c.slot ≤ n) ∧ (k, c) ∈ (latest c.slot (chosen c.slot)).records ∧
      ∀ m, c.slot < m → m ≤ n → (latest m (chosen m)).get k = none := by
  induction n with
  | zero => cases h
  | succ n ih =>
    rw [foldBatches] at h
    cases hlast : (latest (n + 1) (chosen (n + 1))).get k with
    | some =>
      rw [hlast, some_or] at h
      cases h
      have hmem := RecordStore.mem_of_get hlast
      have hslot : c.slot = n + 1 := latest_slot hmem
      refine ⟨by omega, hslot ▸ hmem, fun m hlt hle => ?_⟩
      omega
    | none =>
      rw [hlast, none_or] at h
      obtain ⟨hbound, hmem, hrest⟩ := ih h
      refine ⟨by omega, hmem, fun m hlt hle => ?_⟩
      rcases Nat.lt_or_ge n m with hgt | hge
      · rw [show m = n + 1 by omega]
        exact hlast
      · exact hrest m hlt hge

/-! ## A NoOp in order -/

/-- **A NoOp** above every apply that is running keeps the invariant of the tree. -/
theorem LsmInv.forceAdvanceSlot {s : LsmState K V} (h : LsmInv s) {slot : ℕ}
    (habove : ∀ a ∈ s.applies, slot < a.slot) : LsmInv (s.forceAdvanceSlot slot) := by
  obtain ⟨hmono, hrec⟩ := recomputeContiguous_spec s.receivedSlots s.receivedSlots.length
    (max s.contiguousSlot slot)
  have hge := (le_max_left s.contiguousSlot slot).trans hmono
  exact { h with
    slots_pos := by
      intro n hn
      rcases mem_append.mp hn with hn | hn
      · exact h.slots_pos n hn
      · exact (mem_range'_1.mp hn).1
    started_slots := fun p hp => mem_append_left _ (h.started_slots p hp)
    noted_slots := by
      intro n hn
      rcases mem_append.mp hn with hn | hn
      · exact mem_append_right _ hn
      · exact mem_append_left _ (h.noted_slots n hn)
    task_slots := by
      intro a ha
      obtain ⟨h1, h2⟩ := h.task_slots a ha
      refine ⟨mem_append_left _ h1, fun hn => ?_⟩
      rcases mem_append.mp hn with hn | hn
      · have := (mem_range'_1.mp hn).2
        have := habove a ha
        omega
      · exact h2 hn
    contiguous := by
      intro n hpos hle
      rcases Nat.lt_or_ge (max s.contiguousSlot slot) n with hlt | hge'
      · exact mem_append_right _ (h.received n (hrec n hlt hle))
      · by_cases hc : n ≤ s.contiguousSlot
        · exact mem_append_right _ (h.contiguous n hpos hc)
        · exact mem_append_left _ (mem_range'_1.mpr (by omega))
    received := fun n hn => mem_append_right _ (h.received n (mem_filter.mp hn).1)
    bound_le := h.bound_le.trans hge
    floors := fun t => (h.floors t).trans hge
    pc := fun pc hpc => LsmInv.ok_mono (h.pc pc hpc) rfl rfl rfl hge (fun _ hp => hp) rfl
      (fun _ _ _ => rfl) fun _ _ _ ha => ha }

/-! ## What steps of the tree leave alone -/

theorem LsmState.flushStep_frame (opt : MemOptions) (s : LsmState K V) (pc : FlushPc K V) :
    (s.flushStep opt pc).started = s.started ∧ (s.flushStep opt pc).slots = s.slots ∧
      (s.flushStep opt pc).applies = s.applies := by
  cases pc with
  | freeze | take | merge =>
    simp only [LsmState.flushStep]
    split <;> exact ⟨rfl, rfl, rfl⟩
  | drain _ rest => cases rest <;> exact ⟨rfl, rfl, rfl⟩
  | relocate _ cells => cases cells <;> exact ⟨rfl, rfl, rfl⟩
  | readFinal | readSlot | readActive | leftovers | raiseFloor | storeSlot | finish =>
      exact ⟨rfl, rfl, rfl⟩

theorem LsmState.step_frame {s s' : LsmState K V} (hne : ∀ slot ops, e ≠ .applyStart slot ops)
    (hs : s.step opt e = some s') :
    s'.started = s.started ∧ s'.slots = s.slots ∧ ∀ a ∈ s'.applies, ∃ b ∈ s.applies,
      b.slot = a.slot := by
  have hset : ∀ {i : ℕ} {b : ApplyTask K V}, s.applies[i]? = some b → ∀ b' :
    ApplyTask K V, b'.slot = b.slot →
      ∀ a ∈ s.applies.set i b', ∃ b ∈ s.applies, b.slot = a.slot := by
    intro i b hb b' hslot
    exact forall_mem_set (fun a ha => ⟨a, ha, rfl⟩) ⟨b, mem_of_getElem? hb, hslot.symm⟩
  cases LsmState.steps_of_step hs with
  | applyStart => exact absurd rfl (hne _ _)
  | readActive ha | upsert ha => exact ⟨rfl, rfl, hset ha _ rfl⟩
  | note => exact ⟨rfl, rfl, fun a ha => ⟨a, mem_of_mem_eraseIdx ha, rfl⟩⟩
  | autoFreeze | flushStart | flushPublish | getStart | probe | answer =>
      exact ⟨rfl, rfl, fun a ha => ⟨a, ha, rfl⟩⟩
  | flushStep =>
    obtain ⟨h1, h2, h3⟩ := LsmState.flushStep_frame opt s _
    exact ⟨h1, h2, fun a ha => ⟨a, h3 ▸ ha, rfl⟩⟩

/-! ## The invariant -/

/-- The operations in the tree are those of the batches handed over. -/
structure EngineInv (chosen : ℕ → List (K × Option V)) (top : ℕ) (s : EngineState K V) : Prop where
  inv : LsmInv s.tree
  handed : ∀ n ∈ s.handed, 0 < n ∧ n ≤ top
  slots : ∀ n ∈ s.tree.slots, n ∈ s.handed ∨ chosen n = []
  tasks : ∀ a ∈ s.tree.applies, a.slot ∈ s.handed ∧ chosen a.slot ≠ []
  started : ∀ p ∈ s.tree.started,
    p.2.slot ∈ s.handed ∧ p ∈ (latest p.2.slot (chosen p.2.slot)).records
  covered : ∀ n ∈ s.handed, ∀ p ∈ (latest n (chosen n)).records, p ∈ s.tree.started

namespace EngineInv

variable {top : ℕ} {s s' : EngineState K V}

theorem init : EngineInv chosen top ({} : EngineState K V) where
  inv := LsmInv.init
  handed := by simp
  slots := by simp
  tasks := by simp
  started := by simp
  covered := by simp

variable (h : EngineInv chosen top s) {slot : ℕ}
include h

theorem handOver_noop (hslot : 0 < slot ∧ slot ≤ top)
    (hnew : slot ∉ s.handed) (hempty : chosen slot = [])
    (hlow : ∀ n < slot, 0 < n → (chosen n).isEmpty = false → n ∈ s.handed ∧
      ∀ a ∈ s.tree.applies, a.slot ≠ n) :
    EngineInv chosen top { tree := s.tree.forceAdvanceSlot slot, handed := slot :: s.handed } := by
  have habove : ∀ a ∈ s.tree.applies, slot < a.slot := by
    intro a ha
    obtain ⟨hmem, hne⟩ := h.tasks a ha
    rcases Nat.lt_trichotomy slot a.slot with hlt | heq | hgt
    · exact hlt
    · exact absurd (heq ▸ hmem) hnew
    · exact absurd rfl ((hlow a.slot hgt (h.handed _ hmem).1 (isEmpty_eq_false_iff.mpr hne)).2 a ha)
  refine ⟨h.inv.forceAdvanceSlot habove, ?_, ?_, ?_, ?_, ?_⟩
  · intro n hn
    rcases mem_cons.mp hn with rfl | hn
    · exact hslot
    · exact h.handed n hn
  · intro n hn
    rcases mem_append.mp hn with hn | hn
    · exact (h.slots n hn).imp_left (mem_cons_of_mem slot)
    · -- a slot below the NoOp is handed over, or it is a NoOp too
      obtain ⟨hpos, hlt⟩ := mem_range'_1.mp hn
      rcases Nat.lt_or_ge n slot with hlt' | hge
      · by_cases hn0 : chosen n = []
        · exact .inr hn0
        · exact .inl (mem_cons_of_mem slot (hlow n hlt' hpos (isEmpty_eq_false_iff.mpr hn0)).1)
      · rw [show n = slot by omega]
        exact .inr hempty
  · exact fun a ha => ⟨mem_cons_of_mem slot (h.tasks a ha).1, (h.tasks a ha).2⟩
  · exact fun p hp => ⟨mem_cons_of_mem slot (h.started p hp).1, (h.started p hp).2⟩
  · intro n hn p hp
    rcases mem_cons.mp hn with rfl | hn
    · rw [hempty] at hp
      cases hp
    · exact h.covered n hn p hp

theorem handOver_batch (hslot : 0 < slot ∧ slot ≤ top)
    (hnew : slot ∉ s.handed) (hbatch : chosen slot ≠ []) :
    EngineInv chosen top
      { tree := s.tree.applyStart slot (chosen slot), handed := slot :: s.handed } := by
  have hfresh : slot ∉ s.tree.slots := fun hmem => (h.slots slot hmem).elim hnew hbatch
  refine ⟨h.inv.applyStart ⟨hslot.1, hfresh⟩, ?_, ?_, ?_, ?_, ?_⟩
  · intro n hn
    rcases mem_cons.mp hn with rfl | hn
    · exact hslot
    · exact h.handed n hn
  · exact forall_mem_concat (fun n hn => (h.slots n hn).imp_left (mem_cons_of_mem slot))
      (.inl mem_cons_self)
  · exact forall_mem_concat (fun a ha => ⟨mem_cons_of_mem slot (h.tasks a ha).1, (h.tasks a ha).2⟩)
      ⟨mem_cons_self, hbatch⟩
  · intro p hp
    rcases mem_append.mp hp with hp | hp
    · exact ⟨mem_cons_of_mem slot (h.started p hp).1, (h.started p hp).2⟩
    · rw [latest_slot hp]
      exact ⟨mem_cons_self, hp⟩
  · intro n hn p hp
    rcases mem_cons.mp hn with rfl | hn
    · exact mem_append_right _ hp
    · exact mem_append_left _ (h.covered n hn p hp)

theorem treeStep {t : LsmState K V} (hne : ∀ slot ops, e ≠ .applyStart slot ops)
    (hset : s.tree.Settled e) (hs : s.tree.step opt e = some t) :
    EngineInv chosen top { s with tree := t } := by
  obtain ⟨hstarted, hslots, htasks⟩ := LsmState.step_frame hne hs
  have hfresh : s.tree.Fresh e := by
    cases e with
    | applyStart slot ops => exact absurd rfl (hne slot ops)
    | _ => trivial
  refine ⟨h.inv.step hfresh hset hs, h.handed, ?_, ?_, ?_, ?_⟩
  · intro n hn
    exact h.slots n (hslots ▸ hn)
  · intro a ha
    obtain ⟨b, hb, heq⟩ := htasks a ha
    rw [← heq]
    exact h.tasks b hb
  · intro p hp
    exact h.started p (hstarted ▸ hp)
  · intro n hn p hp
    rw [hstarted]
    exact h.covered n hn p hp

theorem step {e : EngineEvent K V} (horder : s.InOrder chosen e) (hset : s.Settled e)
    (hs : s.step opt chosen top e = some s') : EngineInv chosen top s' := by
  cases e with
  | handOver =>
    simp only [EngineState.step, EngineState.handOver] at hs
    split at hs
    · cases hs
    · rename_i hguard
      cases hs
      simp only [not_or, Nat.not_lt] at hguard
      obtain ⟨hpos, hle, hnew⟩ := hguard
      split
      · rename_i hempty
        exact h.handOver_noop ⟨Nat.pos_of_ne_zero hpos, hle⟩ hnew (isEmpty_iff.mp hempty)
          (horder hempty)
      · rename_i hbatch
        exact h.handOver_batch ⟨Nat.pos_of_ne_zero hpos, hle⟩ hnew fun hnil =>
          hbatch (isEmpty_iff.mpr hnil)
  | tree =>
    obtain ⟨hne, t, ht, rfl⟩ := EngineState.step_tree hs
    exact h.treeStep hne hset ht

theorem get_eq_fold (hall : ∀ n, 0 < n → n ≤ top → n ∈ s.handed)
    (happlies : s.tree.applies = []) (hflush : s.tree.flush = none) (k : K) :
    s.tree.get k = foldBatches chosen top k := by
  have hhigh := LsmState.get_highest h.inv happlies hflush k
  have hin : ∀ {n : ℕ} {c : Cell V}, 0 < n → n ≤ top → (latest n (chosen n)).get k = some c →
      (k, c) ∈ s.tree.started ∧ c.slot = n := by
    intro n c hpos hle hget
    have hmem := RecordStore.mem_of_get hget
    exact ⟨h.covered n (hall n hpos hle) _ hmem, latest_slot hmem⟩
  cases hget : s.tree.get k with
  | none =>
    rw [hget] at hhigh
    cases hfold : foldBatches chosen top k with
    | none => rfl
    | some =>
      obtain ⟨⟨hpos, hle⟩, hmem, -⟩ := foldBatches_eq_some hfold
      exact absurd rfl (hhigh _ (hin hpos hle (RecordStore.get_eq_some_iff.mpr hmem)).1)
  | some c =>
    rw [hget] at hhigh
    obtain ⟨hstarted, hmax⟩ := hhigh
    obtain ⟨hhanded, hmem⟩ := h.started _ hstarted
    obtain ⟨hpos, hle⟩ := h.handed _ hhanded
    have hc := RecordStore.get_eq_some_iff.mpr hmem
    cases hfold : foldBatches chosen top k with
    | none => simp [foldBatches_eq_none hfold hpos hle] at hc
    | some d =>
      obtain ⟨⟨hdpos, hdle⟩, hdmem, hnone⟩ := foldBatches_eq_some hfold
      have hd := RecordStore.get_eq_some_iff.mpr hdmem
      have hdc : d.slot ≤ c.slot := hmax (k, d) (hin hdpos hdle hd).1 rfl
      have hslot : c.slot = d.slot := by
        by_contra hne
        simp [hnone c.slot (by omega) hle] at hc
      rw [hslot] at hc
      rw [← hc, hd]

end EngineInv

namespace EngineState

/-- **NoOps lose no write**: the tree has the highest-slot-wins fold of the batches, if no NoOp
    overtook a lower batch and no apply overlaps a flush, or what each flush reads is settled. -/
theorem content_eq_fold_of_reach {opt : MemOptions} {top : ℕ} {s : EngineState K V}
    (h : Reach (step opt chosen top) (fun s e => s.InOrder chosen e ∧ s.FlushAlone e) {} s ∨
      Reach (step opt chosen top) (fun s e => s.InOrder chosen e ∧ s.Settled e) {} s)
    (hall : ∀ n, 0 < n → n ≤ top → n ∈ s.handed) (happlies : s.tree.applies = [])
    (hflush : s.tree.flush = none) (k : K) : s.tree.get k = foldBatches chosen top k := by
  have hinv : EngineInv chosen top s := by
    rcases h with h | h
    · -- a flush that runs alone reads what is settled
      have hboth : EngineInv chosen top s ∧ AloneInv s.tree := by
        refine h.invariant (P := fun s => EngineInv chosen top s ∧ AloneInv s.tree)
          ⟨EngineInv.init, AloneInv.of_none rfl⟩ ?_
        rintro s e s' ⟨hi, ha⟩ ⟨horder, halone⟩ hs
        cases e with
        | handOver =>
          refine ⟨hi.step horder trivial hs, AloneInv.of_none ?_⟩
          simp only [step, handOver] at hs
          split at hs
          · cases hs
          · cases hs
            have hnone := isNone_iff_eq_none.mp halone
            split <;> exact hnone
        | tree e =>
          obtain ⟨-, t, ht, rfl⟩ := step_tree hs
          exact ⟨hi.step horder (ha.settled e) hs, ha.step halone ht⟩
      exact hboth.1
    · exact h.invariant EngineInv.init fun hi hok hs => hi.step hok.1 hok.2 hs
  exact hinv.get_eq_fold hall happlies hflush k

/-- Slot 1 writes the keys 7 and 8, slots 2 and 3 are NoOps, slot 4 writes key 8 and deletes key 9. -/
def twoNoOps (slot : ℕ) : List (ℕ × Option ℕ) :=
  if slot = 1 then [(7, some 1), (8, some 1)] else if slot = 4 then [(8, some 4), (9, none)] else []

/-- The later batch first, then the higher NoOp before the lower one, and a flush. -/
theorem content_eq_fold_twoNoOps :
    ∃ s : EngineState ℕ ℕ, Reach (step ⟨2, le_rfl⟩ twoNoOps 4)
        (fun s e => s.InOrder twoNoOps e ∧ s.FlushAlone e) {} s ∧
      s.tree.get 8 = some ⟨4, some 4⟩ ∧ s.tree.lastAppliedSlot = 4 ∧ s.tree.get 7 =
        foldBatches twoNoOps 4 7 := by
  exact Reach.exists_imp_of_run (fun s => s.tree.applies.isEmpty ∧ s.tree.flush.isNone ∧ (∀ n < 5,
      0 < n → n ∈ s.handed) ∧ s.tree.get 8 = some ⟨4, some 4⟩ ∧ s.tree.lastAppliedSlot = 4)
    ([.handOver 4, .tree (.applyReadActive 0), .tree (.applyUpsert 0), .tree (.applyUpsert 0),
        .tree (.applyNote 0), .handOver 1, .tree (.applyReadActive 0), .tree (.applyUpsert 0),
          .tree (.applyUpsert 0),
        .tree (.applyNote 0), .handOver 3, .handOver 2,
          .tree .flushStart] ++ replicate 17 (.tree .flushStep))
      (by decide +kernel) fun s hs ⟨ha, hf, hall, h8, hlast⟩ =>
        ⟨h8, hlast, content_eq_fold_of_reach (.inl hs)
    (fun n hpos hle => hall n (Nat.lt_succ_of_le hle) hpos) (isEmpty_iff.mp ha)
      (isNone_iff_eq_none.mp hf) 7⟩

/-- A NoOp of slot 3 moves the frontier over slot 1; a flush of slot 4 makes it the floor, and slot
    1 is refused. -/
theorem content_lost_below_noop :
    ∃ s : EngineState ℕ ℕ, Reach (step ⟨2, le_rfl⟩ twoNoOps 4) FlushAlone {} s ∧
      (∀ n < 5, 0 < n → n ∈ s.handed) ∧ s.tree.applies.isEmpty ∧ s.tree.flush.isNone ∧
      s.tree.get 7 = none ∧ foldBatches twoNoOps 4 7 = some ⟨1, some 1⟩ := by
  exact Reach.exists_of_run
    ([.handOver 3, .handOver 4, .tree (.applyReadActive 0), .tree (.applyUpsert 0),
      .tree (.applyUpsert 0),
      .tree (.applyNote 0), .tree .flushStart] ++ replicate 16 (.tree .flushStep) ++
      [.handOver 1, .tree (.applyReadActive 0), .tree (.applyUpsert 0), .tree (.applyUpsert 0),
        .tree (.applyNote 0), .handOver 2]) (by decide +kernel)

end EngineState

end CrowDB
