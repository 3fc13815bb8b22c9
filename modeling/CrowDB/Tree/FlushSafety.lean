/-
  The watermark of a flush is honest, and no applied write is lost or shadowed.

  Both rest on what the flush reads at different moments agreeing with each other.  A
  watermark is honest if moreover no operation at or below it is hidden under a later cell of
  the same memtable, which the flush leaves out.
-/
import CrowDB.Tree.FlushSteps

namespace CrowDB

open Lib List Option

variable {K V : Type*} [LinearOrder K]

/-! ## The watermark -/

namespace LsmState

variable (s : LsmState K V)

/-- The operations up to slot `n` are in the tree, or later ones of their keys. -/
def Durable (n : ℕ) : Prop := ∀ p ∈ s.started, p.2.slot ≤ n → AtLeast s.l1 p.1 p.2.slot

/-- The same, or they are in the memtables `ts` and will be merged. -/
def Drainable (cs : ℕ) (ts : List ℕ) : Prop :=
  ∀ p ∈ s.started, p.2.slot ≤ cs → AtLeast s.l1 p.1 p.2.slot ∨
    ∃ t ∈ ts, ∃ q ∈ (s.tables t).cells.records, q.1 = p.1 ∧ p.2.slot ≤ q.2.slot ∧ q.2.slot ≤ cs

/-- No operation up to the contiguous slot that the tree does not have yet is under a later cell
    of its key. -/
def NoneHidden : Prop := ∀ t ∈ s.listed ++ s.taken, ∀ p ∈
      (s.tables t).cells.records, s.contiguousSlot < p.2.slot →
    ∀ q ∈ s.started, q.1 = p.1 → q.2.slot ≤ s.contiguousSlot → AtLeast s.l1 q.1 q.2.slot
deriving Decidable

end LsmState

variable (s : LsmState K V)

/-- Nothing is hidden when a flush reads the contiguous slot. -/
def FlushPc.Unshadowed : FlushPc K V → Prop
  | .readFinal => s.frozen = [] → s.NoneHidden
  | .readSlot _ _ _ => s.NoneHidden
  | _ => True

/-- `FlushPc.Unshadowed` at a flush step. -/
def LsmState.Unshadowed : LsmEvent K V → Prop
  | .flushStep => ∀ pc ∈ s.flush, pc.Unshadowed s
  | _ => True

instance (s : LsmState K V) (pc : FlushPc K V) : Decidable (pc.Unshadowed s) :=
  match pc with
  | .readFinal => inferInstanceAs (Decidable (_ → _))
  | .readSlot _ _ _ => inferInstanceAs (Decidable s.NoneHidden)
  | .freeze _ | .take _ _ _ | .readActive _ _ _ _ | .merge _ _ _ | .drain _ _ | .leftovers _ _ _
  | .relocate _ _ _ | .raiseFloor _ | .storeSlot _ | .finish _ _ => isTrue trivial

instance (s : LsmState K V) (e : LsmEvent K V) : Decidable (s.Unshadowed e) :=
  match e with
  | .flushStep => inferInstanceAs (Decidable (∀ _ ∈ _, _))
  | .applyStart _ _ | .applyReadActive _ | .applyUpsert _ | .applyNote _ | .autoFreeze
  | .flushStart | .flushPublish | .getStart _ | .getStep _ => isTrue trivial

/-- What the flush has promised at each point. -/
def FlushPc.Promised : FlushPc K V → Prop
  | .freeze _ | .readFinal | .readSlot _ _ _ => True
  | .take _ finalCs _ => s.frozen = [] → s.Durable finalCs
  | .finish finalCs _ => finalCs ≤ s.lastAppliedSlot ∨ s.Durable finalCs
  | .readActive _ _ toDrain cs => s.Drainable cs toDrain
  | .merge pass _ _ => s.Drainable pass.cs pass.toDrain
  | .drain pass _ | .leftovers pass _ _ | .relocate pass _ _ | .raiseFloor pass
  | .storeSlot pass => s.Durable pass.cs

/-- The watermark is honest, and what the flush will store there as well. -/
structure Watermark (s : LsmState K V) : Prop where
  durable : s.Durable s.lastAppliedSlot
  promised : ∀ pc ∈ s.flush, pc.Promised s

namespace Watermark

variable {s s' : LsmState K V} {pc : FlushPc K V} {opt : MemOptions} {p : K × Cell V}

theorem init : Watermark ({} : LsmState K V) where
  durable := by simp [LsmState.Durable]
  promised := by simp

theorem durable_mono {n : ℕ} (h : s.Durable n) (hl1 : NoOlder s.l1 s'.l1)
    (hstarted : ∀ p ∈ s'.started, p.2.slot ≤ n → p ∈ s.started) : s'.Durable n :=
  fun p hp hle => hl1 _ _ (h p (hstarted p hp hle) hle)

theorem drainable_mono {cs : ℕ} {ts : List ℕ} (h : s.Drainable cs ts) (hl1 : NoOlder s.l1 s'.l1)
    (hstarted : ∀ p ∈ s'.started, p.2.slot ≤ cs → p ∈ s.started)
    (htables : ∀ t ∈ ts, s'.tables t = s.tables t) : s'.Drainable cs ts := by
  intro p hp hle
  rcases h p (hstarted p hp hle) hle with h | ⟨t, ht, h⟩
  · exact .inl (hl1 _ _ h)
  · refine .inr ⟨t, ht, ?_⟩
    rw [htables t ht]
    exact h

theorem of_other (h : Watermark s) (hinv : LsmInv s) (hflush : s'.flush = s.flush)
    (hlast : s'.lastAppliedSlot = s.lastAppliedSlot) (hfrozen : s'.frozen = [] → s.frozen = [])
    (hl1 : s'.l1 = s.l1) (hstarted : ∀ p ∈ s'.started, p.2.slot ≤ s.contiguousSlot → p ∈ s.started)
    (htables : ∀ pc ∈ s.flush, pc.late = [] → ∀ t ∈ pc.taken, s'.tables t = s.tables t) :
    Watermark s' := by
  have hnoOlder : NoOlder s.l1 s'.l1 := hl1 ▸ NoOlder.refl _
  have hmono : ∀ {n}, n ≤ s.contiguousSlot → s.Durable n → s'.Durable n := fun hn hd =>
    durable_mono hd hnoOlder fun p hp hle => hstarted p hp (hle.trans hn)
  refine ⟨?_, fun pc hpc => ?_⟩
  · rw [hlast]
    exact hmono (hinv.last_le.trans hinv.bound_le) h.durable
  · rw [hflush] at hpc
    have hp := h.promised pc hpc
    have hcs : pc.cs.getD s.lastAppliedSlot ≤ s.contiguousSlot := (hinv.atPc hpc).bound_le
    have hdrain : ∀ {cs ts}, cs ≤ s.contiguousSlot → (∀ t ∈ ts, s'.tables t = s.tables t) →
        s.Drainable cs ts → s'.Drainable cs ts := fun hle hts hd =>
      drainable_mono hd hnoOlder (fun p hp hpc => hstarted p hp (hpc.trans hle)) hts
    cases pc with
    | freeze | readFinal | readSlot => trivial
    | take => exact fun hf => hmono (hinv.pc _ hpc).2.1 (hp (hfrozen hf))
    | finish =>
      refine Or.imp (fun hle => ?_) (hmono (hinv.pc _ hpc).1) hp
      rw [hlast]
      exact hle
    | readActive | merge => exact hdrain hcs (htables _ hpc rfl) hp
    | drain | leftovers | relocate | raiseFloor | storeSlot => exact hmono hcs hp

theorem held_of_le (hinv : LsmInv s) (hp : p ∈ s.started) (hle : p.2.slot ≤ s.contiguousSlot) :
    s.Held s.taken s.transit p.1 p.2.slot := by
  rcases hinv.held p hp with ⟨a, ha, hpa⟩ | hheld
  · have := hinv.contiguous_lt ha
    have := (hinv.todo a ha p hpa).2
    omega
  · exact hheld

/-- With nothing hidden, an operation up to the contiguous slot is in the tree or in a memtable that
    is drained. -/
theorem found_of_noneHidden (hinv : LsmInv s) (hhidden : s.NoneHidden) (htransit : s.transit = [])
    (hp : p ∈ s.started) (hle : p.2.slot ≤ s.contiguousSlot) :
    AtLeast s.l1 p.1 p.2.slot ∨ ∃ t ∈ s.listed ++ s.taken, ∃ q ∈ (s.tables t).cells.records,
      q.1 = p.1 ∧ p.2.slot ≤ q.2.slot ∧ q.2.slot ≤ s.contiguousSlot := by
  rcases held_of_le hinv hp hle with h | ⟨t, ht, q, hq, hk, hn⟩ | ⟨q, hq, -⟩
  · exact .inl h
  · rcases Nat.lt_or_ge s.contiguousSlot q.2.slot with hlt | hge
    · exact .inl (hhidden t ht q hq hlt p hp hk.symm hle)
    · exact .inr ⟨t, ht, q, hq, hk, hn, hge⟩
  · rw [htransit] at hq
    cases hq

theorem of_pc (hdurable : s.Durable s.lastAppliedSlot) (hpc : s.flush = some pc)
    (h : pc.Promised s) : Watermark s := by
  refine ⟨hdurable, ?_⟩
  rw [hpc]
  rintro _ ⟨⟩
  exact h

theorem flush_readFinal (h : Watermark s) (hinv : LsmInv s) (hpc : s.flush = some .readFinal)
    (hset : s.frozen = [] → s.Above s.contiguousSlot s.active) (hun : s.frozen = [] → s.NoneHidden) :
    Watermark { s with flush := some (.take 0 s.contiguousSlot false) } := by
  refine ⟨h.durable, ?_⟩
  rintro _ ⟨⟩ hfrozen p hp hle
  have htaken : s.taken = [] := by simp [LsmState.taken, hpc, FlushPc.taken]
  have htransit : s.transit = [] := by simp [LsmState.transit, hpc, FlushPc.transit]
  rcases found_of_noneHidden hinv (hun hfrozen) htransit hp hle with h | ⟨t, ht, q, hq, -, -, hge⟩
  · exact h
  · rw [htaken, LsmState.listed, show s.frozen = [] from hfrozen] at ht
    simp only [nil_append, append_nil, mem_singleton] at ht
    rw [ht] at hq
    exact absurd (hset hfrozen q hq) (Nat.not_lt.mpr hge)

theorem flush_readSlot (h : Watermark s) (hinv : LsmInv s) {iter : ℕ} {wroteAny : Bool}
    {toDrain : List ℕ}
    (hpc : s.flush = some (.readSlot iter wroteAny toDrain))
    (hset : ∀ t ∈ s.listed, s.Above s.contiguousSlot t) (hun : s.NoneHidden) :
    Watermark { s with flush := some (.readActive iter wroteAny toDrain s.contiguousSlot) } := by
  refine ⟨h.durable, ?_⟩
  rintro _ ⟨⟩ p hp hle
  have htaken : s.taken = toDrain := by simp [LsmState.taken, hpc, FlushPc.taken]
  have htransit : s.transit = [] := by simp [LsmState.transit, hpc, FlushPc.transit]
  rcases found_of_noneHidden hinv hun htransit hp hle with h | ⟨t, ht, q, hq, hk, hn, hge⟩
  · exact .inl h
  · rw [htaken] at ht
    rcases mem_append.mp ht with ht | ht
    · exact absurd (hset t ht q hq) (Nat.not_lt.mpr hge)
    · exact .inr ⟨t, ht, q, hq, hk, hn, hge⟩

theorem flush_merge_end (h : Watermark s) (hinv : LsmInv s) {pass : FlushPass} {last : Option K}
    {group : List (K × Cell V)} (hpc : s.flush = some (.merge pass last group))
    (hnext : LsmState.nextEntry (pass.toDrain.map s.tables) pass.cs last = none) :
    Watermark { s with l1 := publishGroup s.l1 group, flush := some (.drain pass pass.toDrain) } := by
  have hnoOlder := (publishGroup_spec s.l1 group).1
  obtain ⟨-, hmerged⟩ := (hinv.flush_merge_end hpc hnext).pc _ rfl
  refine ⟨durable_mono h.durable hnoOlder fun p hp _ => hp, ?_⟩
  rintro _ ⟨⟩ p hp hle
  rcases h.promised _ hpc p hp hle with h | ⟨t, ht, q, hq, hk, hn, hge⟩
  · exact hnoOlder _ _ h
  · obtain ⟨r, hr, hrk, hrn⟩ := hmerged t ht q hq hge
    exact ⟨r, hr, hrk.trans hk, hn.trans hrn⟩

theorem flushStep (h : Watermark s) (hinv : LsmInv s)
    (hpc : s.flush = some pc) (hset : pc.Settled s) (hun : pc.Unshadowed s) :
    Watermark (s.flushStep opt pc) := by
  have hp := h.promised pc hpc
  cases pc with
  | freeze =>
    simp only [LsmState.flushStep]
    split <;> exact of_pc h.durable rfl trivial
  | readFinal => exact h.flush_readFinal hinv hpc hset hun
  | take =>
    simp only [LsmState.flushStep]
    split
    · exact of_pc h.durable rfl trivial
    · rename_i hend
      refine of_pc h.durable rfl ?_
      obtain ⟨-, -, hiter, -⟩ := hinv.pc _ hpc
      rcases hiter with rfl | heq
      · refine .inr (hp ?_)
        by_contra hne
        exact hend ⟨by have := opt.two_le; omega, hne⟩
      · exact .inl heq.le
  | readSlot => exact h.flush_readSlot hinv hpc hset.2 hun
  | merge =>
    simp only [LsmState.flushStep]
    split
    · exact of_pc h.durable rfl hp
    · exact h.flush_merge_end hinv hpc ‹_›
  | drain _ rest => cases rest <;> exact of_pc h.durable rfl hp
  | relocate _ cells => cases cells <;> exact of_pc h.durable rfl hp
  | readActive | leftovers | raiseFloor => exact of_pc h.durable rfl hp
  | storeSlot => exact of_pc hp rfl fun _ => hp
  | finish =>
    refine ⟨?_, fun pc hpc => (by cases hpc)⟩
    simp only [LsmState.flushStep]
    split
    · rename_i hlt
      exact hp.resolve_left (Nat.not_le.mpr hlt.2)
    · exact h.durable

theorem step (h : Watermark s) (hinv : LsmInv s) {e : LsmEvent K V} (hfresh : s.Fresh e)
    (hset : s.Settled e) (hun : s.Unshadowed e) (hs : s.step opt e = some s') : Watermark s' := by
  cases LsmState.steps_of_step hs with
  | applyStart =>
    refine h.of_other hinv rfl rfl id rfl (fun p hp hle => ?_) fun _ _ _ _ _ => rfl
    rcases mem_append.mp hp with hp | hp
    · exact hp
    · -- a fresh slot is above the contiguous one
      rw [latest_slot hp] at hle
      exact absurd (hinv.noted_slots _ (hinv.contiguous _ hfresh.1 hle)) hfresh.2
  | readActive | note | getStart | probe | answer =>
    exact h.of_other hinv rfl rfl id rfl (fun p hp _ => hp) fun _ _ _ _ _ => rfl
  | upsert ha htodo htable =>
    refine h.of_other hinv rfl rfl id rfl (fun p hp _ => hp) fun pc hpc hlate t' ht' => ?_
    refine LsmState.setTable_of_ne _ _ ?_
    rintro rfl
    have hlive := hinv.refs _ (mem_of_getElem? ha) (by simp [htodo]) t' htable
    exact hinv.not_mem_taken hpc hlate hlive ht'
  | autoFreeze =>
    refine h.of_other hinv rfl rfl (fun hf => absurd hf (by simp [LsmState.freezeActive])) rfl
      (fun p hp _ => hp) fun pc hpc _ t ht => ?_
    exact LsmInv.freezeActive_of_ne ((hinv.atPc hpc).live_lt t (mem_append_right _ ht)).ne
  | flushStart => exact of_pc h.durable rfl trivial
  | flushStep hpc => exact h.flushStep hinv hpc (hset _ hpc) (hun _ hpc)
  | @flushPublish _ _ group hpc =>
    have hnoOlder := (publishGroup_spec s.l1 group).1
    refine of_pc (durable_mono h.durable hnoOlder fun p hp _ => hp) rfl ?_
    exact drainable_mono (h.promised _ hpc) hnoOlder (fun p hp _ => hp) fun _ _ => rfl

end Watermark

namespace LsmState

/-- Every applied operation up to the watermark is in the tree, or a later one of its key. -/
def WatermarkHonest : Prop :=
  ∀ p ∈ s.started, p.2.slot ∈ s.noted → p.2.slot ≤ s.lastAppliedSlot → AtLeast s.l1 p.1 p.2.slot
deriving Decidable

/-- **The watermark is honest** at every moment, if what each flush reads is settled and nothing is
    hidden then. -/
theorem watermark_honest_of_reach {opt : MemOptions} {s : LsmState K V}
    (h : Reach (step opt) (fun s e => s.Fresh e ∧ s.Settled e ∧ s.Unshadowed e) {} s) :
    s.WatermarkHonest := by
  have hinv : ∀ {s : LsmState K V},
    Reach (step opt) (fun s e => s.Fresh e ∧ s.Settled e ∧ s.Unshadowed e) {} s →
      LsmInv s := fun hr => lsmInv_of_reach (hr.weaken fun _ _ hok => ⟨hok.1, hok.2.1⟩)
  have hmark : Watermark s := h.invariant_of hinv Watermark.init fun hi hw hok hs =>
    hw.step hi hok.1 hok.2.1 hok.2.2 hs
  exact fun p hp _ hle => hmark.durable p hp hle

/-- Two keys in two memtables, and a flush of the first up to slot 1 that moves slot 3 back. -/
theorem watermark_honest_partial_flush :
    ∃ s : LsmState ℕ ℕ, Reach (step ⟨2, le_rfl⟩)
      (fun s e => s.Fresh e ∧ s.Settled e ∧ s.Unshadowed e) {} s ∧
      s.lastAppliedSlot = 1 ∧ s.WatermarkHonest := by
  exact Reach.exists_and_of_run
    ([.applyStart 1 [(7, some 1)], .applyReadActive 0, .applyUpsert 0, .applyNote 0,
        .applyStart 3 [(8, some 3)], .applyReadActive 0, .applyUpsert 0, .applyNote 0,
        .flushStart, .flushStep, .flushStep, .applyStart 4 [(7, none)], .applyReadActive 0] ++
        replicate 5 .flushStep ++ .applyUpsert 0 :: replicate 9 .flushStep)
          (by decide +kernel) fun s hs _ => watermark_honest_of_reach hs

/-- An apply between freeze and read of the contiguous slot, and a later cell over an operation that
    is reported. -/
theorem watermark_dishonest :
    (∃ s : LsmState ℕ ℕ, Reach (step ⟨2, le_rfl⟩) Fresh {} s ∧ s.lastAppliedSlot = 2 ∧
      (8, ⟨2, some 2⟩) ∈ s.started ∧ 2 ∈ s.noted ∧ ¬ AtLeast s.l1 8 2) ∧
    ∃ s : LsmState ℕ ℕ, Reach (step ⟨2, le_rfl⟩) Fresh {} s ∧ s.lastAppliedSlot = 1 ∧
      (7, ⟨1, some 1⟩) ∈ s.started ∧ 1 ∈ s.noted ∧ ¬ AtLeast s.l1 7 1 := by
  constructor
  · exact Reach.exists_of_run
      ([.applyStart 1 [(7, some 1)], .applyReadActive 0, .applyUpsert 0, .applyNote 0,
        .flushStart, .flushStep,
        .flushStep, .applyStart 2 [(8, some 2)], .applyReadActive 0, .applyUpsert 0, .applyNote 0] ++
        replicate 11 .flushStep) (by decide +kernel)
  · exact Reach.exists_of_run
      ([.applyStart 1 [(7, some 1)], .applyReadActive 0, .applyUpsert 0, .applyNote 0,
        .applyStart 2 [(7, some 2)], .applyReadActive 0, .applyUpsert 0, .flushStart] ++
        replicate 13 .flushStep) (by decide +kernel)

/-! ## Gets with nothing running -/

theorem pickCell_spec (best found : Option (Cell V)) :
    match pickCell best found with
    | none => best = none ∧ found = none
    | some c => (best = some c ∨ found = some c) ∧
        (∀ b, best = some b → b.slot ≤ c.slot) ∧ ∀ b, found = some b → b.slot ≤ c.slot := by
  cases found with
  | none =>
    cases best with
    | none => exact ⟨rfl, rfl⟩
    | some => exact ⟨.inl rfl, by rintro _ ⟨⟩; exact le_rfl, by rintro _ ⟨⟩⟩
  | some c =>
    cases best with
    | none => exact ⟨.inr rfl, by rintro _ ⟨⟩, by rintro _ ⟨⟩; exact le_rfl⟩
    | some b =>
      by_cases hle : b.slot ≤ c.slot
      · rw [show pickCell (some b) (some c) = some c from if_pos hle]
        exact ⟨.inr rfl, by rintro _ ⟨⟩; exact hle, by rintro _ ⟨⟩; exact le_rfl⟩
      · rw [show pickCell (some b) (some c) = some b from if_neg hle]
        exact ⟨.inl rfl, by rintro _ ⟨⟩; exact le_rfl, by rintro _ ⟨⟩; omega⟩

theorem foldl_pickCell_spec (k : K) (ts : List ℕ) (best : Option (Cell V)) :
    match ts.foldl (fun best t => pickCell best ((s.tables t).find k)) best with
    | none => best = none ∧ ∀ t ∈ ts, (s.tables t).find k = none
    | some c => (best = some c ∨ ∃ t ∈ ts, (s.tables t).find k = some c) ∧
        (∀ b, best = some b → b.slot ≤ c.slot) ∧
        ∀ t ∈ ts, ∀ b, (s.tables t).find k = some b → b.slot ≤ c.slot := by
  induction ts generalizing best with
  | nil =>
    cases best with
    | none => exact ⟨rfl, by simp⟩
    | some => exact ⟨.inl rfl, by rintro _ ⟨⟩; exact le_rfl, by simp⟩
  | cons t ts ih =>
    have hpick := pickCell_spec best ((s.tables t).find k)
    have ih := ih (pickCell best ((s.tables t).find k))
    rw [foldl_cons]
    cases hres : ts.foldl (fun best t => pickCell best ((s.tables t).find k))
      (pickCell best ((s.tables t).find k)) with
    | none =>
      rw [hres] at ih
      rw [ih.1] at hpick
      refine ⟨hpick.1, fun t' ht' => ?_⟩
      rcases mem_cons.mp ht' with rfl | ht'
      · exact hpick.2
      · exact ih.2 t' ht'
    | some =>
      rw [hres] at ih
      obtain ⟨hfrom, hbest, hmax⟩ := ih
      cases hp : pickCell best ((s.tables t).find k) with
      | none =>
        rw [hp] at hpick hfrom
        refine ⟨.inr ?_, by simp [hpick.1], fun t' ht' b hb => ?_⟩
        · obtain ⟨t', ht', hfind⟩ := hfrom.resolve_left (by simp)
          exact ⟨t', mem_cons_of_mem t ht', hfind⟩
        · rcases mem_cons.mp ht' with rfl | ht'
          · simp [hpick.2] at hb
          · exact hmax t' ht' b hb
      | some d =>
        rw [hp] at hpick hfrom
        obtain ⟨hd, hdb, hdf⟩ := hpick
        have hdc := hbest d hp
        refine ⟨?_, fun b hb => (hdb b hb).trans hdc, fun t' ht' b hb => ?_⟩
        · rcases hfrom with heq | ⟨t', ht', hfind⟩
          · cases heq
            exact hd.imp_right fun hd => ⟨t, mem_cons_self, hd⟩
          · exact .inr ⟨t', mem_cons_of_mem t ht', hfind⟩
        · rcases mem_cons.mp ht' with rfl | ht'
          · exact (hdf b hb).trans hdc
          · exact hmax t' ht' b hb

/-- The cell is that of the highest-slot operation on the key, `none` if there is none. -/
def HighestOf (k : K) : Option (Cell V) → Prop
  | none => ∀ p ∈ s.started, p.1 ≠ k
  | some c => (k, c) ∈ s.started ∧ ∀ p ∈ s.started, p.1 = k → p.2.slot ≤ c.slot

instance [DecidableEq V] (s : LsmState K V) (k : K) (c : Option (Cell V)) :
    Decidable (s.HighestOf k c) := by
  cases c <;> unfold HighestOf <;> infer_instance

theorem get_highest {s : LsmState K V} (hinv : LsmInv s) (happlies : s.applies = [])
    (hflush : s.flush = none)
    (k : K) : s.HighestOf k (s.get k) := by
  -- with nothing running, an operation is in the tree or in a listed memtable
  have hheld : ∀ p ∈ s.started, AtLeast s.l1 p.1 p.2.slot ∨
      ∃ t ∈ s.listed, AtLeast (s.tables t).cells p.1 p.2.slot := by
    intro p hp
    rcases hinv.held p hp with ⟨a, ha, -⟩ | hl1 | ⟨t, ht, hat⟩ | ⟨q, hq, -⟩
    · rw [happlies] at ha
      cases ha
    · exact .inl hl1
    · simp only [taken, hflush, elim_none, append_nil] at ht
      exact .inr ⟨t, ht, hat⟩
    · simp only [transit, hflush, elim_none] at hq
      cases hq
  have hspec := foldl_pickCell_spec s k s.listed none
  unfold get
  rw [← listed]
  cases hbest : s.listed.foldl (fun best t => pickCell best ((s.tables t).find k)) none with
  | some =>
    rw [hbest] at hspec
    obtain ⟨hfrom, -, hmax⟩ := hspec
    obtain ⟨t, ht, hfind⟩ := hfrom.resolve_left (by simp)
    have hc := RecordStore.mem_of_get hfind
    refine ⟨hinv.table_cells t _ hc, fun p hp hk => ?_⟩
    rcases hheld p hp with ⟨q, hq, _, hn⟩ | ⟨t', ht', q, hq, hqk, hn⟩
    · -- the memtables are newer than the tree
      have := hinv.l1_old q hq
      have := hinv.listed_new t ht _ hc
      dsimp only at this
      omega
    · refine hn.trans (hmax t' ht' q.2 (RecordStore.get_eq_some_iff.mpr ?_))
      rw [← hk, ← hqk]
      exact hq
  | none =>
    rw [hbest] at hspec
    have hl1 : ∀ p ∈ s.started, p.1 = k → AtLeast s.l1 k p.2.slot := by
      intro p hp hk
      rcases hheld p hp with h | ⟨t, ht, q, hq, hqk, -⟩
      · exact hk ▸ h
      · have hnone : (s.tables t).cells.get k = none := hspec.2 t ht
        rw [← hk, ← hqk] at hnone
        exact absurd hq (RecordStore.get_eq_none_iff.mp hnone q.2)
    cases hget : s.l1.get k with
    | none =>
      intro p hp hk
      obtain ⟨q, hq, hqk, -⟩ := hl1 p hp hk
      exact RecordStore.get_eq_none_iff.mp hget q.2 (hqk ▸ hq)
    | some =>
      have hc := RecordStore.mem_of_get hget
      refine ⟨hinv.l1_cells _ hc, fun p hp hk => ?_⟩
      obtain ⟨q, hq, hqk, hn⟩ := hl1 p hp hk
      rw [RecordStore.eq_of_mem hq hc hqk] at hn
      exact hn

/-- **No write is lost or shadowed** once every apply and flush has returned. -/
theorem get_highest_of_reach {opt : MemOptions} {s : LsmState K V}
    (h : Reach (step opt) (fun s e => s.Fresh e ∧ s.Settled e) {} s) (happlies : s.applies = [])
    (hflush : s.flush = none) (k : K) : s.HighestOf k (s.get k) :=
  get_highest (lsmInv_of_reach h) happlies hflush k

/-- Slots out of order over two memtables, one of them written while the other is flushed. -/
theorem get_highest_out_of_order :
    ∃ s : LsmState ℕ ℕ, Reach (step ⟨2, le_rfl⟩) (fun s e => s.Fresh e ∧ s.Settled e) {} s ∧
      s.get 7 = some ⟨3, some 30⟩ ∧ s.get 8 = some ⟨2, none⟩ ∧ s.HighestOf 7 (s.get 7) := by
  exact Reach.exists_imp_of_run
    (fun s => s.applies.isEmpty ∧ s.flush.isNone ∧ s.get 7 = some ⟨3, some 30⟩ ∧
      s.get 8 = some ⟨2, none⟩)
    ([.applyStart 3 [(7, some 3), (7, some 30)], .applyReadActive 0, .applyUpsert 0, .applyNote 0,
      .flushStart] ++
        replicate 5 .flushStep ++
          [.applyStart 1 [(7, some 1), (8, some 1)], .applyReadActive 0, .flushStep,
          .applyUpsert 0, .flushStep, .flushStep, .flushStep,
            .applyUpsert 0] ++ replicate 6 .flushStep ++
        [.applyNote 0, .applyStart 2 [(8, none)], .applyReadActive 0, .applyUpsert 0, .applyNote 0,
          .flushStart] ++
        replicate 6 .flushStep ++ .flushPublish :: replicate 10 .flushStep)
          (by decide +kernel) fun s hs ⟨ha, hf, h7, h8⟩ => ⟨h7, h8, get_highest_of_reach hs
          (isEmpty_iff.mp ha) (isNone_iff_eq_none.mp hf) 7⟩

/-- An apply writes to a memtable that was emptied and dropped; and an older operation stays in the
    active memtable over a newer one in the tree. -/
theorem get_lost_and_shadowed :
    (∃ s : LsmState ℕ ℕ, Reach (step ⟨2, le_rfl⟩) Fresh {} s ∧ s.applies.isEmpty ∧ s.flush.isNone ∧
      (7, ⟨1, some 1⟩) ∈ s.started ∧ s.get 7 = none) ∧
    ∃ s : LsmState ℕ ℕ, Reach (step ⟨2, le_rfl⟩) Fresh {} s ∧ s.applies.isEmpty ∧ s.flush.isNone ∧
      (7, ⟨2, some 2⟩) ∈ s.started ∧ s.get 7 = some ⟨1, some 1⟩ := by
  constructor
  · exact Reach.exists_of_run
      ([.applyStart 1 [(7, some 1)], .applyReadActive 0, .applyStart 2 [(8, some 2)],
        .applyReadActive 1,
        .applyUpsert 1, .applyNote 1, .flushStart] ++ replicate 15 .flushStep ++ [.applyUpsert 0,
          .applyNote 0])
      (by decide +kernel)
  · exact Reach.exists_of_run
      ([.applyStart 2 [(7, some 2)], .applyReadActive 0, .applyUpsert 0, .applyNote 0,
        .flushStart, .flushStep,
        .flushStep, .applyStart 1 [(7, some 1)], .applyReadActive 0, .applyUpsert 0, .applyNote 0] ++
        replicate 13 .flushStep) (by decide +kernel)

end LsmState

end CrowDB
