/-
  What WAL garbage collection keeps.

  `Wf` is the bookkeeping of the engine.  With it every unlinked record has a slot below the largest
  GC slot used (`Wf.slot_lt_of_unlinked`).

  A GC pass looks at slots only, while `current_term` and `voted_for` are folds over the terms of all
  surviving records.  They survive when every record that a pass unlinks is covered by one that it
  keeps (`Covers`): a record of a higher term, or one of the same term, which for a vote must be a
  later vote.
-/
import Mathlib.Data.List.Induction
import CrowDB.Wal.Engine

namespace CrowDB

open Lib List

/-! ## Folds over the records -/

theorem getD_max?_le {l : List ℕ} {n : ℕ} : l.max?.getD 0 ≤ n ↔ ∀ a ∈ l, a ≤ n := by
  cases hl : l.max? with
  | none => simp [max?_eq_none_iff.mp hl]
  | some m =>
    obtain ⟨hm, hle⟩ := max?_eq_some_iff.mp hl
    exact ⟨fun h a ha => (hle a ha).trans h, fun h => h m hm⟩

theorem maxTerm_le {rs : List WALRecord} {n : ℕ} : maxTerm rs ≤ n ↔ ∀ r ∈ rs, r.term ≤ n := by
  rw [maxTerm, getD_max?_le]
  simp

theorem term_le_maxTerm {rs : List WALRecord} {r : WALRecord} (h : r ∈ rs) : r.term ≤ maxTerm rs :=
  maxTerm_le.mp le_rfl r h

theorem sortById_eq {segs : List WalSegment}
    (h : segs.Pairwise fun a b => a.segmentId < b.segmentId) : sortById segs = segs :=
  Pairwise.insertionSort_eq (h.imp le_of_lt)

/-- Dropping segments keeps the latest record with a property, if every dropped segment that holds
    one is followed by a kept segment that does. -/
theorem find?_reverse_flatMap_filter {α β : Type*} (f : α → List β) (keep : α → Bool)
    (p : β → Bool) : ∀ l : List α,
    (∀ l₁ a l₂, l = l₁ ++ a :: l₂ → keep a = false → (∃ b ∈ f a, p b) → ∃ a' ∈ l₂, keep a' = true ∧
      ∃ b ∈ f a', p b) →
    ((l.filter keep).flatMap f).reverse.find? p = (l.flatMap f).reverse.find? p := by
  intro l
  -- from the end: the last segment decides if it holds a hit, else it can be ignored
  induction l using reverseRecOn with
  | nil => intro _; rfl
  | append_singleton l a ih =>
    intro h
    by_cases hp : ∃ b ∈ f a, p b
    · have hk : keep a = true := by
        by_contra hk
        obtain ⟨a', ha', -⟩ := h l a [] rfl (by simpa using hk) hp
        simp at ha'
      obtain ⟨b, hb⟩ : ∃ b, (f a).reverse.find? p = some b :=
        Option.isSome_iff_exists.mp (by simpa [find?_isSome] using hp)
      simp [hk, find?_append, hb]
    · have hn : (f a).reverse.find? p = none := by
        rw [find?_eq_none]
        intro b hb hpb
        exact hp ⟨b, mem_reverse.mp hb, hpb⟩
      have hl := ih fun l₁ a₁ l₂ hl hk₁ hp₁ => by
        obtain ⟨a', ha', hk', hp'⟩ := h l₁ a₁ (l₂ ++ [a]) (by simp [hl]) hk₁ hp₁
        rcases mem_append.mp ha' with ha' | ha'
        · exact ⟨a', ha', hk', hp'⟩
        · obtain rfl := mem_singleton.mp ha'
          exact absurd hp' hp
      rw [filter_append, flatMap_append, flatMap_append, reverse_append,
        reverse_append, find?_append, find?_append, hl]
      cases hk : keep a <;> simp [hk, hn]

/-! ## The bookkeeping of the engine -/

variable {w w' : WalEngine}

namespace WalEngine

/-- The bookkeeping of segments, index and active segments. -/
structure Wf (w : WalEngine) : Prop where
  sorted : w.segments.Pairwise fun a b => a.segmentId < b.segmentId
  lt_next : ∀ seg ∈ w.segments, seg.segmentId < w.nextSegmentId
  active_lt : ∀ p < w.pipelineCount, w.active p < w.nextSegmentId
  active_inj : ∀ p < w.pipelineCount, ∀ q < w.pipelineCount, w.active p = w.active q → p = q
  /-- every segment is at most as new as some active one -/
  newest : ∀ seg ∈ w.segments, ∃ p < w.pipelineCount, ∃ g ∈ w.segments,
    g.segmentId = w.active p ∧ seg.segmentId ≤ g.segmentId
  index_sealed : ∀ m ∈ w.index, m.segmentId < w.nextSegmentId ∧
    ∀ p < w.pipelineCount, w.active p ≠ m.segmentId
  index_max : ∀ m ∈ w.index, ∀ seg ∈ w.segments, seg.segmentId = m.segmentId → seg.maxSlot ≤ m.maxSlot
  unlinked_sealed : ∀ seg ∈ w.segments, seg.unlinked = true →
    (∀ p < w.pipelineCount, w.active p ≠ seg.segmentId) ∧ seg.maxSlot < w.largestGcSlot

theorem selectPipeline_lt (h : 0 < w.pipelineCount) (r : WALRecord) :
    w.selectPipeline r < w.pipelineCount := by
  unfold selectPipeline
  split
  · exact h
  · exact Nat.mod_lt _ h

variable {count start gcSlot id : ℕ} {seg : WalSegment}

theorem mem_openSegments (h : seg ∈ openSegments count start) :
    ∃ p < count, seg = WalSegment.create (start + p) := by
  obtain ⟨p, hp, rfl⟩ := mem_map.mp h
  exact ⟨p, mem_range.mp hp, rfl⟩

theorem openSegments_sorted (count start : ℕ) :
    (openSegments count start).Pairwise fun a b => a.segmentId < b.segmentId := by
  rw [openSegments, pairwise_map]
  exact pairwise_lt_range.imp fun h => Nat.add_lt_add_left h start

theorem wf_create {groupId : ℕ} {old : List WalSegment}
    (hs : old.Pairwise fun a b => a.segmentId < b.segmentId)
    (hlt : ∀ seg ∈ old, seg.segmentId < start) (hc : old ≠ [] → 0 < count)
    (hu : ∀ seg ∈ old, seg.unlinked = true → seg.maxSlot < gcSlot) :
    (create groupId count start old gcSlot).Wf where
  sorted := by
    refine pairwise_append.mpr ⟨hs, openSegments_sorted count start, fun a ha b hb => ?_⟩
    obtain ⟨p, -, rfl⟩ := mem_openSegments hb
    exact (hlt a ha).trans_le (Nat.le_add_right _ _)
  lt_next seg hseg := by
    rcases mem_append.mp hseg with hseg | hseg
    · exact (hlt seg hseg).trans_le (Nat.le_add_right _ _)
    · obtain ⟨p, hp, rfl⟩ := mem_openSegments hseg
      exact Nat.add_lt_add_left hp start
  active_lt p hp := Nat.add_lt_add_left hp start
  active_inj p _ q _ h := Nat.add_left_cancel h
  newest seg hseg := by
    have hopen : ∀ p < count, WalSegment.create (start + p) ∈ old ++ openSegments count start :=
      fun p hp => mem_append_right _ (mem_map.mpr ⟨p, mem_range.mpr hp, rfl⟩)
    rcases mem_append.mp hseg with hold | hnew
    · have h0 : 0 < count := hc (ne_nil_of_mem hold)
      exact ⟨0, h0, _, hopen 0 h0, rfl, (hlt seg hold).le⟩
    · obtain ⟨p, hp, rfl⟩ := mem_openSegments hnew
      exact ⟨p, hp, _, hopen p hp, rfl, le_rfl⟩
  index_sealed := by simp [create]
  index_max := by simp [create]
  unlinked_sealed seg hseg hun := by
    rcases mem_append.mp hseg with hold | hnew
    · refine ⟨fun p _ => ?_, hu seg hold hun⟩
      have := hlt seg hold
      simp only [create]
      omega
    · obtain ⟨p, -, rfl⟩ := mem_openSegments hnew
      simp [WalSegment.create] at hun

theorem wf_new (groupId count : ℕ) : (new groupId count).Wf :=
  wf_create Pairwise.nil (by simp) (by simp) (by simp)

/-- Segments that change in place keep their ids, sealed ones their slots, and only sealed ones are
    unlinked. -/
theorem Wf.map (h : w.Wf) {f : WalSegment → WalSegment} {index : List SegmentMeta}
    (hid : ∀ g, (f g).segmentId = g.segmentId) (hindex : ∀ m ∈ index, m ∈ w.index)
    (hmax : ∀ g ∈ w.segments, (∀ p < w.pipelineCount, w.active p ≠ g.segmentId) →
      (f g).maxSlot = g.maxSlot)
    (hun : ∀ g ∈ w.segments, (f g).unlinked = true →
      (∀ p < w.pipelineCount, w.active p ≠ g.segmentId) ∧ g.maxSlot < gcSlot) :
    { w with segments := w.segments.map f, index := index, largestGcSlot := gcSlot }.Wf := by
  refine ⟨?_, ?_, h.active_lt, h.active_inj, ?_, fun m hm => h.index_sealed m (hindex m hm), ?_, ?_⟩
  · exact pairwise_map.mpr (h.sorted.imp fun hab => by rw [hid, hid]; exact hab)
  · exact forall_mem_map.mpr fun g hg => (hid g).symm ▸ h.lt_next g hg
  · refine forall_mem_map.mpr fun g hg => ?_
    obtain ⟨p, hp, g', hg', hact, hle⟩ := h.newest g hg
    exact ⟨p, hp, _, mem_map_of_mem hg', (hid g').trans hact, by rw [hid, hid]; exact hle⟩
  · intro m hm
    refine forall_mem_map.mpr fun g hg he => ?_
    rw [hid] at he
    rw [hmax g hg (he ▸ (h.index_sealed m (hindex m hm)).2)]
    exact h.index_max m (hindex m hm) g hg he
  · refine forall_mem_map.mpr fun g hg hu => ?_
    obtain ⟨hna, hlt⟩ := hun g hg hu
    rw [hid, hmax g hg hna]
    exact ⟨hna, hlt⟩

theorem Wf.append (h : w.Wf) (r : WALRecord) : (w.append r).Wf := by
  refine h.map (fun g => by split <;> rfl) (fun _ hm => hm) (fun g hg hna => ?_) fun g hg hun => ?_
  · split
    · next hid =>
      obtain ⟨p, hp, -⟩ := h.newest g hg
      exact absurd hid.symm (hna _ (selectPipeline_lt (Nat.zero_lt_of_lt hp) r))
    · rfl
  · exact h.unlinked_sealed g hg (by split at hun <;> exact hun)

theorem mem_sealedMeta {m : SegmentMeta} (hm : m ∈ w.sealedMeta id) :
    ∃ g ∈ w.segments, g.segmentId = id ∧ m = ⟨g.segmentId, g.maxSlot⟩ := by
  obtain ⟨g, hg, rfl⟩ := mem_map.mp hm
  obtain ⟨hg, hid⟩ := mem_filter.mp hg
  exact ⟨g, hg, by simpa using hid, rfl⟩

theorem Wf.eq_of_segmentId_eq (h : w.Wf) {a b : WalSegment} (ha : a ∈ w.segments)
    (hb : b ∈ w.segments) (he : a.segmentId = b.segmentId) : a = b := by
  have hpair : w.segments.Pairwise fun a b => a.segmentId = b.segmentId → a = b :=
    h.sorted.imp fun hlt he => absurd he hlt.ne
  have hflip : w.segments.Pairwise (flip fun a b => a.segmentId = b.segmentId → a = b) :=
    h.sorted.imp fun hlt he => absurd he hlt.ne'
  exact hpair.forall_of_forall_of_flip (fun _ _ _ => rfl) hflip ha hb he

theorem Wf.rotate (h : w.Wf) {p : ℕ} (hp : p < w.pipelineCount) : (w.rotate p).Wf := by
  have hactive : ∀ q, (w.rotate p).active q = if q = p then w.nextSegmentId else w.active q :=
    fun q => Function.update_apply ..
  have hmem : ∀ seg ∈ (w.rotate p).segments, seg ∈ w.segments ∨ seg =
    WalSegment.create w.nextSegmentId := by
    intro seg hs
    simpa [WalEngine.rotate] using hs
  have hne : ∀ id < w.nextSegmentId, (∀ q < w.pipelineCount, w.active q ≠ id) →
      ∀ q < w.pipelineCount, (w.rotate p).active q ≠ id := by
    intro id hid hna q hq
    rw [hactive]
    split
    · omega
    · exact hna q hq
  refine ⟨?_, ?_, ?_, ?_, ?_, ?_, ?_, ?_⟩
  · refine pairwise_append.mpr ⟨h.sorted, pairwise_singleton _ _, fun a ha b hb => ?_⟩
    obtain rfl := mem_singleton.mp hb
    exact h.lt_next a ha
  · intro seg hs
    rcases hmem seg hs with hs | rfl
    · exact (h.lt_next seg hs).trans (Nat.lt_succ_self _)
    · exact Nat.lt_succ_self _
  · intro q hq
    rw [hactive]
    split
    · exact Nat.lt_succ_self _
    · exact (h.active_lt q hq).trans (Nat.lt_succ_self _)
  · intro q hq q' hq' he
    rw [hactive, hactive] at he
    have hlt := h.active_lt q hq
    have hlt' := h.active_lt q' hq'
    split at he <;> split at he
    · omega
    · omega
    · omega
    · exact h.active_inj q hq q' hq' he
  · intro seg hs
    refine ⟨p, hp, WalSegment.create w.nextSegmentId, by simp [WalEngine.rotate], ?_, ?_⟩
    · simp [hactive, WalSegment.create]
    · rcases hmem seg hs with hs | rfl
      · exact (h.lt_next seg hs).le
      · exact le_rfl
  · intro m hm
    rcases mem_append.mp hm with hm | hm
    · obtain ⟨hlt, hna⟩ := h.index_sealed m hm
      exact ⟨hlt.trans (Nat.lt_succ_self _), hne _ hlt hna⟩
    · obtain ⟨g, hg, hid, rfl⟩ := mem_sealedMeta hm
      have hlt := h.lt_next g hg
      refine ⟨hlt.trans (Nat.lt_succ_self _), fun q hq => ?_⟩
      show (w.rotate p).active q ≠ g.segmentId
      rw [hactive]
      split
      · exact hlt.ne'
      · next hqp => exact fun he => hqp (h.active_inj q hq p hp (he.trans hid))
  · intro m hm seg hs he
    rcases hmem seg hs with hs | rfl
    · rcases mem_append.mp hm with hm | hm
      · exact h.index_max m hm seg hs he
      · obtain ⟨g, hg, -, rfl⟩ := mem_sealedMeta hm
        exact (h.eq_of_segmentId_eq hs hg he) ▸ le_rfl
    · exact Nat.zero_le _
  · intro seg hs hun
    rcases hmem seg hs with hs | rfl
    · obtain ⟨hna, hlt⟩ := h.unlinked_sealed seg hs hun
      exact ⟨hne _ (h.lt_next seg hs) hna, hlt⟩
    · simp [WalSegment.create] at hun

theorem unlinkedBy_eligible {failed : List ℕ}
    (h : id ∈ w.unlinkedBy gcSlot failed) : ∃ m ∈ w.index, m.segmentId = id ∧ m.maxSlot < gcSlot := by
  unfold unlinkedBy at h
  split at h
  · simp at h
  · obtain ⟨m, hm, rfl⟩ := mem_map.mp (mem_filter.mp h).1
    obtain ⟨hm, hlt⟩ := mem_filter.mp hm
    exact ⟨m, hm, rfl, (of_decide_eq_true hlt).2⟩

theorem Wf.runGc (h : w.Wf) (gcSlot : ℕ) (failed : List ℕ) : (w.runGc gcSlot failed).Wf := by
  refine h.map (fun g => by split <;> rfl) (fun m hm => (mem_filter.mp hm).1)
    (fun g _ _ => by split <;> rfl)
    fun g hg hun => ?_
  by_cases hg' : g.segmentId ∈ w.unlinkedBy gcSlot failed
  · obtain ⟨m, hm, hme, hlt⟩ := unlinkedBy_eligible hg'
    refine ⟨hme ▸ (h.index_sealed m hm).2, ?_⟩
    exact ((h.index_max m hm g hg hme.symm).trans_lt hlt).trans_le (le_max_right ..)
  · rw [if_neg hg'] at hun
    obtain ⟨hna, hlt⟩ := h.unlinked_sealed g hg hun
    exact ⟨hna, hlt.trans_le (le_max_left ..)⟩

theorem mem_onDisk : seg ∈ w.onDisk ↔ seg ∈ w.segments ∧ seg.unlinked = false := by
  simp [onDisk]

theorem Wf.restart (h : w.Wf) : w.restart.Wf := by
  refine wf_create h.sorted (fun seg hs => ?_) (fun hne => ?_) fun seg hs hun =>
    (h.unlinked_sealed seg hs hun).2
  · obtain ⟨p, hp, g, hg, hact, hle⟩ := h.newest seg hs
    have hlinked : g.unlinked = false := by
      by_contra hun
      exact (h.unlinked_sealed g hg (by simpa using hun)).1 p hp hact.symm
    have hmax : g.segmentId ≤ (replayGroup w.onDisk).maxSegmentId :=
      getD_max?_le.mp le_rfl _ (mem_map_of_mem (mem_onDisk.mpr ⟨hg, hlinked⟩))
    omega
  · obtain ⟨seg, hs⟩ := exists_mem_of_ne_nil _ hne
    obtain ⟨p, hp, -⟩ := h.newest seg hs
    exact Nat.zero_lt_of_lt hp

theorem Wf.step (h : w.Wf) {e : WalEvent} (hs : walStep w e = some w') : w'.Wf := by
  cases e with
  | append r => cases hs; exact h.append r
  | rotate =>
    simp only [walStep] at hs
    split at hs
    · cases hs; exact h.rotate ‹_›
    · simp at hs
  | gc gcSlot failed => cases hs; exact h.runGc gcSlot failed
  | restart => cases hs; exact h.restart

theorem Wf.slot_lt_of_unlinked (h : w.Wf) (hs : seg ∈ w.segments)
    (hun : seg.unlinked = true) {r : WALRecord} (hr : r ∈ seg.records) :
    r.slot < w.largestGcSlot :=
  (seg.slot_le r hr).trans_lt (h.unlinked_sealed seg hs hun).2

end WalEngine

/-! ## What term and vote need -/

/-- `g'` holds a record that makes record `r` of `g` dispensable: of a higher term, or of the same
    term, for a vote a later vote. -/
def Covers (g g' : WalSegment) (r : WALRecord) : Prop :=
  ∃ r' ∈ g'.records, r.term < r'.term ∨ (r.term = r'.term ∧
    (r.votedForId.isSome = true → r'.votedForId.isSome = true ∧ g.segmentId < g'.segmentId))
deriving Decidable

/-- The condition on a GC pass: every record it unlinks is covered by a segment
    that stays on disk. -/
def GcCovered (w : WalEngine) : WalEvent → Prop
  | .gc gcSlot failed => ∀ g ∈ w.segments, g.segmentId ∈ w.unlinkedBy gcSlot failed →
      ∀ r ∈ g.records, ∃ g' ∈ w.onDisk, g'.segmentId ∉ w.unlinkedBy gcSlot failed ∧ Covers g g' r
  | _ => True

instance : ∀ (w : WalEngine) (e : WalEvent), Decidable (GcCovered w e)
  | _, .gc _ _ => inferInstanceAs (Decidable (∀ _ ∈ _, _))
  | _, .append _ | _, .rotate _ | _, .restart => isTrue trivial

section

variable {g g' g'' : WalSegment} {r : WALRecord}

theorem Covers.trans (h : Covers g g' r) (h' : ∀ r' ∈ g'.records, ∃ g'' ∈ w.segments,
    g''.unlinked = false ∧ Covers g' g'' r') :
    ∃ g'' ∈ w.segments, g''.unlinked = false ∧ Covers g g'' r := by
  obtain ⟨r', hr', hc⟩ := h
  obtain ⟨g'', hg'', hl, r'', hr'', hc'⟩ := h' r' hr'
  refine ⟨g'', hg'', hl, r'', hr'', ?_⟩
  rcases hc with hlt | ⟨he, hv⟩
  · exact .inl (by rcases hc' with h | ⟨h, -⟩ <;> omega)
  · rcases hc' with hlt | ⟨he', hv'⟩
    · exact .inl (by omega)
    · refine .inr ⟨he.trans he', fun hvote => ?_⟩
      obtain ⟨hvote', hlt⟩ := hv hvote
      obtain ⟨hvote'', hlt'⟩ := hv' hvote'
      exact ⟨hvote'', hlt.trans hlt'⟩

theorem Covers.mono (h : Covers g g' r) (hid : g'.segmentId = g''.segmentId)
    (hsub : ∀ r' ∈ g'.records, r' ∈ g''.records) : Covers g g'' r := by
  obtain ⟨r', hr', hc⟩ := h
  exact ⟨r', hsub r' hr', hid ▸ hc⟩

/-- Every record of an unlinked segment is covered by a segment on disk. -/
def WalEngine.Covered (w : WalEngine) : Prop := ∀ g ∈ w.segments, g.unlinked = true → ∀ r ∈ g.records,
    ∃ g' ∈ w.segments, g'.unlinked = false ∧ Covers g g' r

theorem WalEngine.Covered.append (h : w.Covered) (hwf : w.Wf) (r₀ : WALRecord) :
    (w.append r₀).Covered := by
  intro seg hs hun r hr
  obtain ⟨g, hg, rfl⟩ := mem_map.mp hs
  have hun' : g.unlinked = true := by
    split at hun <;> exact hun
  -- an unlinked segment is not active, so the append leaves it as it was
  have hna : g.segmentId ≠ w.active (w.selectPipeline r₀) := by
    intro he
    obtain ⟨p, hp, -⟩ := hwf.newest g hg
    exact (hwf.unlinked_sealed g hg hun').1 _
      (WalEngine.selectPipeline_lt (Nat.zero_lt_of_lt hp) r₀) he.symm
  rw [if_neg hna] at hr ⊢
  obtain ⟨g', hg', hl, hc⟩ := h g hg hun' r hr
  refine ⟨_, mem_map_of_mem hg', ?_, hc.mono ?_ fun r' hr' => ?_⟩
  · split <;> exact hl
  · split <;> rfl
  · split
    · exact mem_append_left _ hr'
    · exact hr'

theorem WalEngine.Covered.extend (h : w.Covered) {new : List WalSegment}
    (hseg : w'.segments = w.segments ++ new) (hnew : ∀ g ∈ new, g.unlinked = false) :
    w'.Covered := by
  intro g hg hun r hr
  rw [hseg] at hg ⊢
  rcases mem_append.mp hg with hg | hg
  · obtain ⟨g', hg', hl, hc⟩ := h g hg hun r hr
    exact ⟨g', mem_append_left _ hg', hl, hc⟩
  · simp [hnew g hg] at hun

theorem WalEngine.Covered.runGc (h : w.Covered) {gcSlot : ℕ} {failed : List ℕ}
    (hok : GcCovered w (.gc gcSlot failed)) : (w.runGc gcSlot failed).Covered := by
  -- a segment that the pass keeps is a segment afterwards, still linked
  have hkept : ∀ g ∈ w.onDisk, g.segmentId ∉ w.unlinkedBy gcSlot failed →
      g ∈ (w.runGc gcSlot failed).segments ∧ g.unlinked = false := by
    intro g hg hk
    obtain ⟨hg, hl⟩ := WalEngine.mem_onDisk.mp hg
    exact ⟨mem_map.mpr ⟨g, hg, if_neg hk⟩, hl⟩
  have hgone : ∀ g ∈ w.segments, g.segmentId ∈ w.unlinkedBy gcSlot failed → ∀ r ∈ g.records,
      ∃ g' ∈ (w.runGc gcSlot failed).segments, g'.unlinked = false ∧ Covers g g' r := by
    intro g hg hid r hr
    obtain ⟨g', hg', hk, hc⟩ := hok g hg hid r hr
    exact ⟨g', (hkept g' hg' hk).1, (hkept g' hg' hk).2, hc⟩
  intro seg hs hun r hr
  obtain ⟨g, hg, rfl⟩ := mem_map.mp hs
  by_cases hid : g.segmentId ∈ w.unlinkedBy gcSlot failed
  · rw [if_pos hid] at hr ⊢
    exact hgone g hg hid r hr
  · rw [if_neg hid] at hun hr ⊢
    -- unlinked by an earlier pass: its cover was kept by this pass, or is covered
    obtain ⟨g', hg', hl, hc⟩ := h g hg hun r hr
    by_cases hid' : g'.segmentId ∈ w.unlinkedBy gcSlot failed
    · exact hc.trans (hgone g' hg' hid')
    · exact ⟨g', (hkept g' (WalEngine.mem_onDisk.mpr ⟨hg', hl⟩) hid').1, hl, hc⟩

theorem WalEngine.Covered.step (h : w.Covered) (hwf : w.Wf) {e : WalEvent} (hok : GcCovered w e)
    (hs : walStep w e = some w') : w'.Covered := by
  cases e with
  | append r => cases hs; exact h.append hwf r
  | rotate =>
    simp only [walStep] at hs
    split at hs
    · cases hs
      exact h.extend rfl (by simp [WalSegment.create])
    · simp at hs
  | gc => cases hs; exact h.runGc hok
  | restart =>
    cases hs
    refine h.extend rfl fun g hg => ?_
    obtain ⟨p, -, rfl⟩ := WalEngine.mem_openSegments hg
    rfl

end

/-! ## Replay after garbage collection -/

/-- Replay gives the term and the vote of the history, and every record at or above the largest GC
    slot. -/
structure GcSafe (w : WalEngine) : Prop where
  currentTerm : (replayGroup w.onDisk).currentTerm = (replayGroup w.segments).currentTerm
  votedFor : (replayGroup w.onDisk).votedFor = (replayGroup w.segments).votedFor
  records : (replayGroup w.onDisk).records.filter (fun r => w.largestGcSlot ≤ r.slot) =
    (replayGroup w.segments).records.filter (fun r => w.largestGcSlot ≤ r.slot)

theorem filter_flatMap_filter {α β : Type*} (f : α → List β) (keep : α → Bool) (p : β → Bool) :
    ∀ l : List α, (∀ a ∈ l, keep a = false → ∀ b ∈ f a, p b = false) →
      ((l.filter keep).flatMap f).filter p = (l.flatMap f).filter p
  | [], _ => rfl
  | a :: l, h => by
    have ih := filter_flatMap_filter f keep p l fun a' ha' => h a' (mem_cons_of_mem _ ha')
    rw [flatMap_cons, filter_append, ← ih]
    cases hk : keep a with
    | true => rw [filter_cons_of_pos hk, flatMap_cons, filter_append]
    | false =>
      have hn : (f a).filter p = [] := filter_eq_nil_iff.mpr fun b hb => by
        simp [h a mem_cons_self hk b hb]
      rw [filter_cons_of_neg (by simp [hk]), hn, nil_append]

section

theorem replayGroup_segments (h : w.Wf) :
    (replayGroup w.segments).records = w.segments.flatMap WalSegment.records := by
  simp only [replayGroup, sortById_eq h.sorted]

theorem replayGroup_onDisk (h : w.Wf) :
    (replayGroup w.onDisk).records = w.onDisk.flatMap WalSegment.records := by
  simp only [replayGroup, sortById_eq (h.sorted.filter _), WalEngine.onDisk]

/-- The half that holds of every GC pass: no record at or above the largest GC slot
    is lost. -/
theorem records_kept (h : w.Wf) :
    (replayGroup w.onDisk).records.filter (fun r => w.largestGcSlot ≤ r.slot) =
      (replayGroup w.segments).records.filter (fun r => w.largestGcSlot ≤ r.slot) := by
  rw [replayGroup_onDisk h, replayGroup_segments h]
  refine filter_flatMap_filter _ _ _ _ fun g hg hun r hr => ?_
  have := h.slot_lt_of_unlinked hg (by simpa using hun) hr
  simpa using this

theorem maxTerm_kept (hc : w.Covered) : maxTerm (w.onDisk.flatMap WalSegment.records) =
      maxTerm (w.segments.flatMap WalSegment.records) := by
  apply le_antisymm
  · refine maxTerm_le.mpr fun r hr => term_le_maxTerm ?_
    obtain ⟨g, hg, hr⟩ := mem_flatMap.mp hr
    exact mem_flatMap.mpr ⟨g, (WalEngine.mem_onDisk.mp hg).1, hr⟩
  · refine maxTerm_le.mpr fun r hr => ?_
    obtain ⟨g, hg, hr⟩ := mem_flatMap.mp hr
    by_cases hun : g.unlinked = true
    · obtain ⟨g', hg', hl, r', hr', hle⟩ := hc g hg hun r hr
      have := term_le_maxTerm (mem_flatMap.mpr ⟨g', WalEngine.mem_onDisk.mpr ⟨hg', hl⟩, hr'⟩)
      omega
    · exact term_le_maxTerm (mem_flatMap.mpr
        ⟨g, WalEngine.mem_onDisk.mpr ⟨hg, by simpa using hun⟩, hr⟩)

/-- The latest vote of the current term is on disk: an unlinked one is covered by a later. -/
theorem latestVote_kept (h : w.Wf) (hc : w.Covered) :
    latestVote (maxTerm (w.segments.flatMap WalSegment.records))
        (w.onDisk.flatMap WalSegment.records) =
      latestVote (maxTerm (w.segments.flatMap WalSegment.records))
        (w.segments.flatMap WalSegment.records) := by
  unfold latestVote WalEngine.onDisk
  rw [find?_reverse_flatMap_filter]
  intro l₁ g l₂ hl hun ⟨r, hr, hvote⟩
  obtain ⟨hv, ht⟩ : r.votedForId.isSome = true ∧ r.term =
    maxTerm (w.segments.flatMap WalSegment.records) := by
    simpa [WALRecord.isVoteIn] using hvote
  obtain ⟨g', hg', hl', r', hr', hcov⟩ := hc g (by simp [hl]) (by simpa using hun) r hr
  have hle := term_le_maxTerm (mem_flatMap.mpr ⟨g', hg', hr'⟩)
  obtain ⟨he, hcov⟩ := hcov.resolve_left (by omega)
  obtain ⟨hv', hlt⟩ := hcov hv
  refine ⟨g', ?_, by simpa using hl', r', hr', by simp [WALRecord.isVoteIn, hv', ← he, ht]⟩
  -- the covering segment has a higher id, so it comes after `g`
  have hsorted := h.sorted
  rw [hl] at hg' hsorted
  rcases mem_append.mp hg' with hg' | hg'
  · have := (pairwise_append.mp hsorted).2.2 g' hg' g mem_cons_self
    omega
  · rcases mem_cons.mp hg' with rfl | hg'
    · exact absurd hlt (lt_irrefl _)
    · exact hg'

end

/-- **Garbage collection loses nothing that recovery needs**, if every unlinked record is covered. -/
theorem gcSafe_of_reach {groupId count : ℕ} {w : WalEngine}
    (hr : Reach walStep GcCovered (WalEngine.new groupId count) w) : GcSafe w := by
  obtain ⟨hwf, hc⟩ : w.Wf ∧ w.Covered := by
    refine Reach.invariant (P := fun w => w.Wf ∧ w.Covered) ⟨WalEngine.wf_new groupId count, ?_⟩
      (fun ⟨hwf, hc⟩ hok hs => ⟨hwf.step hs, hc.step hwf hok hs⟩) hr
    intro g hg hun
    obtain ⟨p, -, rfl⟩ := WalEngine.mem_openSegments
      (by simpa [WalEngine.new, WalEngine.create] using hg)
    simp [WalSegment.create] at hun
  have hterm : (replayGroup w.onDisk).currentTerm = (replayGroup w.segments).currentTerm := by
    show maxTerm (replayGroup w.onDisk).records = maxTerm (replayGroup w.segments).records
    rw [replayGroup_onDisk hwf, replayGroup_segments hwf]
    exact maxTerm_kept hc
  refine ⟨hterm, ?_, records_kept hwf⟩
  show latestVote (replayGroup w.onDisk).currentTerm (replayGroup w.onDisk).records =
    latestVote (maxTerm (replayGroup w.segments).records) (replayGroup w.segments).records
  rw [hterm]
  show latestVote (maxTerm (replayGroup w.segments).records) _ = _
  rw [replayGroup_onDisk hwf, replayGroup_segments hwf]
  exact latestVote_kept hwf hc

/-- The unlinked segment has the vote of term `5`, the one that replaces it a vote of term `6`. -/
theorem gcSafe_covered_pass : ∃ w, Reach walStep GcCovered (WalEngine.new 1 1) w ∧
    w.onDisk.length < w.segments.length ∧ GcSafe w := by
  obtain ⟨w, hr, hlt⟩ : ∃ w, Reach walStep GcCovered (WalEngine.new 1 1) w ∧ w.onDisk.length <
    w.segments.length :=
    Reach.exists_of_run [.append (.accepted ⟨1, ⟨0, 1⟩, 1, [7]⟩),
      .append (.voteGranted 5 2), .rotate 0,
        .append (.voteGranted 6 3), .gc 2 []] (by decide)
  exact ⟨w, hr, hlt, gcSafe_of_reach hr⟩

/-- The vote of term `5` shares a segment with slot `1`; a pass at slot `2` unlinks it. -/
theorem gcSafe_fails_vote_lost : ∃ w, Reach walStep anyStep (WalEngine.new 1 1) w ∧ ¬ GcSafe w := by
  obtain ⟨w, hr, hne⟩ : ∃ w, Reach walStep anyStep (WalEngine.new 1 1) w ∧
        (replayGroup w.onDisk).currentTerm ≠ (replayGroup w.segments).currentTerm :=
    Reach.exists_of_run
      [.append (.accepted ⟨1, ⟨0, 1⟩, 1, [7]⟩), .append (.voteGranted 5 2), .rotate 0, .gc 2 []]
        (by decide)
  exact ⟨w, hr, fun h => hne h.currentTerm⟩

end CrowDB
