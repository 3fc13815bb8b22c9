/-
  The learner of one replica (`paxos/learner.rs`): the chosen and applied frontiers, the engine it
  drives, and the per-client dedup windows.

  The two frontiers (`Lib.Frontier`) move separately, since the engine apply of a chosen entry may run
  later (`spawn_learn_chosen`).  The engine is seen through the list of its successful apply calls.
  Whether one apply call succeeds is up to the engine, and is an argument here.
-/
import CrowDB.Lib.Frontier
import CrowDB.Lib.Lists
import CrowDB.Paxos.Roles

namespace CrowDB

open Lib List

/-! ## Dedup windows -/

/-- The bound on the entries kept per client (`DEDUP_WINDOW`). -/
def dedupWindow : ℕ := 64

/-- The `(seq, slot)` pairs last recorded for one client, oldest first. -/
structure DedupWindow where
  entries : List (ℕ × ℕ)
  bounded : entries.length ≤ dedupWindow
  nodup : (entries.map Prod.fst).Nodup

namespace DedupWindow

/-- No tag. -/
def empty : DedupWindow := ⟨[], Nat.zero_le _, nodup_nil⟩

/-- A sequence number keeps its slot; a new one is appended, the oldest dropped when the window is
    full. -/
def record (w : DedupWindow) (seq slot : ℕ) : DedupWindow :=
  if h : seq ∈ w.entries.map Prod.fst then w
  else if hlt : w.entries.length < dedupWindow then
    { entries := w.entries ++ [(seq, slot)]
      bounded := by rw [length_append, length_singleton]; exact hlt
      nodup := nodup_map_concat w.nodup h }
  else
    { entries := (w.entries ++ [(seq, slot)]).tail
      bounded := by
        rw [length_tail, length_append, length_singleton]
        exact w.bounded
      nodup := by
        rw [map_tail]
        exact (nodup_map_concat w.nodup h).tail }

/-- The slot recorded for a sequence number, looked up from the newest entry. -/
def lookup (w : DedupWindow) (seq : ℕ) : Option ℕ :=
  (w.entries.reverse.find? fun p => p.1 = seq).map Prod.snd

variable {w : DedupWindow} {seq slot : ℕ} {p : ℕ × ℕ}

theorem mem_record (h : p ∈ (w.record seq slot).entries) : p ∈ w.entries ∨ p = (seq, slot) := by
  unfold record at h
  split at h
  · exact .inl h
  · have hp : p ∈ w.entries ++ [(seq, slot)] := by
      split at h
      · exact h
      · exact mem_of_mem_tail h
    rcases mem_append.mp hp with hp | hp
    · exact .inl hp
    · exact .inr (mem_singleton.mp hp)

theorem mem_of_lookup (h : w.lookup seq = some slot) : (seq, slot) ∈ w.entries := by
  obtain ⟨⟨q, t⟩, hf, rfl⟩ := Option.map_eq_some_iff.mp h
  have hq : q = seq := by simpa using List.find?_some hf
  exact hq ▸ mem_reverse.mp (mem_of_find?_eq_some hf)

end DedupWindow

/-! ## The learner -/

/-- `PxLearner`. -/
structure PxLearner where
  /-- `contiguous_chosen` and the out-of-order chosen slots -/
  chosen : Frontier
  /-- `contiguous_applied` and the out-of-order applied slots -/
  applied : Frontier
  lastChosenSlot : ℕ
  lastChosenTerm : ℕ
  dedup : ℕ → DedupWindow
  /-- the slots and payloads the engine has applied -/
  engine : List (ℕ × Bytes)

namespace PxLearner

/-- Nothing learned. -/
def new : PxLearner := ⟨.upTo 0, .upTo 0, 0, 0, fun _ => .empty, []⟩

variable (l : PxLearner)

/-- `contiguous_chosen`. -/
def contiguousChosen : ℕ := l.chosen.mark

/-- `contiguous_applied`. -/
def contiguousApplied : ℕ := l.applied.mark

/-- At or below the contiguous chosen slot, or chosen out of order. -/
def isChosen (slot : ℕ) : Bool := decide (l.chosen.Mem slot)

variable (slot term : ℕ)

/-- A notice without a value: only the highest chosen slot moves. -/
def noteChosen : PxLearner :=
  if slot ≤ l.lastChosenSlot then l else { l with lastChosenSlot := slot, lastChosenTerm := term }

/-- `update_chosen_frontier`. -/
def updateChosenFrontier : PxLearner :=
  { l.noteChosen slot term with chosen := l.chosen.advance slot }

/-- `advance_applied_frontier`. -/
def advanceAppliedFrontier (slot : ℕ) : PxLearner := { l with applied := l.applied.advance slot }

/-- All frontiers start at a slot that the engine already reflects. -/
def seedResumeFrontier : PxLearner :=
  { l with chosen := .upTo slot, applied := .upTo slot, lastChosenSlot := slot,
           lastChosenTerm := term }

/-- `dedup_lookup`. -/
def dedupLookup (clientId seq : ℕ) : Option ℕ :=
  if clientId = 0 then none else (l.dedup clientId).lookup seq

/-- One tag is recorded against the slot, unless it is the no-dedup sentinel. -/
def recordDedupTag (slot : ℕ) (tag : DedupTag) : PxLearner :=
  if tag.clientId = 0 then l
  else { l with dedup := Function.update l.dedup tag.clientId ((l.dedup tag.clientId).record
    tag.seq slot) }

/-- The tags of an entry. -/
def recordDedupTags (tags : List DedupTag) (slot : ℕ) : PxLearner :=
  tags.foldl (fun l tag => l.recordDedupTag slot tag) l

/-- The payload is handed to the engine, which may fail. -/
def applyEntry (slot : ℕ) (payload : Bytes) (ok : Bool) : PxLearner :=
  if ok then { l with engine := l.engine ++ [(slot, payload)] } else l

/-- The engine apply, and the applied frontier if it succeeded. -/
def applyAndAdvance (slot : ℕ) (payload : Bytes) (ok : Bool) : PxLearner :=
  if ok then (l.applyEntry slot payload ok).advanceAppliedFrontier slot
  else l.applyEntry slot payload ok

/-- `learn`: apply, chosen frontier, applied frontier if the apply succeeded, tags. -/
def learn (entry : PxLogEntry) (tags : List DedupTag) (ok : Bool) : PxLearner :=
  let l := l.applyEntry entry.slot entry.payload ok
  let l := l.updateChosenFrontier entry.slot entry.term
  let l := if ok then l.advanceAppliedFrontier entry.slot else l
  l.recordDedupTags tags entry.slot

/-- The synchronous half of `spawn_learn_chosen`. -/
def learnDeferred (entry : PxLogEntry) (tags : List DedupTag) : PxLearner :=
  (l.updateChosenFrontier entry.slot entry.term).recordDedupTags tags entry.slot

/-! ### Fields under the operations -/

variable {l : PxLearner} {slot term : ℕ} {payload : Bytes} {ok : Bool} {tags : List DedupTag}
  {entry : PxLogEntry}

@[simp] theorem noteChosen_chosen : (l.noteChosen slot term).chosen = l.chosen := by
  unfold noteChosen; split <;> rfl

@[simp] theorem noteChosen_applied : (l.noteChosen slot term).applied = l.applied := by
  unfold noteChosen; split <;> rfl

@[simp] theorem noteChosen_engine : (l.noteChosen slot term).engine = l.engine := by
  unfold noteChosen; split <;> rfl

@[simp] theorem noteChosen_dedup : (l.noteChosen slot term).dedup = l.dedup := by
  unfold noteChosen; split <;> rfl

@[simp] theorem updateChosenFrontier_chosen : (l.updateChosenFrontier slot term).chosen =
      l.chosen.advance slot := rfl

@[simp] theorem updateChosenFrontier_applied :
    (l.updateChosenFrontier slot term).applied = l.applied := noteChosen_applied

@[simp] theorem updateChosenFrontier_engine : (l.updateChosenFrontier slot term).engine =
      l.engine := noteChosen_engine

@[simp] theorem updateChosenFrontier_dedup : (l.updateChosenFrontier slot term).dedup = l.dedup :=
  noteChosen_dedup

theorem recordDedupTags_eq (slot : ℕ) : ∀ (tags : List DedupTag) (l : PxLearner),
    ∃ dedup, l.recordDedupTags tags slot = { l with dedup }
  | [], l => ⟨l.dedup, rfl⟩
  | tag :: tags, l => by
    obtain ⟨d, hd⟩ : ∃ d, l.recordDedupTag slot tag = { l with dedup := d } := by
      unfold recordDedupTag
      split
      · exact ⟨l.dedup, rfl⟩
      · exact ⟨_, rfl⟩
    obtain ⟨d', hd'⟩ := recordDedupTags_eq slot tags (l.recordDedupTag slot tag)
    refine ⟨d', ?_⟩
    show (l.recordDedupTag slot tag).recordDedupTags tags slot = _
    rw [hd', hd]

@[simp] theorem recordDedupTags_chosen : (l.recordDedupTags tags slot).chosen = l.chosen := by
  obtain ⟨d, hd⟩ := recordDedupTags_eq slot tags l
  rw [hd]

@[simp] theorem recordDedupTags_applied : (l.recordDedupTags tags slot).applied = l.applied := by
  obtain ⟨d, hd⟩ := recordDedupTags_eq slot tags l
  rw [hd]

@[simp] theorem recordDedupTags_engine : (l.recordDedupTags tags slot).engine = l.engine := by
  obtain ⟨d, hd⟩ := recordDedupTags_eq slot tags l
  rw [hd]

theorem mem_recordDedupTags {c : ℕ} {p : ℕ × ℕ} : ∀ {tags : List DedupTag} {l : PxLearner},
    p ∈ ((l.recordDedupTags tags slot).dedup c).entries →
      p ∈ (l.dedup c).entries ∨ ∃ tag ∈ tags, tag.clientId = c ∧ p = (tag.seq, slot)
  | [], _, h => .inl h
  | tag :: tags, l, h => by
    rcases mem_recordDedupTags (l := l.recordDedupTag slot tag) h with h | ⟨tag', ht, hc, hp⟩
    · unfold recordDedupTag at h
      split at h
      · exact .inl h
      · by_cases hc : c = tag.clientId
        · subst hc
          dsimp only at h
          rw [Function.update_self] at h
          rcases DedupWindow.mem_record h with h | h
          · exact .inl h
          · exact .inr ⟨tag, mem_cons_self, rfl, h⟩
        · dsimp only at h
          rw [Function.update_of_ne hc] at h
          exact .inl h
    · exact .inr ⟨tag', mem_cons_of_mem _ ht, hc, hp⟩

/-- The pairs in the windows of `l'` come from those of `l`, or are the tags at the slot. -/
def DedupFrom (l l' : PxLearner) (tags : List DedupTag) (slot : ℕ) : Prop :=
  ∀ c, ∀ p ∈ (l'.dedup c).entries, p ∈ (l.dedup c).entries ∨ ∃ tag ∈ tags, tag.clientId = c ∧
    p = (tag.seq, slot)

theorem dedupFrom_recordDedupTags : l.DedupFrom (l.recordDedupTags tags slot) tags slot :=
  fun _ _ hp => mem_recordDedupTags hp

theorem dedupFrom_learn : l.DedupFrom (l.learn entry tags ok) tags entry.slot := by
  intro c p hp
  have hold := mem_recordDedupTags hp
  cases ok <;> simpa [applyEntry, advanceAppliedFrontier] using hold

theorem dedupFrom_learnDeferred : l.DedupFrom (l.learnDeferred entry tags) tags entry.slot := by
  intro c p hp
  simpa using mem_recordDedupTags hp

@[simp] theorem applyAndAdvance_dedup : (l.applyAndAdvance slot payload ok).dedup = l.dedup := by
  cases ok <;> rfl

theorem mem_applyAndAdvance_engine {p : ℕ × Bytes}
    (h : p ∈ (l.applyAndAdvance slot payload ok).engine) : p ∈ l.engine ∨ p = (slot, payload) := by
  cases ok with
  | false => exact .inl h
  | true =>
    rcases mem_append.mp h with h | h
    · exact .inl h
    · exact .inr (mem_singleton.mp h)

theorem subset_applyAndAdvance_engine : l.engine ⊆ (l.applyAndAdvance slot payload ok).engine := by
  cases ok with
  | false => exact List.Subset.refl _
  | true => exact subset_append_left ..

theorem learn_engine : (l.learn entry tags ok).engine =
      (l.applyAndAdvance entry.slot entry.payload ok).engine := by
  cases ok <;> simp [learn, applyAndAdvance, applyEntry, advanceAppliedFrontier]

theorem learn_chosen : (l.learn entry tags ok).chosen = l.chosen.advance entry.slot := by
  cases ok <;> simp [learn, applyEntry, advanceAppliedFrontier]

@[simp] theorem learnDeferred_engine : (l.learnDeferred entry tags).engine = l.engine := by
  simp [learnDeferred]

theorem mem_of_dedupLookup {clientId seq : ℕ} (h : l.dedupLookup clientId seq = some slot) :
    (seq, slot) ∈ (l.dedup clientId).entries := by
  unfold dedupLookup at h
  split at h
  · simp at h
  · exact DedupWindow.mem_of_lookup h

/-! ### What the applied frontier stands for -/

/-- The engine has applied every slot counted as applied (slot `0` is no slot). -/
def EngineBacked : Prop := ∀ s, l.applied.Mem s → s = 0 ∨ s ∈ l.engine.map Prod.fst

theorem engineBacked_new : new.EngineBacked := by
  rintro s (h | h)
  · exact .inl (Nat.le_zero.mp h)
  · simp [new, Frontier.upTo] at h

theorem EngineBacked.congr {l' : PxLearner} (h : l.EngineBacked) (ha : l'.applied = l.applied)
    (he : l'.engine = l.engine) : l'.EngineBacked := by
  unfold EngineBacked at *
  rwa [ha, he]

theorem EngineBacked.applyAndAdvance (h : l.EngineBacked) (slot : ℕ) (payload : Bytes)
    (ok : Bool) : (l.applyAndAdvance slot payload ok).EngineBacked := by
  cases ok with
  | false => exact h
  | true =>
    intro s hs
    show s = 0 ∨ s ∈ (l.engine ++ [(slot, payload)]).map Prod.fst
    rw [map_append, mem_append]
    rcases Frontier.mem_advance.mp hs with hs | rfl
    · exact (h s hs).imp id .inl
    · exact .inr (.inr (mem_singleton.mpr rfl))

theorem EngineBacked.learn (h : l.EngineBacked) : (l.learn entry tags ok).EngineBacked := by
  have := h.applyAndAdvance entry.slot entry.payload ok
  refine this.congr ?_ learn_engine
  cases ok <;> simp [PxLearner.learn, PxLearner.applyAndAdvance, applyEntry, advanceAppliedFrontier]

theorem EngineBacked.learnDeferred (h : l.EngineBacked) : (l.learnDeferred entry tags).EngineBacked :=
  h.congr (by simp [PxLearner.learnDeferred]) learnDeferred_engine

theorem EngineBacked.mem_engine (h : l.EngineBacked) {s : ℕ} (hs : 0 < s)
    (hle : s ≤ l.contiguousApplied) : s ∈ l.engine.map Prod.fst :=
  (h s (.inl hle)).resolve_left (by omega)

end PxLearner

end CrowDB
