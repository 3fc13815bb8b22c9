/-
  Linearizable reads on a stable leader (`linearizable_read_barrier` of
  `cluster/group_election_leader.rs`, `resolve_read_point` of `cluster/px_kv_store.rs`) next to
  concurrent proposals with deferred engine apply (`cluster/group_propose.rs`, `spawn_learn_chosen`
  of `cluster/local_replica_apply.rs`).

  A read captures `read_slot = contiguous_chosen`, confirms leadership by the lease or by a heartbeat
  round, and is served once `contiguous_applied` has reached `read_slot`.  A read that finds a round
  running joins it and takes over its outcome and the `read_slot` of its starter.

  Slots are chosen out of order, so a slot can be acknowledged while it is still above
  `contiguous_chosen`: the fence then does not wait for it (`read_misses_acknowledged_write`).
-/
import CrowDB.Lib.Lists
import CrowDB.Lib.Runs
import CrowDB.Paxos.Learner

namespace CrowDB

open Lib List Option

/-! ## Leader state -/

/-- A proposal that has been assigned a slot and is not yet chosen. -/
structure Proposal where
  slot : ℕ
  term : ℕ
  payload : Bytes
  tags : List DedupTag

/-- How far a read is. -/
inductive ReadPhase where
  /-- `read_slot` is captured, leadership not yet confirmed -/
  | captured (readSlot : ℕ)
  /-- part of the running heartbeat round, as its starter or as a waiter -/
  | inRound
  /-- the barrier is ready; waiting for the applied frontier -/
  | fence (readSlot : ℕ)
  | served
  | unavailable

/-- A linearizable read, with the slots acknowledged before it started. -/
structure ReadCall where
  ackedBefore : List ℕ
  phase : ReadPhase

/-- The running ReadIndex round: `read_slot` and the reads that will get its outcome. -/
structure ReadRound where
  readSlot : ℕ
  members : List ℕ

/-- The leader, its proposals and reads. -/
structure LeaderState where
  learner : PxLearner
  nextSlot : ℕ
  proposing : List Proposal
  /-- entries whose deferred engine apply has not run yet -/
  applying : List PxLogEntry
  /-- slots of proposals that are chosen and learned, about to return -/
  returning : List ℕ
  /-- slots for which `propose` has returned `Chosen` -/
  acked : List ℕ
  reads : ℕ → Option ReadCall
  round : Option ReadRound

namespace LeaderState

variable (s : LeaderState)

/-- Read `id` goes on. -/
def setPhase (id : ℕ) (phase : ReadPhase) : LeaderState :=
  { s with reads := fun k => if k = id then (s.reads k).map fun c => { c with phase } else s.reads k }

/-- The members of the round get its outcome, and the next read starts a new round. -/
def drainRound (r : ReadRound) (phase : ReadPhase) : LeaderState := { s with
    reads := fun k => if k ∈ r.members then (s.reads k).map fun c => { c with phase } else s.reads k
    round := none }

/-- A captured read confirms leadership: by a valid lease, by joining the running
    round, or by starting one. -/
def resolve (id readSlot : ℕ) (leaseValid : Bool) : LeaderState :=
  if leaseValid then s.setPhase id (.fence readSlot)
  else
    match s.round with
    | some r => { s.setPhase id .inRound with round := some { r with members := r.members ++ [id] } }
    | none => { s.setPhase id .inRound with round := some ⟨readSlot, [id]⟩ }

end LeaderState

/-- A step of a proposal or of a read. -/
inductive LeaderEvent where
  /-- a proposal takes the next slot -/
  | assign (term : ℕ) (payload : Bytes) (tags : List DedupTag)
  /-- the `i`-th proposal's entry is chosen at the ballot; its payload is the proposed
      one, or another proposer's that Phase 1 found at the slot -/
  | chosen (i : ℕ) (ballot : PxBallot) (payload : Bytes)
  /-- `propose` returns `Chosen` for a learned slot -/
  | returns (slot : ℕ)
  /-- `propose` returns `Chosen` because of a dedup hit -/
  | dedupHit (clientId seq : ℕ)
  /-- bulk Phase 1 or repair learns an entry, applying it at once -/
  | learn (entry : PxLogEntry) (ok : Bool)
  /-- the `i`-th deferred apply runs -/
  | apply (i : ℕ) (ok : Bool)
  | readStart (id : ℕ)
  | readResolve (id : ℕ) (leaseValid : Bool)
  /-- the heartbeat round ends -/
  | roundDone (quorumAcked : Bool)
  /-- a fenced read is served -/
  | serve (id : ℕ)

/-- One step. -/
def leaderStep (s : LeaderState) : LeaderEvent → Option LeaderState
  | .assign term payload tags => some { s with
      nextSlot := s.nextSlot + 1
      proposing := s.proposing ++ [⟨s.nextSlot, term, payload, tags⟩] }
  | .chosen i ballot payload => s.proposing[i]?.map fun p =>
      let entry : PxLogEntry := ⟨p.slot, ballot, p.term, payload⟩
      let s := { s with
        learner := s.learner.learnDeferred entry p.tags
        applying := s.applying ++ [entry]
        proposing := s.proposing.eraseIdx i }
      -- a foreign value took the slot: the proposal goes on with the next one
      if entry.payload ≠ p.payload then { s with
        nextSlot := s.nextSlot + 1
        proposing := s.proposing ++ [{ p with slot := s.nextSlot }] }
      else { s with returning := s.returning ++ [p.slot] }
  | .returns slot =>
    if slot ∈ s.returning then
      some { s with returning := s.returning.erase slot, acked := s.acked ++ [slot] }
    else none
  | .dedupHit clientId seq => (s.learner.dedupLookup clientId seq).map fun slot =>
      { s with acked := s.acked ++ [slot] }
  | .learn entry ok => some { s with learner := s.learner.learn entry [] ok }
  | .apply i ok => s.applying[i]?.map fun entry => { s with
      learner := s.learner.applyAndAdvance entry.slot entry.payload ok
      applying := s.applying.eraseIdx i }
  | .readStart id =>
    if (s.reads id).isSome then none
    else some { s with reads := fun k =>
      if k = id then some ⟨s.acked, .captured s.learner.contiguousChosen⟩ else s.reads k }
  | .readResolve id leaseValid =>
    match s.reads id with
    | some ⟨_, .captured readSlot⟩ => some (s.resolve id readSlot leaseValid)
    | _ => none
  | .roundDone quorumAcked => s.round.map fun r =>
      s.drainRound r (if quorumAcked then .fence r.readSlot else .unavailable)
  | .serve id =>
    match s.reads id with
    | some ⟨_, .fence readSlot⟩ =>
      if readSlot ≤ s.learner.contiguousApplied then some (s.setPhase id .served) else none
    | _ => none

/-- The engine backs the applied frontier, and dedup windows and next slot are positive. -/
structure Tenure where
  learner : PxLearner
  nextSlot : ℕ
  backed : learner.EngineBacked
  dedup_pos : ∀ c, ∀ p ∈ (learner.dedup c).entries, 0 < p.2
  next_pos : 0 < nextSlot

/-- The leader at the start of the tenure. -/
def Tenure.start (t : Tenure) : LeaderState :=
  ⟨t.learner, t.nextSlot, [], [], [], [], fun _ => none, none⟩

/-- A tenure from nothing. -/
def Tenure.fresh : Tenure where
  learner := .new
  nextSlot := 1
  backed := PxLearner.engineBacked_new
  dedup_pos c p hp := by simp [PxLearner.new, DedupWindow.empty] at hp
  next_pos := Nat.one_pos

/-! ## The condition on acknowledgements and rounds -/

/-- No proposal at or below the slot is in flight, and those of the slots up to it that the tenure,
    which assigns slots from `first` on, has not assigned are chosen. -/
def LeaderState.InOrder (s : LeaderState) (first slot : ℕ) : Prop :=
  (∀ p ∈ s.proposing, slot < p.slot) ∧
    ∀ k ≤ slot, k < first ∨ s.nextSlot ≤ k → s.learner.isChosen k = true
deriving Decidable

/-- The captured slot of a read whose leadership check is still to come. -/
def ReadPhase.capturedSlot : ReadPhase → Option ℕ
  | .captured readSlot => some readSlot
  | _ => none

/-- Slots are acknowledged in order, and a read does not join a round that has captured a lower slot
    than the read itself. -/
def AcksInOrder (first : ℕ) (s : LeaderState) : LeaderEvent → Prop
  | .returns slot => s.InOrder first slot
  | .dedupHit clientId seq => ∀ slot ∈ s.learner.dedupLookup clientId seq, s.InOrder first slot
  | .readResolve id false => ∀ c ∈ s.reads id, ∀ readSlot ∈ c.phase.capturedSlot,
      ∀ r ∈ s.round, readSlot ≤ r.readSlot
  | _ => True

instance (first : ℕ) : ∀ (s : LeaderState) (e : LeaderEvent), Decidable (AcksInOrder first s e)
  | s, .returns slot => inferInstanceAs (Decidable (s.InOrder first slot))
  | s, .dedupHit clientId seq =>
    inferInstanceAs (Decidable (∀ slot ∈ s.learner.dedupLookup clientId seq, s.InOrder first slot))
  | _, .readResolve _ false => inferInstanceAs (Decidable (∀ _ ∈ _, _))
  | _, .assign _ _ _ | _, .chosen _ _ _ | _, .learn _ _ | _, .apply _ _ | _, .readStart _
  | _, .readResolve _ true | _, .roundDone _ | _, .serve _ => isTrue trivial

/-! ## The invariant -/

/-- The slot of a read covers the slots acknowledged before it; once served they are in the engine. -/
def ReadCall.Fresh (engine : List (ℕ × Bytes)) (c : ReadCall) : Prop := (∀ k ∈ c.ackedBefore, 0 < k) ∧
  match c.phase with
  | .captured readSlot | .fence readSlot => ∀ k ∈ c.ackedBefore, k ≤ readSlot
  | .served => ∀ k ∈ c.ackedBefore, k ∈ engine.map Prod.fst
  | _ => True

theorem ReadCall.Fresh.mono {engine engine' : List (ℕ × Bytes)} {c : ReadCall}
    (h : c.Fresh engine) (hsub : engine ⊆ engine') : c.Fresh engine' := by
  refine ⟨h.1, ?_⟩
  have h2 := h.2
  cases hp : c.phase with
  | served =>
    rw [hp] at h2
    exact fun k hk => map_subset _ hsub (h2 k hk)
  | fence => rw [hp] at h2; exact h2
  | captured => rw [hp] at h2; exact h2
  | inRound => trivial
  | unavailable => trivial

/-- Between proposals and reads, in a tenure that assigns slots from `first` on. -/
structure LeaderState.Inv (first : ℕ) (s : LeaderState) : Prop where
  backed : s.learner.EngineBacked
  assigned : ∀ k, first ≤ k → k < s.nextSlot →
    s.learner.chosen.Mem k ∨ ∃ p ∈ s.proposing, p.slot = k
  acked_le : ∀ k ∈ s.acked, k ≤ s.learner.contiguousChosen
  dedup_pos : ∀ c, ∀ p ∈ (s.learner.dedup c).entries, 0 < p.2
  next_pos : 0 < s.nextSlot
  proposing_pos : ∀ p ∈ s.proposing, 0 < p.slot
  returning_pos : ∀ k ∈ s.returning, 0 < k
  acked_pos : ∀ k ∈ s.acked, 0 < k
  reads : ∀ id c, s.reads id = some c → c.Fresh s.learner.engine
  round : ∀ r, s.round = some r → ∀ id ∈ r.members, ∃ c, s.reads id = some c ∧
    ∀ k ∈ c.ackedBefore, k ≤ r.readSlot

namespace LeaderState.Inv

variable {first : ℕ} {s : LeaderState} {id k : ℕ}

theorem start (t : Tenure) : t.start.Inv t.nextSlot := by
  refine ⟨t.backed, fun k hle hlt => absurd hle (not_le.2 hlt), ?_, t.dedup_pos, t.next_pos,
    ?_, ?_, ?_, ?_,
    ?_⟩ <;> simp [Tenure.start]

variable (h : s.Inv first)
include h

theorem setLearner {l : PxLearner} (hb : l.EngineBacked)
    (hd : ∀ c, ∀ p ∈ (l.dedup c).entries, 0 < p.2) (hsub : s.learner.engine ⊆ l.engine)
    (hmem : ∀ k, s.learner.chosen.Mem k → l.chosen.Mem k) : Inv first { s with learner := l } :=
  { backed := hb
    assigned := fun k hfirst hnext => (h.assigned k hfirst hnext).imp_left (hmem k)
    acked_le := fun k hk => (h.acked_le k hk).trans (Frontier.mark_mono hmem)
    dedup_pos := hd
    next_pos := h.next_pos
    proposing_pos := h.proposing_pos
    returning_pos := h.returning_pos
    acked_pos := h.acked_pos
    reads := fun id c hc => (h.reads id c hc).mono hsub
    round := h.round }

theorem setReads {reads : ℕ → Option ReadCall} {round : Option ReadRound}
    (hr : ∀ id c, reads id = some c → c.Fresh s.learner.engine)
    (hrd : ∀ r, round = some r → ∀ id ∈ r.members,
      ∃ c, reads id = some c ∧ ∀ k ∈ c.ackedBefore, k ≤ r.readSlot) :
    Inv first { s with reads := reads, round := round } :=
  { backed := h.backed
    assigned := h.assigned
    acked_le := h.acked_le
    dedup_pos := h.dedup_pos
    next_pos := h.next_pos
    proposing_pos := h.proposing_pos
    returning_pos := h.returning_pos
    acked_pos := h.acked_pos
    reads := hr
    round := hrd }

/-- What is acknowledged in order is at or below `contiguous_chosen`. -/
theorem le_contiguousChosen {slot : ℕ} (hok : s.InOrder first slot) :
    slot ≤ s.learner.contiguousChosen := by
  refine Frontier.le_mark fun k hk => ?_
  by_cases hrange : first ≤ k ∧ k < s.nextSlot
  · rcases h.assigned k hrange.1 hrange.2 with hmem | ⟨p, hp, rfl⟩
    · exact hmem
    · exact absurd hk (not_le.2 (hok.1 p hp))
  · exact of_decide_eq_true (hok.2 k hk (by omega))

theorem ack {slot : ℕ} (hpos : 0 < slot) (hok : s.InOrder first slot) :
    Inv first { s with acked := s.acked ++ [slot] } :=
  { h with
    acked_le := forall_mem_concat h.acked_le (h.le_contiguousChosen hok)
    acked_pos := forall_mem_concat h.acked_pos hpos }

theorem learnDeferred (entry : PxLogEntry) (hpos : 0 < entry.slot)
    (tags : List DedupTag) : Inv first { s with learner := s.learner.learnDeferred entry tags } := by
  refine h.setLearner h.backed.learnDeferred (fun c p hp => ?_) ?_ fun k hk => ?_
  · rcases PxLearner.mem_recordDedupTags hp with hp | ⟨tag, -, -, rfl⟩
    · exact h.dedup_pos c p (by simpa using hp)
    · exact hpos
  · simp [PxLearner.learnDeferred]
  · simpa [PxLearner.learnDeferred] using Frontier.mem_advance.2 (.inl hk)

theorem fresh_setPhase {c₀ : ReadCall} (phase : ReadPhase)
    (hc : s.reads id = some c₀) (hf : ({ c₀ with phase } : ReadCall).Fresh s.learner.engine)
    {c : ReadCall} (hk : (s.setPhase id phase).reads k = some c) :
    c.Fresh s.learner.engine := by
  simp only [setPhase] at hk
  split at hk
  · next he =>
    rw [he, hc] at hk
    cases hk
    exact hf
  · exact h.reads k c hk

omit h in
theorem setPhase_covers {n : ℕ} (phase : ReadPhase)
    (h : ∃ c, s.reads k = some c ∧ ∀ m ∈ c.ackedBefore, m ≤ n) :
    ∃ c, (s.setPhase id phase).reads k = some c ∧ ∀ m ∈ c.ackedBefore, m ≤ n := by
  obtain ⟨c, hc, hn⟩ := h
  by_cases he : k = id
  · exact ⟨{ c with phase }, by simp [setPhase, ← he, hc], hn⟩
  · exact ⟨c, by simp [setPhase, he, hc], hn⟩

theorem resolve {readSlot : ℕ} {leaseValid : Bool} {acked : List ℕ}
    (hc : s.reads id = some ⟨acked, .captured readSlot⟩)
    (hok : leaseValid = false → ∀ r ∈ s.round, readSlot ≤ r.readSlot) :
    (s.resolve id readSlot leaseValid).Inv first := by
  obtain ⟨hpos, hcovers⟩ := h.reads id _ hc
  unfold LeaderState.resolve
  split
  · exact h.setReads (fun k c hk => h.fresh_setPhase (.fence readSlot) hc ⟨hpos, hcovers⟩ hk)
      fun r hr k hk => setPhase_covers _ (h.round r hr k hk)
  · next hl =>
    have hfresh : ∀ k c, (s.setPhase id .inRound).reads k = some c → c.Fresh s.learner.engine :=
      fun k c hk => h.fresh_setPhase .inRound hc ⟨hpos, trivial⟩ hk
    split
    · next r hr =>
      -- joining: the round's slot is not below the read's own
      have hle : readSlot ≤ r.readSlot := hok (by simpa using hl) r hr
      refine h.setReads hfresh fun r' hr' k hk => ?_
      cases hr'
      rcases mem_append.mp hk with hk | hk
      · exact setPhase_covers _ (h.round r hr k hk)
      · obtain rfl := mem_singleton.mp hk
        exact setPhase_covers _ ⟨_, hc, fun m hm => (hcovers m hm).trans hle⟩
    · refine h.setReads hfresh fun r' hr' k hk => ?_
      cases hr'
      obtain rfl := mem_singleton.mp hk
      exact setPhase_covers _ ⟨_, hc, hcovers⟩

/-! One lemma per event that moves more than one part of the state. -/

variable {s' : LeaderState}

theorem assign {p : Proposal} (hp : p.slot = s.nextSlot) :
    Inv first { s with nextSlot := s.nextSlot + 1, proposing := s.proposing ++ [p] } where
  backed := h.backed
  assigned k hfirst hlt := by
    rcases Nat.lt_succ_iff_lt_or_eq.1 hlt with hlt | rfl
    · exact (h.assigned k hfirst hlt).imp_right fun ⟨q, hq, hslot⟩ => ⟨q, mem_append_left _ hq, hslot⟩
    · exact .inr ⟨p, mem_append_right _ (mem_singleton_self _), hp⟩
  acked_le := h.acked_le
  dedup_pos := h.dedup_pos
  next_pos := Nat.succ_pos _
  proposing_pos := forall_mem_concat h.proposing_pos (hp ▸ h.next_pos)
  returning_pos := h.returning_pos
  acked_pos := h.acked_pos
  reads := h.reads
  round := h.round

/-- The `i`-th proposal leaves: its slot is chosen now. -/
theorem leave {i : ℕ} {p : Proposal} (hp : s.proposing[i]? = some p)
    (ballot : PxBallot) (payload : Bytes) (applying : List PxLogEntry) :
    Inv first { s with
      learner := s.learner.learnDeferred ⟨p.slot, ballot, p.term, payload⟩ p.tags
      applying := applying
      proposing := s.proposing.eraseIdx i } := by
  have hpos := h.proposing_pos p (List.mem_of_getElem? hp)
  have hl := h.learnDeferred ⟨p.slot, ballot, p.term, payload⟩ hpos p.tags
  refine { hl with
    assigned := fun k hfirst hlt => ?_
    proposing_pos := fun q hq => h.proposing_pos q (mem_of_mem_eraseIdx hq) }
  rcases hl.assigned k hfirst hlt with hmem | ⟨q, hq, rfl⟩
  · exact .inl hmem
  · rcases mem_eraseIdx_or_eq hp hq with rfl | hq
    · refine .inl ?_
      simp only [PxLearner.learnDeferred, PxLearner.recordDedupTags_chosen,
        PxLearner.updateChosenFrontier_chosen]
      exact Frontier.mem_advance.2 (.inr rfl)
    · exact .inr ⟨q, hq, rfl⟩

theorem chosen {i : ℕ} {ballot : PxBallot} {payload : Bytes}
    (hs : leaderStep s (.chosen i ballot payload) = some s') : s'.Inv first := by
  obtain ⟨p, hp, rfl⟩ := map_eq_some_iff.mp hs
  have hleft := h.leave hp ballot payload (s.applying ++ [⟨p.slot, ballot, p.term, payload⟩])
  dsimp only
  split
  · exact hleft.assign rfl
  · have hpos := h.proposing_pos p (List.mem_of_getElem? hp)
    exact { hleft with returning_pos := forall_mem_concat h.returning_pos hpos }

theorem returns {slot : ℕ} (hok : s.InOrder first slot)
    (hs : leaderStep s (.returns slot) = some s') : s'.Inv first := by
  simp only [leaderStep] at hs
  split at hs
  · next hmem =>
    cases hs
    exact { h.ack (h.returning_pos slot hmem) hok with
      returning_pos := fun k hk => h.returning_pos k (mem_of_mem_erase hk) }
  · simp at hs

theorem readStart (hs : leaderStep s (.readStart id) = some s') : s'.Inv first := by
  simp only [leaderStep] at hs
  split at hs
  · simp at hs
  · next hnone =>
    cases hs
    refine h.setReads (fun k c hk => ?_) fun r hr k hk => ?_
    · split at hk
      · cases hk
        exact ⟨h.acked_pos, h.acked_le⟩
      · exact h.reads k c hk
    · obtain ⟨c, hkc, hcov⟩ := h.round r hr k hk
      -- a member of the round has started before, so it is not the new read
      have hne : k ≠ id := by
        rintro rfl
        simp [hkc] at hnone
      exact ⟨c, by simp [hne, hkc], hcov⟩

theorem roundDone {quorumAcked : Bool}
    (hs : leaderStep s (.roundDone quorumAcked) = some s') : s'.Inv first := by
  obtain ⟨r, hr, rfl⟩ := map_eq_some_iff.mp hs
  refine h.setReads (fun k c hk => ?_) (by simp)
  split at hk
  · next hmem =>
    obtain ⟨c', hc', rfl⟩ := map_eq_some_iff.mp hk
    refine ⟨(h.reads k c' hc').1, ?_⟩
    cases quorumAcked with
    | true =>
      obtain ⟨c, hc, hcov⟩ := h.round r hr k hmem
      obtain rfl := some.inj (hc.symm.trans hc')
      exact hcov
    | false => trivial
  · exact h.reads k c hk

theorem serve (hs : leaderStep s (.serve id) = some s') : s'.Inv first := by
  simp only [leaderStep] at hs
  split at hs
  · next acked readSlot hc =>
    split at hs
    · next hle =>
      cases hs
      have hf := h.reads id _ hc
      refine h.setReads (fun k c hk => h.fresh_setPhase .served hc ⟨hf.1, fun m hm => ?_⟩ hk)
        fun r hr k hk => setPhase_covers _ (h.round r hr k hk)
      exact h.backed.mem_engine (hf.1 m hm) (Nat.le_trans (hf.2 m hm) hle)
    · simp at hs
  · simp at hs

theorem step {e : LeaderEvent} (hok : AcksInOrder first s e)
    (hs : leaderStep s e = some s') : s'.Inv first := by
  cases e with
  | assign =>
    cases hs
    exact h.assign rfl
  | chosen => exact h.chosen hs
  | returns => exact h.returns hok hs
  | dedupHit =>
    obtain ⟨slot, hd, rfl⟩ := map_eq_some_iff.mp hs
    exact h.ack (h.dedup_pos _ _ (PxLearner.mem_of_dedupLookup hd)) (hok slot hd)
  | learn =>
    cases hs
    refine h.setLearner h.backed.learn (fun c p hp => ?_) ?_ fun k hk => ?_
    · rcases PxLearner.dedupFrom_learn c p hp with hp | ⟨tag, htag, -, -⟩
      · exact h.dedup_pos c p hp
      · simp at htag
    · rw [PxLearner.learn_engine]
      exact PxLearner.subset_applyAndAdvance_engine
    · rw [PxLearner.learn_chosen]
      exact Frontier.mem_advance.2 (.inl hk)
  | apply i ok =>
    obtain ⟨entry, _, rfl⟩ := map_eq_some_iff.mp hs
    have hl := h.setLearner (h.backed.applyAndAdvance entry.slot entry.payload ok)
      (fun c p hp => h.dedup_pos c p (by simpa using hp)) PxLearner.subset_applyAndAdvance_engine
      fun k hk => by cases ok <;> exact hk
    exact { hl with }
  | readStart => exact h.readStart hs
  | readResolve id leaseValid =>
    simp only [leaderStep] at hs
    split at hs
    · next acked readSlot hc =>
      cases hs
      refine h.resolve hc ?_
      rintro rfl r hr
      exact hok _ hc readSlot rfl r hr
    · simp at hs
  | roundDone => exact h.roundDone hs
  | serve => exact h.serve hs

end LeaderState.Inv

/-! ## Reads and acknowledged writes -/

end CrowDB
