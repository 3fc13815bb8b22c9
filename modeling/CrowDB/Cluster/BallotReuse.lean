/-
  One payload per slot and ballot, over crashes and restarts.

  Above round `0` this holds in every run (`Cluster.Ballots`).  At round `0` the ballot is
  `(0, leader_id)`, so a leader must not use a slot twice; between two restarts it does
  not (`SlotInv`).

  On the early-ack path the leader sends an `Accept` before its own record of the slot is
  in the WAL, and `next_slot` is seeded from the WAL: `ballot_reused_after_restart`.
-/
import CrowDB.Cluster.Ballots

namespace CrowDB

open Lib Function

/-! ## Slots of proposals -/

/-- The slot of the proposal with attempt number `k`. -/
def assignedSlot (att : ℕ → Option Attempt) (k : ℕ) : Option ℕ := (att k).bind Attempt.fastSlot

/-- Proposals keep their slots, and at most one of them gets the next slot. -/
structure SlotsFrom (att : ℕ → Option Attempt) (ns : ℕ) (att' : ℕ → Option Attempt) (ns' : ℕ) :
    Prop where
  le : ns ≤ ns'
  origin : ∃ k₀, ∀ k slot, assignedSlot att' k = some slot →
    assignedSlot att k = some slot ∨ (k = k₀ ∧ slot = ns ∧ ns < ns')

namespace SlotsFrom

variable {att att' : ℕ → Option Attempt} {ns ns' k na : ℕ} {a : Attempt} {o : Option Attempt}

theorem same (hatt : att' = att) (hle : ns ≤ ns') : SlotsFrom att ns att' ns' :=
  ⟨hle, 0, fun _ _ hk => .inl (hatt ▸ hk)⟩

theorem set (ho : ∀ slot, o.bind Attempt.fastSlot = some slot → slot = ns ∧ ns < ns')
    (hle : ns ≤ ns') : SlotsFrom att ns (update att k o) ns' := by
  refine ⟨hle, k, fun k' slot hk' => ?_⟩
  unfold assignedSlot at hk' ⊢
  by_cases he : k' = k
  · subst he
    rw [update_self] at hk'
    exact .inr ⟨rfl, ho slot hk'⟩
  · rw [update_of_ne he] at hk'
    exact .inl hk'

theorem drop (hle : ns ≤ ns') : SlotsFrom att ns (update att k none) ns' := set (by simp) hle

theorem renew (ha : ∀ slot, a.fastSlot = some slot → slot = ns ∧ ns < ns') (hle : ns ≤ ns') :
    SlotsFrom att ns (update (update att k none) na (some a)) ns' := by
  refine ⟨hle, na, fun k' slot hk' => ?_⟩
  unfold assignedSlot at hk' ⊢
  by_cases he : k' = na
  · subst he
    rw [update_self] at hk'
    exact .inr ⟨rfl, ha slot hk'⟩
  · rw [update_of_ne he] at hk'
    by_cases hek : k' = k
    · subst hek
      simp at hk'
    · rw [update_of_ne hek] at hk'
      exact .inl hk'

end SlotsFrom

/-- What a step does to the slots of client proposals and which `Accept` it sends. -/
inductive SlotMove (n : ℕ) (r : Replica) (o : Outcome) : Prop
  | quiet (hslots : SlotsFrom r.attempts r.nextSlot o.1.attempts o.1.nextSlot)
      (houts : ∀ req, .send (.accept req) ∈ o.2 → ∃ job entry replies,
        r.attempts req.attempt = some ⟨job, .preparing entry replies⟩ ∧
          req.entry.ballot = entry.ballot)
  | start (k slot : ℕ) (payload : Bytes) (tags : List DedupTag)
      (hk : assignedSlot r.attempts k = some slot) (hnext : o.1.nextSlot = r.nextSlot)
      (hatt : ∀ k' slot', assignedSlot o.1.attempts k' = some slot' → k' ≠ k ∧
        assignedSlot r.attempts k' = some slot')
      (houts : o.2 = [.send (.accept ⟨n, k, r.baseEntry n slot payload, tags⟩)])

/-- No `Accept` is sent. -/
def NoAccept (outs : List Effect) : Prop := ∀ req, .send (.accept req) ∉ outs

theorem NoAccept.nil : NoAccept [] := by simp [NoAccept]

variable {cfg : GroupConfig} {r : Replica} {H : List (ℕ × Effect)} {records : List WALRecord}
  {record : WALRecord}
  {o : Outcome}

namespace Replica

variable {n : ℕ}

theorem slotMove_quiet (hslots : SlotsFrom r.attempts r.nextSlot o.1.attempts o.1.nextSlot)
    (houts : NoAccept o.2) : SlotMove n r o :=
  .quiet hslots fun req hreq => absurd hreq (houts req)

theorem slotMove_same (hatt : o.1.attempts = r.attempts) (hnext : r.nextSlot ≤ o.1.nextSlot)
    (houts : NoAccept o.2) : SlotMove n r o :=
  slotMove_quiet (.same hatt hnext) houts

end Replica

theorem SlotEnd.slots {r' : Replica} {k : ℕ} {job : Job} (h : SlotEnd r k job r') :
    SlotsFrom r.attempts r.nextSlot r'.attempts r'.nextSlot := by
  cases h with
  | ended _ hnext => exact .drop hnext
  | renew _ _ hnext _ _ _ hslot => exact .renew hslot hnext

open Replica in
theorem ReplicaStep.slotMove {n : ℕ} {ev : GroupEvent} (h : ReplicaStep cfg n ev H r o) :
    SlotMove n r o := by
  cases h with
  | finalize => exact slotMove_same rfl (le_max_left ..) (by simp [finalizeLeader, NoAccept])
  | tenureBulk | propose | flush | planBulk | prepareReply | acceptReply =>
    exact slotMove_quiet (.set (by simp [Attempt.fastSlot]) le_rfl) .nil
  | assign =>
    refine slotMove_quiet (.set (fun slot hs => ?_) (Nat.le_succ _)) .nil
    obtain rfl : r.nextSlot = slot := by simpa [Attempt.fastSlot] using hs
    exact ⟨rfl, Nat.lt_succ_self _⟩
  | drop => exact slotMove_quiet (.drop le_rfl) .nil
  | finishBulk => exact slotMove_quiet (.drop (le_max_left ..)) .nil
  | beginPrepare | repair =>
    exact slotMove_quiet (.set (by simp [Attempt.fastSlot]) le_rfl)
      (by simp [Replica.beginPrepare, NoAccept])
  | acceptZero k slot payload tags _ _ _ _ hk =>
    refine .start k slot payload tags (by simp [assignedSlot, hk, Attempt.fastSlot]) rfl
      (fun k' slot' hk' => ?_) rfl
    by_cases he : k' = k
    · subst he
      simp [beginAccept, setAttempt, assignedSlot, Attempt.fastSlot] at hk'
    · simp only [beginAccept, setAttempt, assignedSlot, update_of_ne he] at hk'
      exact ⟨he, hk'⟩
  | acceptPrepared k job entry entry' _ replies _ hk hproceed =>
    obtain ⟨-, -, hballot, -, -⟩ := of_prepareAttempt_proceed hproceed
    refine .quiet (.set (by simp [Attempt.fastSlot]) le_rfl) fun req hreq => ?_
    obtain rfl : req = ⟨n, k, acceptEntry job entry', job.tags⟩ := by
      simpa [beginAccept] using hreq
    exact ⟨job, entry, replies, hk, by rw [acceptEntry_ballot, hballot]⟩
  | endSlot _ _ _ _ _ hend => exact slotMove_quiet hend.slots .nil
  | chosen _ _ _ _ _ _ _ _ _ _ _ _ _ _ _ hend =>
    exact slotMove_quiet hend.slots (by simp [NoAccept])
  | appended _ _ _ _ _ _ _ ho =>
    cases ho with
    | elected => exact slotMove_same rfl (le_max_left ..) (by simp [NoAccept])
    | _ => exact slotMove_same rfl le_rfl (by simp [NoAccept])
  | _ => exact slotMove_same rfl le_rfl (by simp [NoAccept, becomeCandidate, Replica.grantVote])

/-! ## Slots are used once -/

/-- At round `0` a slot has one `Accept`. -/
structure SlotInv (E : Set Effect) (r : Replica) : Prop where
  sent_lt : ∀ {req}, .send (.accept req) ∈ E → req.entry.ballot.round = 0 →
    req.entry.slot < r.nextSlot
  assigned_lt : ∀ {k slot}, assignedSlot r.attempts k = some slot → slot < r.nextSlot
  assigned_unsent : ∀ {k slot req}, assignedSlot r.attempts k = some slot →
    .send (.accept req) ∈ E → req.entry.ballot.round = 0 → req.entry.slot ≠ slot
  distinct : ∀ {k k' slot}, assignedSlot r.attempts k = some slot → assignedSlot r.attempts k' =
    some slot → k = k'
  unique : ∀ {req req'}, .send (.accept req) ∈ E → .send (.accept req') ∈ E →
    req.entry.ballot.round = 0 → req'.entry.ballot.round = 0 → req.entry.slot = req'.entry.slot →
    req = req'

theorem SlotMove.slotInv {n : ℕ} {E : Set Effect} (h : SlotMove n r o)
    (hprop : ProposerInv cfg H n E r)
    (hinv : SlotInv E r) : SlotInv (E ∪ {e | e ∈ o.2}) o.1 := by
  cases h with
  | quiet hslots houts =>
    -- an `Accept` at round `0` was sent before
    have hold : ∀ {req}, .send (.accept req) ∈ E ∪ {e | e ∈ o.2} → req.entry.ballot.round = 0 →
        .send (.accept req) ∈ E := by
      rintro req (hreq | hreq) hround
      · exact hreq
      · obtain ⟨job, entry, replies, hk, hb⟩ := houts req hreq
        have hpos := (hprop.gathered hk).round_pos
        rw [← hb] at hpos
        omega
    obtain ⟨k₀, horigin⟩ := hslots.origin
    have hlt := hslots.le
    refine ⟨fun hreq h0 => (hinv.sent_lt (hold hreq h0) h0).trans_le hlt, fun {k slot} hk => ?_,
      fun {k slot req} hk hreq h0 => ?_, fun {k k' slot} hk hk' => ?_,
      fun hreq hreq' h0 h0' => hinv.unique (hold hreq h0) (hold hreq' h0') h0 h0'⟩
    · rcases horigin k slot hk with hk | ⟨-, rfl, hns⟩
      · exact (hinv.assigned_lt hk).trans_le hlt
      · exact hns
    · rcases horigin k slot hk with hk | ⟨-, rfl, -⟩
      · exact hinv.assigned_unsent hk (hold hreq h0) h0
      · exact (hinv.sent_lt (hold hreq h0) h0).ne
    · rcases horigin k slot hk with hk | ⟨rfl, rfl, -⟩ <;>
        rcases horigin k' _ hk' with hk' | ⟨rfl, hs, -⟩
      · exact hinv.distinct hk hk'
      · exact absurd hs (hinv.assigned_lt hk).ne
      · exact absurd (hinv.assigned_lt hk') (lt_irrefl _)
      · rfl
  | start k slot payload tags hk hnext hatt houts =>
    -- the `Accept` sent now has the slot of attempt `k`, which no other proposal has
    have hnew : ∀ {req}, .send (.accept req) ∈ o.2 →
        req = ⟨n, k, r.baseEntry n slot payload, tags⟩ := fun hreq => by simpa [houts] using hreq
    refine ⟨fun {req} hreq h0 => ?_, fun {k' slot'} hk' => ?_, fun {k' slot' req} hk' hreq h0 => ?_,
      fun {k₁ k₂ slot'} hk₁ hk₂ => ?_, fun {req req'} hreq hreq' h0 h0' hs => ?_⟩
    · rw [hnext]
      rcases hreq with hreq | hreq
      · exact hinv.sent_lt hreq h0
      · rw [hnew hreq]
        exact hinv.assigned_lt hk
    · rw [hnext]
      exact hinv.assigned_lt (hatt k' slot' hk').2
    · obtain ⟨hne, hk'⟩ := hatt k' slot' hk'
      rcases hreq with hreq | hreq
      · exact hinv.assigned_unsent hk' hreq h0
      · rw [hnew hreq]
        rintro rfl
        exact hne (hinv.distinct hk' hk)
    · exact hinv.distinct (hatt k₁ slot' hk₁).2 (hatt k₂ slot' hk₂).2
    · rcases hreq with hreq | hreq <;> rcases hreq' with hreq' | hreq'
      · exact hinv.unique hreq hreq' h0 h0' hs
      · rw [hnew hreq'] at hs
        exact absurd hs (hinv.assigned_unsent hk hreq h0)
      · rw [hnew hreq] at hs
        exact absurd hs.symm (hinv.assigned_unsent hk hreq' h0')
      · rw [hnew hreq, hnew hreq']

/-! ## Restarts -/

theorem slot_le_restoreAcceptor (h : record ∈ records) :
    record.slot ≤ (restoreAcceptor records).highestSeenSlot := by
  induction records using List.reverseRecOn with
  | nil => simp at h
  | append_singleton records r ih =>
    rw [restoreAcceptor_concat]
    have hkeep : (restoreAcceptor records).highestSeenSlot ≤
        (restoreRecord (restoreAcceptor records) r).highestSeenSlot := by
      cases r with
      | promised => exact le_max_left ..
      | accepted => exact le_max_left ..
      | voteGranted => exact le_rfl
    rcases List.mem_append.mp h with h | h
    · exact (ih h).trans hkeep
    · obtain rfl := List.mem_singleton.mp h
      cases record with
      | promised => exact le_max_right ..
      | accepted => exact le_max_right ..
      | voteGranted => exact Nat.zero_le _

theorem Replica.slot_lt_restore_nextSlot
    (h : record ∈ records) (resumeFrom : ℕ) (ok : ℕ → Bool) :
    record.slot < (r.restoreFromReplay records resumeFrom ok).nextSlot := by
  have hle := slot_le_restoreAcceptor h
  have hnext : (restoreAcceptor records).highestSeenSlot + 1 ≤
      (r.restoreFromReplay records resumeFrom ok).nextSlot := by
    simp only [restoreFromReplay]
    omega
  omega

namespace GroupState

variable {s s' : GroupState} {e : GroupEvent}

/-- A replica that restarts finds a record at or above every slot for which it has sent a
    round-`0` `Accept`. -/
def FastSlotsDurable (s : GroupState) (e : GroupEvent) : Prop :=
  e.isRestart = true → ∀ req ∈ s.accepts, req.proposer = e.replica →
    req.entry.ballot.round = 0 → ∃ record ∈ (s.replicas e.replica).wal, req.entry.slot ≤ record.slot
deriving Decidable

theorem slotInv_step (hinv : ∀ m, SlotInv (s.effects m) (s.replicas m)) (hprop : s.ProposersInv cfg)
    (hok : s.FastSlotsDurable e) (h : groupStep cfg s e = some s') :
    ∀ m, SlotInv (s'.effects m) (s'.replicas m) := by
  cases he : e.isRestart with
  | false =>
    obtain ⟨o, hstep, rfl⟩ := replicaStep_of_groupStep he h
    exact forall_after hinv (hstep.slotMove.slotInv (hprop _) (hinv _))
  | true =>
    have hdurable := hok he
    obtain ⟨n, records, resumeFrom, ok, rfl, hperm, -, rfl⟩ := restart_of_groupStep he h
    refine forall_after hinv ?_
    rw [show s.effects n ∪ {e | e ∈ ([] : List Effect)} = s.effects n by simp]
    have hnone : ∀ {k slot},
        assignedSlot ((s.replicas n).restoreFromReplay records resumeFrom ok).attempts k ≠
          some slot := by
      simp [assignedSlot, Replica.restoreFromReplay, Replica.new]
    refine ⟨fun {req} hreq h0 => ?_, fun hk => absurd hk hnone, fun hk => absurd hk hnone,
      fun hk => absurd hk hnone, (hinv n).unique⟩
    -- the record found lifts `next_slot` above the slot
    obtain ⟨record, hrec, hle⟩ :=
      hdurable req (mem_accepts.mpr ⟨n, hreq⟩) ((hprop n).request hreq).1 h0
    exact hle.trans_lt (Replica.slot_lt_restore_nextSlot (hperm.mem_iff.mpr hrec) resumeFrom ok)

theorem slotInv_of_reach (h : Reach (groupStep cfg) FastSlotsDurable .init s) :
    ∀ m, SlotInv (s.effects m) (s.replicas m) := by
  refine Reach.invariant_of (P := ProposersInv cfg)
    (Q := fun s => ∀ m, SlotInv (s.effects m) (s.replicas m)) proposersInv_of_reach (fun m => ?_)
    (fun hprop hinv hok hs => slotInv_step hinv hprop hok hs) h
  constructor <;> simp [GroupState.init, Replica.new, assignedSlot]

/-- **Ballots are used once**, if restarts do not forget slots already sent. -/
theorem accept_payload_eq_of_reach (h : Reach (groupStep cfg) FastSlotsDurable .init s)
    {req req' : AcceptRequest} (hreq : req ∈ s.accepts) (hreq' : req' ∈ s.accepts)
    (hslot : req.entry.slot = req'.entry.slot) (hballot : req.entry.ballot = req'.entry.ballot) :
    req.entry.payload = req'.entry.payload := by
  have hprop := proposersInv_of_reach h
  by_cases hround : req.entry.ballot.round = 0
  · obtain ⟨n, hn⟩ := mem_accepts.mp hreq
    obtain ⟨n', hn'⟩ := mem_accepts.mp hreq'
    -- the ballot names the replica that sent both
    have hleader : ∀ {n req}, (n, Effect.send (.accept req)) ∈ s.history →
        req.entry.ballot.round = 0 → req.entry.ballot.leaderId = n := by
      intro n req hn h0
      rcases (hprop n).evidence hn with hb | ⟨entry, replies, hp⟩
      · rw [hb]
      · have hpos := hp.round_pos
        rw [← hp.ballot] at hpos
        omega
    obtain rfl : n = n' := by
      rw [← hleader hn hround, ← hleader hn' (hballot ▸ hround), hballot]
    rw [(slotInv_of_reach h n).unique hn hn' hround (hballot ▸ hround) hslot]
  · rw [accept_eq_of_prepared (promiseInv_of_reach h) hprop hreq hreq' hslot hballot
      (Nat.one_le_iff_ne_zero.mpr hround)]

/-- The leader's own record of slot `1` is in the WAL before it crashes; after the restart
    it goes on with slot `2`. -/
theorem accept_payload_eq_after_restart : ∃ s, Reach (groupStep (defaultGroup 3)) FastSlotsDurable
    .init s ∧ ⟨1, 3, ⟨1, ⟨0, 1⟩, 1, [65]⟩, []⟩ ∈ s.accepts ∧
      ⟨1, 7, ⟨2, ⟨0, 1⟩, 2, [66]⟩, []⟩ ∈ s.accepts ∧
      ∀ req ∈ s.accepts, req.entry.slot = 1 → req.entry.ballot = ⟨0, 1⟩ →
    req.entry.payload = [65] := by
  exact Reach.exists_imp_of_run (fun s => ⟨1, 3, ⟨1, ⟨0, 1⟩, 1, [65]⟩, []⟩ ∈ s.accepts ∧
    ⟨1, 7, ⟨2, ⟨0, 1⟩, 2,
      [66]⟩, []⟩ ∈ s.accepts)
    (firstWriteRun 1 2 none ++
      [.act 2 (.appended 0), .deliver 1 10 true, .deliver 1 12 true, .act 1 (.acceptDone 3 true),
        .act 1 (.appended 0),
        .act 1 (.restart [.accepted ⟨1, ⟨0, 1⟩, 1, [65]⟩, .voteGranted 1 1] 0 fun _ => true)] ++
      electionRun 1 2 14 0 0 ++
      [.act 1 (.propose none [66]), .act 1 (.acquire 7), .act 1 (.start 7)])
        (by decide +kernel) fun s hr ⟨h1, h2⟩ => ⟨h1, h2, fun req hreq hslot hb =>
        accept_payload_eq_of_reach hr hreq h1 hslot hb⟩

/-- Leader `1` sends its `Accept` for slot `1` and crashes before its own record is in the WAL;
    replica `3`, which has not seen it, elects it again. -/
def forgottenSlotRun : List GroupEvent := firstWriteRun 1 2 none ++
  [.act 1 (.restart [.voteGranted 1 1] 0 fun _ => true)] ++
  electionRun 1 3 12 0 0 ++
  [.act 1 (.propose none [66]), .act 1 (.acquire 7), .act 1 (.start 7)]

/-- Two payloads go out with one slot and ballot. -/
theorem ballot_reused_after_restart : ∃ s, Reach (groupStep (defaultGroup 3)) anyStep .init s ∧
    ⟨1, 3, ⟨1, ⟨0, 1⟩, 1, [65]⟩, []⟩ ∈ s.accepts ∧
    ⟨1, 7, ⟨1, ⟨0, 1⟩, 2, [66]⟩, []⟩ ∈ s.accepts := by
  exact Reach.exists_of_run forgottenSlotRun (by decide +kernel)

end GroupState

end CrowDB
