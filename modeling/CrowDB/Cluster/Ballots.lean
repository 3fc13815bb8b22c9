/-
  Promises and Phase-2 requests over whole runs, restarts included.
-/
import CrowDB.Lib.Lists
import CrowDB.Cluster.Moves

namespace CrowDB

open Lib List Function

/-! ## The effects of one replica -/

variable {o : Outcome} {n : ℕ}

namespace GroupState

variable {cfg : GroupConfig} {s s' : GroupState} {m : ℕ} {e : Effect}

/-- The effects of one replica. -/
def effects (s : GroupState) (n : ℕ) : Set Effect := {e | (n, e) ∈ s.history}

@[simp] theorem mem_effects : e ∈ s.effects n ↔ (n, e) ∈ s.history := Iff.rfl

theorem mem_history_after {p : ℕ × Effect} : p ∈ (s.after n o).history ↔ p ∈ s.history ∨
      (p.1 = n ∧ p.2 ∈ o.2) := by
  obtain ⟨m, e⟩ := p
  simp only [after, mem_append, mem_map, Prod.mk.injEq]
  refine or_congr_right ⟨?_, ?_⟩
  · rintro ⟨e', he', rfl, rfl⟩
    exact ⟨rfl, he'⟩
  · rintro ⟨rfl, he⟩
    exact ⟨e, he, rfl, rfl⟩

theorem effects_after_self : (s.after n o).effects n = s.effects n ∪ {e | e ∈ o.2} := by
  ext e
  simp [mem_history_after]

theorem effects_after_ne (h : m ≠ n) : (s.after n o).effects m = s.effects m := by
  ext e
  simp [mem_history_after, h]

@[simp] theorem replicas_after_self : (s.after n o).replicas n = o.1 := by simp [after]

theorem replicas_after_ne (h : m ≠ n) : (s.after n o).replicas m = s.replicas m := by
  simp [after, h]

/-- **The local rule**: a property of each replica and its own effects is kept if the replica that
    steps keeps it. -/
theorem forall_after {P : ℕ → Set Effect → Replica → Prop}
    (h : ∀ m, P m (s.effects m) (s.replicas m)) (hn : P n (s.effects n ∪ {e | e ∈ o.2}) o.1) :
    ∀ m, P m ((s.after n o).effects m) ((s.after n o).replicas m) := by
  intro m
  by_cases hm : m = n
  · subst hm
    rwa [effects_after_self, replicas_after_self]
  · rw [effects_after_ne hm, replicas_after_ne hm]
    exact h m

end GroupState

/-! ## Promises -/

/-- The promise was made, and its report with the accepted entry has left or waits for the append. -/
def Reported (E : Set Effect) (r : Replica) (p : PrepareRequest × Option PxLogEntry) : Prop :=
  (∃ e ∈ E, e.report = some p) ∨ ∃ a ∈ r.pending, a.report = some p

/-- What the reports of promises rest on. -/
structure PromiseInv (E : Set Effect) (r : Replica) : Prop where
  promised : ∀ {req acc}, Reported E r (req, acc) → req.ballot ≤
    (r.acceptor.nodes req.slot).promisedBallot
  /-- a slot and ballot above round `0` is promised to one request only -/
  unique : ∀ {req req' acc acc'}, Reported E r (req, acc) → Reported E r (req', acc') →
    req.slot = req'.slot → req.ballot = req'.ballot → 1 ≤ req.ballot.round → req = req'
  record : ∀ a ∈ r.pending, ∀ {req acc}, a.report = some (req, acc) → a.record =
    .promised req.term req.slot req.ballot
  durable : ∀ e ∈ E, ∀ {req acc}, e.report = some (req, acc) →
    .promised req.term req.slot req.ballot ∈ r.wal

theorem Effect.report_of_acceptorIdle {e : Effect} (h : e.acceptorIdle = true) : e.report = none := by
  unfold report
  split
  · simp [acceptorIdle] at h
  · rfl

theorem Append.report_of_idle {a : Append} (h : a.idle = true) : a.report = none := by
  unfold report
  split
  · next hn => simp [idle, hn] at h
  · rfl

variable {acc : Option PxLogEntry} {req : PrepareRequest} {r : Replica} {E : Set Effect}
  {cfg : GroupConfig}
  {s : GroupState} {H H' : List (ℕ × Effect)} {entry : PxLogEntry}
    {replies : List (ℕ × PxPrepareReply)}
  {ok : GroupState → GroupEvent → Prop} {s' : GroupState} {e : GroupEvent}

theorem Effect.report_promised {slot : ℕ} :
    (Effect.send (.prepareReply req (.promised slot acc))).report = some (req, acc) := rfl

theorem Append.report_prepareReply {a : Append} (h : a.next = .prepareReply req acc) :
    a.report = some (req, acc) := by
  simp [report, h]

/-- The step makes the promise `req` and will report the entry `acc`. -/
structure Promises (r : Replica) (o : Outcome) (req : PrepareRequest) (acc : Option PxLogEntry) :
    Prop where
  accepted : acc = r.acceptor.acceptedAt req.slot
  lt : ∀ b ∈ (r.acceptor.nodes req.slot).promised, b < req.ballot
  promised : (o.1.acceptor.nodes req.slot).promisedBallot = req.ballot
  pending : o.1.pending = r.pending ++
    [⟨.promised req.term req.slot req.ballot, .prepareReply req acc⟩]
  outs : o.2 = []

theorem Promises.eq {req' : PrepareRequest} {acc' : Option PxLogEntry}
    (h : Promises r o req acc) (h' : Promises r o req' acc') : req = req' := by
  have hpending := h.pending.symm.trans h'.pending
  have hlast := append_cancel_left hpending
  simp only [cons.injEq, Append.mk.injEq, Continuation.prepareReply.injEq] at hlast
  exact hlast.1.2.1

namespace AcceptorMove

theorem promisedBallot_le (h : AcceptorMove H r o) (slot : ℕ) :
    (r.acceptor.nodes slot).promisedBallot ≤ (o.1.acceptor.nodes slot).promisedBallot := by
  cases h with
  | quiet hnodes => rw [hnodes]
  | sendGap _ _ _ ho => rw [ho]
  | appended _ _ hnodes => rw [hnodes]
  | promise req hlt hpromised _ hother =>
    by_cases hs : slot = req.slot
    · subst hs
      rw [hpromised]
      exact PxSlotNode.promisedBallot_le_of_lt hlt
    · rw [hother slot hs]
  | vote entry _ hpromised _ hother =>
    by_cases hs : slot = entry.slot
    · subst hs
      rwa [hpromised]
    · rw [hother slot hs]

theorem mem_pending (h : AcceptorMove H r o) {a : Append} (ha : a ∈ o.1.pending) :
    a ∈ r.pending ∨ a.report = none ∨ ∃ req acc, a.report = some (req, acc) ∧
      a.record = .promised req.term req.slot req.ballot ∧ Promises r o req acc := by
  cases h with
  | quiet _ _ hpending =>
    exact (hpending a ha).imp_right fun hi => .inl (Append.report_of_idle hi)
  | sendGap _ _ _ ho =>
    subst ho
    exact .inl ha
  | appended _ _ _ _ hpending => exact .inl (hpending a ha)
  | promise req hlt hpromised _ _ _ hpending houts =>
    rw [hpending] at ha
    rcases mem_append.mp ha with ha | ha
    · exact .inl ha
    · obtain rfl := mem_singleton.mp ha
      exact .inr (.inr ⟨req, _, rfl, rfl, rfl, hlt, hpromised, hpending, houts⟩)
  | vote _ _ _ _ _ _ hpending =>
    exact (hpending a ha).imp_right fun ⟨req, hnext, _⟩ => .inl (by simp [Append.report, hnext])

theorem wal_durable (h : AcceptorMove H r o) : (∀ rec ∈ r.wal, rec ∈ o.1.wal) ∧
      ∀ e ∈ o.2, ∀ {p}, e.report = some p →
      ∃ a ∈ r.pending, a.report = some p ∧ a.record ∈ o.1.wal := by
  cases h with
  | quiet _ hwal _ houts =>
    refine ⟨fun rec hr => hwal ▸ hr, fun e he p hp => ?_⟩
    simp [Effect.report_of_acceptorIdle (houts e he)] at hp
  | sendGap _ _ _ ho =>
    subst ho
    refine ⟨fun rec hr => hr, fun e he p hp => ?_⟩
    obtain rfl := mem_singleton.mp he
    simp [Effect.report] at hp
  | appended a ha _ hwal _ houts =>
    refine ⟨fun rec hr => by simp [hwal, hr], fun e he p hp => ?_⟩
    rcases houts e he with hi | ⟨req, acc, hnext, rfl⟩ | ⟨req, -, rfl⟩
    · simp [Effect.report_of_acceptorIdle hi] at hp
    · refine ⟨a, ha, ?_, by simp [hwal]⟩
      rw [Append.report_prepareReply hnext, ← hp, Effect.report_promised]
    · simp [Effect.report] at hp
  | promise _ _ _ _ _ hwal _ houts =>
    exact ⟨fun rec hr => hwal ▸ hr, by simp [houts]⟩
  | vote _ _ _ _ _ hwal _ _ houts =>
    refine ⟨fun rec hr => hwal ▸ hr, fun e he p hp => ?_⟩
    rcases houts e he with rfl | ⟨req, -, rfl⟩
    · simp [Effect.report] at hp
    · simp [Effect.report] at hp

theorem reported (h : AcceptorMove H r o) (hp : Reported (E ∪ {e | e ∈ o.2}) o.1 (req, acc)) :
    Reported E r (req, acc) ∨ Promises r o req acc := by
  rcases hp with ⟨e, he | he, hr⟩ | ⟨a, ha, hr⟩
  · exact .inl (.inl ⟨e, he, hr⟩)
  · obtain ⟨a, ha, hra, -⟩ := h.wal_durable.2 e he hr
    exact .inl (.inr ⟨a, ha, hra⟩)
  · rcases h.mem_pending ha with ha | hn | ⟨req', acc', hr', -, hpromises⟩
    · exact .inl (.inr ⟨a, ha, hr⟩)
    · simp [hn] at hr
    · obtain ⟨rfl, rfl⟩ : req' = req ∧ acc' = acc := by simpa [hr] using hr'.symm
      exact .inr hpromises

theorem lt_of_reported (hinv : PromiseInv E r) {req' : PrepareRequest} (hp : Reported E r (req, acc))
    (hslot : req.slot = req'.slot)
    (hlt : ∀ b ∈ (r.acceptor.nodes req'.slot).promised, b < req'.ballot)
    (hround : 1 ≤ req'.ballot.round) : req.ballot < req'.ballot :=
  (hslot ▸ hinv.promised hp).trans_lt (PxSlotNode.promisedBallot_lt_of_lt hlt hround)

theorem promiseInv (h : AcceptorMove H r o) (hinv : PromiseInv E r) :
    PromiseInv (E ∪ {e | e ∈ o.2}) o.1 where
  promised {req acc} hp := by
    rcases h.reported hp with hp | hp
    · exact (hinv.promised hp).trans (h.promisedBallot_le req.slot)
    · exact hp.promised.ge
  unique {req req' acc acc'} hp hp' hslot hballot hround := by
    rcases h.reported hp with hp | hp <;> rcases h.reported hp' with hp' | hp'
    · exact hinv.unique hp hp' hslot hballot hround
    · exact absurd hballot (lt_of_reported hinv hp hslot hp'.lt (hballot ▸ hround)).ne
    · exact absurd hballot.symm (lt_of_reported hinv hp' hslot.symm hp.lt hround).ne
    · exact hp.eq hp'
  record a ha {req acc} hr := by
    rcases h.mem_pending ha with ha | hn | ⟨req', acc', hr', hrec, -⟩
    · exact hinv.record a ha hr
    · simp [hn] at hr
    · obtain ⟨rfl, rfl⟩ : req' = req ∧ acc' = acc := by simpa [hr] using hr'.symm
      exact hrec
  durable e he {req acc} hr := by
    obtain ⟨hwal, hout⟩ := h.wal_durable
    rcases he with he | he
    · exact hwal _ (hinv.durable e he hr)
    · obtain ⟨a, ha, hra, hmem⟩ := hout e he hr
      rwa [hinv.record a ha hra] at hmem

end AcceptorMove

theorem PromiseInv.restart {records : List WALRecord} (hinv : PromiseInv E r)
    (hperm : records.Perm r.wal)
    (resumeFrom : ℕ) (ok : ℕ → Bool) : PromiseInv E (r.restoreFromReplay records resumeFrom ok) := by
  -- nothing is pending after a restart
  have hold : ∀ {p}, Reported E (r.restoreFromReplay records resumeFrom ok) p →
    ∃ e ∈ E, e.report = some p := by
    rintro p (he | ⟨a, ha, -⟩)
    · exact he
    · simp [Replica.restoreFromReplay, Replica.new] at ha
  have hmem : ∀ e ∈ E, ∀ {req acc}, e.report = some (req, acc) →
      .promised req.term req.slot req.ballot ∈ records := fun e he req acc hr =>
    hperm.mem_iff.mpr (hinv.durable e he hr)
  refine ⟨fun {req acc} hp => ?_, fun {req req' acc acc'} hp hp' => ?_, fun a ha => ?_, hmem⟩
  · obtain ⟨e, he, hr⟩ := hold hp
    exact ackedAt_le_restore (hmem e he hr) (by simp [WALRecord.ackedAt])
  · exact hinv.unique (.inl (hold hp)) (.inl (hold hp'))
  · simp [Replica.restoreFromReplay, Replica.new] at ha

theorem promiseInv_step (hinv : ∀ m, PromiseInv (s.effects m) (s.replicas m))
    (h : groupStep cfg s e = some s') : ∀ m, PromiseInv (s'.effects m) (s'.replicas m) := by
  cases he : e.isRestart with
  | false =>
    obtain ⟨o, hstep, rfl⟩ := replicaStep_of_groupStep he h
    exact GroupState.forall_after hinv (hstep.acceptorMove.promiseInv (hinv _))
  | true =>
    obtain ⟨n, records, resumeFrom, ok, rfl, hperm, -, rfl⟩ := restart_of_groupStep he h
    refine GroupState.forall_after hinv ?_
    simpa using (hinv n).restart hperm resumeFrom ok

theorem promiseInv_of_reach (h : Reach (groupStep cfg) ok .init s) (m : ℕ) :
    PromiseInv (s.effects m) (s.replicas m) := by
  revert m
  refine Reach.invariant (P := fun s => ∀ m, PromiseInv (s.effects m) (s.replicas m)) (fun m => ?_)
    (fun hinv _ hs => promiseInv_step hinv hs) h
  have hnone : ∀ {p}, ¬ Reported (GroupState.init.effects m) (GroupState.init.replicas m) p := by
    rintro p (⟨e, he, -⟩ | ⟨a, ha, -⟩)
    · simp [GroupState.init] at he
    · simp [GroupState.init, Replica.new] at ha
  exact ⟨fun hp => absurd hp hnone, fun hp => absurd hp hnone,
    by simp [GroupState.init, Replica.new], by simp [GroupState.init]⟩

/-! ## Phase 2 -/

/-- The attempt has not reached Phase 2. -/
def Phase.unsent : Phase → Bool
  | .accepting _ _ _ => false
  | _ => true

theorem Phase.unsent_of_early {p : Phase} (h : p.early = true) : p.unsent = true := by
  cases p <;> first | rfl | simp [early] at h

/-- The replies that attempt `k` of replica `n` has to its `Prepare`. -/
structure Gathered (H : List (ℕ × Effect)) (n k : ℕ) (entry : PxLogEntry)
    (replies : List (ℕ × PxPrepareReply)) : Prop where
  round_pos : 1 ≤ entry.ballot.round
  leader : entry.ballot.leaderId = n
  nodup : (replies.map Prod.fst).Nodup
  sent : ∀ p ∈ replies, (p.1, Effect.send (.prepareReply (Replica.prepareRequest n k entry) p.2)) ∈ H

/-- The replies that an attempt has to its `Accept`. -/
structure Acknowledged (H : List (ℕ × Effect)) (req : AcceptRequest)
    (replies : List (ℕ × PxAcceptReply)) : Prop where
  nodup : (replies.map Prod.fst).Nodup
  sent : ∀ p ∈ replies, (p.1, Effect.send (.acceptReply req p.2)) ∈ H

/-- Phase 1 that an `Accept` rests on. -/
structure Prepared (cfg : GroupConfig) (H : List (ℕ × Effect)) (req : AcceptRequest)
    (entry : PxLogEntry) (replies : List (ℕ × PxPrepareReply)) : Prop
    extends Gathered H req.proposer req.attempt entry replies where
  slot : req.entry.slot = entry.slot
  ballot : req.entry.ballot = entry.ballot
  quorum : cfg.quorum ≤ (ReplyFold.ofPrepare cfg req.proposer replies).accepted
  adopted : ∀ prev ∈ (ReplyFold.ofPrepare cfg req.proposer replies).adopted,
    req.entry.payload = prev.payload

/-- What the requests of a proposer rest on. -/
structure ProposerInv (cfg : GroupConfig) (H : List (ℕ × Effect)) (n : ℕ) (E : Set Effect)
    (r : Replica) : Prop where
  attempt_lt : ∀ {k a}, r.attempts k = some a → k < r.nextAttempt
  request : ∀ {req}, .send (.accept req) ∈ E → req.proposer = n ∧ req.attempt < r.nextAttempt
  unsent : ∀ {k a req}, r.attempts k = some a → a.phase.unsent = true → .send (.accept req) ∈ E →
    req.attempt ≠ k
  /-- an attempt sends one `Accept` -/
  unique : ∀ {req req'}, .send (.accept req) ∈ E → .send (.accept req') ∈ E → req.attempt =
    req'.attempt → req = req'
  gathered : ∀ {k job entry replies}, r.attempts k = some ⟨job, .preparing entry replies⟩ →
    Gathered H n k entry replies
  accepting : ∀ {k job entry foreign replies}, r.attempts k =
    some ⟨job, .accepting entry foreign replies⟩ →
    .send (.accept ⟨n, k, entry, job.tags⟩) ∈ E ∧ Acknowledged H ⟨n, k, entry, job.tags⟩ replies
  evidence : ∀ {req}, .send (.accept req) ∈ E → req.entry.ballot = ⟨0, n⟩ ∨
    ∃ entry replies, Prepared cfg H req entry replies

theorem Gathered.mono {k : ℕ} (h : Gathered H n k entry replies) (hH : H ⊆ H') :
    Gathered H' n k entry replies :=
  { h with sent := fun p hp => hH (h.sent p hp) }

theorem Acknowledged.mono {req : AcceptRequest} {replies : List (ℕ × PxAcceptReply)}
    (h : Acknowledged H req replies)
    (hH : H ⊆ H') : Acknowledged H' req replies :=
  { h with sent := fun p hp => hH (h.sent p hp) }

theorem ProposerInv.mono (h : ProposerInv cfg H n E r) (hH : H ⊆ H') : ProposerInv cfg H' n E r :=
  { h with
    gathered := fun hk => (h.gathered hk).mono hH
    accepting := fun hk => (h.accepting hk).imp_right fun ha => ha.mono hH
    evidence := fun hreq => (h.evidence hreq).imp_right fun ⟨entry, replies, hp⟩ =>
      ⟨entry, replies, { hp with sent := (hp.toGathered.mono hH).sent }⟩ }

namespace ProposerMove

variable {ev : GroupEvent} {k : ℕ} {a' : Attempt} {req : AcceptRequest}
variable (h : ProposerMove cfg n ev H r o) {job : Job}
include h

theorem nextAttempt_le : r.nextAttempt ≤ o.1.nextAttempt := by
  cases h with
  | quiet hatt => exact hatt.le
  | prepare _ _ _ _ hna => exact hna
  | acceptZero _ _ _ _ _ _ _ _ _ hna => exact hna.ge
  | acceptPrepared _ _ _ _ _ _ _ _ hna => exact hna.ge
  | reply _ _ _ _ _ _ _ hna => exact hna.ge
  | ack _ _ _ _ _ _ _ _ hna => exact hna.ge

theorem attempt_cases (ha' : o.1.attempts k = some a') : r.attempts k = some a' ∨
    ((a'.phase.early = true ∨ ∃ job entry, a' = ⟨job, .preparing entry []⟩ ∧
        1 ≤ entry.ballot.round ∧ entry.ballot.leaderId = n) ∧
      ((∃ a, r.attempts k = some a ∧ a.phase.early = true) ∨
        (k = r.nextAttempt ∧ k < o.1.nextAttempt))) ∨
    (∃ job entry foreign a, a' = ⟨job, .accepting entry foreign []⟩ ∧
      .send (.accept ⟨n, k, entry, job.tags⟩) ∈ o.2 ∧ r.attempts k = some a ∧ a.phase.unsent = true) ∨
    (∃ job entry replies peer reply, a' = ⟨job, .preparing entry (replies ++ [(peer, reply)])⟩ ∧
      r.attempts k = some ⟨job, .preparing entry replies⟩ ∧ peer ∉ replies.map Prod.fst ∧
      (peer, Effect.send (.prepareReply (Replica.prepareRequest n k entry) reply)) ∈ H) ∨
    ∃ job entry foreign replies peer reply, a' =
      ⟨job, .accepting entry foreign (replies ++ [(peer, reply)])⟩ ∧
      r.attempts k = some ⟨job, .accepting entry foreign replies⟩ ∧ peer ∉ replies.map Prod.fst ∧
      (peer, Effect.send (.acceptReply ⟨n, k, entry, job.tags⟩ reply)) ∈ H := by
  -- one attempt is updated, and the others are as before
  have hset : ∀ {k₀ : ℕ} {a₀ : Attempt}, o.1.attempts = update r.attempts k₀ (some a₀) →
      r.attempts k = some a' ∨ (k = k₀ ∧ a' = a₀) := by
    intro k₀ a₀ hatt
    rw [hatt] at ha'
    by_cases hk : k = k₀
    · subst hk
      exact .inr ⟨rfl, by simpa using ha'.symm⟩
    · exact .inl (by rwa [update_of_ne hk] at ha')
  cases h with
  | quiet hatt => exact (hatt.origin k a' ha').imp_right fun ⟨hearly, ho⟩ => .inl ⟨.inl hearly, ho⟩
  | prepare _ job entry hk₀ _ hround hleader hatt =>
    refine (hset hatt).imp_right ?_
    rintro ⟨rfl, rfl⟩
    exact .inl ⟨.inr ⟨job, entry, rfl, hround, hleader⟩, hk₀⟩
  | acceptZero _ _ _ _ _ _ _ _ hk₀ _ hatt houts =>
    refine (hset hatt).imp_right ?_
    rintro ⟨rfl, rfl⟩
    exact .inr (.inl ⟨_, _, _, _, rfl, by simp [houts, Job.tags], hk₀, rfl⟩)
  | acceptPrepared k₀ job entry entry' foreign replies hev hk₀ hna hslot hballot hquorum hadopted hatt
      houts =>
    refine (hset hatt).imp_right ?_
    rintro ⟨rfl, rfl⟩
    exact .inr (.inl ⟨_, _, _, _, rfl, by simp [houts], hk₀, rfl⟩)
  | reply _ peer job entry replies reply hk₀ _ hpeer hsent hatt =>
    refine (hset hatt).imp_right ?_
    rintro ⟨rfl, rfl⟩
    exact .inr (.inr (.inl ⟨job, entry, replies, peer, reply, rfl, hk₀, hpeer, hsent⟩))
  | ack _ peer job entry foreign replies reply hk₀ _ hpeer hsent hatt =>
    refine (hset hatt).imp_right ?_
    rintro ⟨rfl, rfl⟩
    exact .inr (.inr (.inr ⟨job, entry, foreign, replies, peer, reply, rfl, hk₀, hpeer, hsent⟩))

/-- An attempt is new, or comes from one of its number that had not reached Phase 2 if it has not. -/
theorem origin (ha' : o.1.attempts k = some a') :
    (∃ a, r.attempts k = some a ∧ (a'.phase.unsent = true → a.phase.unsent = true)) ∨
      (k = r.nextAttempt ∧ k < o.1.nextAttempt) := by
  rcases h.attempt_cases ha' with hk | ⟨-, ⟨a, hk, hearly⟩ | hnew⟩ | ⟨_, _, _, a, rfl, -, hk, hun⟩ |
    ⟨_, _, _, _, _, rfl, hk, -⟩ | ⟨_, _, _, _, _, _, rfl, hk, -⟩
  · exact .inl ⟨a', hk, id⟩
  · exact .inl ⟨a, hk, fun _ => Phase.unsent_of_early hearly⟩
  · exact .inr hnew
  · exact .inl ⟨a, hk, fun _ => hun⟩
  · exact .inl ⟨_, hk, fun _ => rfl⟩
  · exact .inl ⟨_, hk, id⟩

/-- An `Accept` that a step sends belongs to an attempt that goes to Phase 2 with it. -/
theorem sent (hreq : .send (.accept req) ∈ o.2) :
    req.proposer = n ∧ o.2 = [.send (.accept req)] ∧ o.1.nextAttempt = r.nextAttempt ∧
    (∃ a, r.attempts req.attempt = some a ∧ a.phase.unsent = true) ∧
    (∀ a', o.1.attempts req.attempt = some a' → a'.phase.unsent = false) ∧
    (req.entry.ballot = ⟨0, n⟩ ∨ ∃ job entry replies, r.attempts req.attempt =
      some ⟨job, .preparing entry replies⟩ ∧
      (Gathered H n req.attempt entry replies → Prepared cfg H req entry replies)) := by
  cases h with
  | quiet _ houts => simpa [Effect.isRequest] using houts _ hreq
  | acceptZero k₀ slot payload tags _ _ _ _ hk₀ hna hatt houts =>
    obtain rfl : req = ⟨n, k₀, r.baseEntry n slot payload, tags⟩ := by simpa [houts] using hreq
    refine ⟨rfl, houts, hna, ⟨_, hk₀, rfl⟩, fun a' ha' => ?_, .inl rfl⟩
    rw [hatt, update_self] at ha'
    cases ha'
    rfl
  | acceptPrepared k₀ job entry entry' foreign replies hev hk₀ hna hslot hballot hquorum hadopted hatt
      houts =>
    obtain rfl : req = ⟨n, k₀, entry', job.tags⟩ := by simpa [houts] using hreq
    refine ⟨rfl, houts, hna, ⟨_, hk₀, rfl⟩, fun a' ha' => ?_, .inr ⟨job, entry, replies, hk₀, ?_⟩⟩
    · rw [hatt, update_self] at ha'
      cases ha'
      rfl
    · exact fun hg =>
        { hg with slot := hslot, ballot := hballot, quorum := hquorum, adopted := hadopted }
  | prepare | reply | ack => rename_i houts; simp [houts] at hreq

theorem gathered (hinv : ProposerInv cfg H n E r)
    (hk : o.1.attempts k = some ⟨job, .preparing entry replies⟩) : Gathered H n k entry replies := by
  rcases h.attempt_cases hk with hk | ⟨hearly | ⟨_, _, heq, hround, hleader⟩, -⟩ | ⟨_, _,
    _, _, heq, -⟩ |
    ⟨_, _, rs, peer, reply, heq, hk, hpeer, hsent⟩ | ⟨_, _, _, _, _, _, heq, -⟩
  · exact hinv.gathered hk
  · simp [Phase.early] at hearly
  · obtain ⟨-, rfl, rfl⟩ := heq
    exact ⟨hround, hleader, nodup_nil, by simp⟩
  · simp at heq
  · have hg := hinv.gathered hk
    obtain ⟨-, rfl, rfl⟩ := heq
    exact ⟨hg.round_pos, hg.leader, nodup_map_concat hg.nodup hpeer, forall_mem_concat hg.sent hsent⟩
  · simp at heq

theorem accepting (hinv : ProposerInv cfg H n E r) {foreign : Bool}
    {replies : List (ℕ × PxAcceptReply)}
    (hk : o.1.attempts k = some ⟨job, .accepting entry foreign replies⟩) :
    .send (.accept ⟨n, k, entry, job.tags⟩) ∈ E ∪ {e | e ∈ o.2} ∧
      Acknowledged H ⟨n, k, entry, job.tags⟩ replies := by
  rcases h.attempt_cases hk with hk | ⟨hearly | ⟨_, _, heq, -⟩, -⟩ | ⟨_, _, _, _, heq, hreq, -⟩ |
    ⟨_, _, _, _, _, heq, -⟩ | ⟨_, _, _, rs, peer, reply, heq, hold, hpeer, hsent⟩
  · exact (hinv.accepting hk).imp_left .inl
  · simp [Phase.early] at hearly
  · simp at heq
  · obtain ⟨rfl, rfl, rfl, rfl⟩ := heq
    exact ⟨.inr hreq, nodup_nil, by simp⟩
  · simp at heq
  · obtain ⟨rfl, rfl, rfl, rfl⟩ := heq
    obtain ⟨hreq, hack⟩ := hinv.accepting hold
    exact ⟨.inl hreq, nodup_map_concat hack.nodup hpeer, forall_mem_concat hack.sent hsent⟩

theorem proposerInv (hinv : ProposerInv cfg H n E r) :
    ProposerInv cfg H n (E ∪ {e | e ∈ o.2}) o.1 where
  attempt_lt {k a'} hk := by
    rcases h.origin hk with ⟨a, hk, -⟩ | ⟨-, hlt⟩
    · exact (hinv.attempt_lt hk).trans_le h.nextAttempt_le
    · exact hlt
  request {req} hreq := by
    rcases hreq with hreq | hreq
    · exact ⟨(hinv.request hreq).1, (hinv.request hreq).2.trans_le h.nextAttempt_le⟩
    · obtain ⟨hn, -, -, ⟨a, hk, -⟩, -⟩ := h.sent hreq
      exact ⟨hn, (hinv.attempt_lt hk).trans_le h.nextAttempt_le⟩
  unsent {k a' req} hk hun hreq := by
    rcases hreq with hreq | hreq
    · rcases h.origin hk with ⟨a, hk, himp⟩ | ⟨rfl, -⟩
      · exact hinv.unsent hk (himp hun) hreq
      · exact (hinv.request hreq).2.ne
    · obtain ⟨-, -, -, -, hsent, -⟩ := h.sent hreq
      rintro rfl
      simp [hsent a' hk] at hun
  unique {req req'} hreq hreq' heq := by
    rcases hreq with hreq | hreq <;> rcases hreq' with hreq' | hreq'
    · exact hinv.unique hreq hreq' heq
    · obtain ⟨-, -, -, ⟨a, hk, hun⟩, -⟩ := h.sent hreq'
      exact absurd heq (hinv.unsent hk hun hreq)
    · obtain ⟨-, -, -, ⟨a, hk, hun⟩, -⟩ := h.sent hreq
      exact absurd heq.symm (hinv.unsent hk hun hreq')
    · obtain ⟨-, houts, -⟩ := h.sent hreq
      obtain rfl : req' = req := by simpa [houts] using hreq'
      rfl
  gathered hk := h.gathered hinv hk
  accepting hk := h.accepting hinv hk
  evidence {req} hreq := by
    rcases hreq with hreq | hreq
    · exact hinv.evidence hreq
    · obtain ⟨-, -, -, -, -, hb | ⟨job, entry, replies, hk, hp⟩⟩ := h.sent hreq
      · exact .inl hb
      · exact .inr ⟨entry, replies, hp (hinv.gathered hk)⟩

end ProposerMove

theorem ProposerInv.restart (hinv : ProposerInv cfg H n E r)
    (records : List WALRecord) (resumeFrom : ℕ) (ok : ℕ → Bool) :
    ProposerInv cfg H n E (r.restoreFromReplay records resumeFrom ok) where
  attempt_lt hk := by simp [Replica.restoreFromReplay, Replica.new] at hk
  request hreq := hinv.request hreq
  unsent hk := by simp [Replica.restoreFromReplay, Replica.new] at hk
  unique := hinv.unique
  gathered hk := by simp [Replica.restoreFromReplay, Replica.new] at hk
  accepting hk := by simp [Replica.restoreFromReplay, Replica.new] at hk
  evidence := hinv.evidence

/-- `ProposerInv` of every replica. -/
def GroupState.ProposersInv (cfg : GroupConfig) (s : GroupState) : Prop :=
  ∀ m, ProposerInv cfg s.history m (s.effects m) (s.replicas m)

theorem GroupState.ProposersInv.after (hinv : s.ProposersInv cfg)
    (hn : ProposerInv cfg s.history n (s.effects n ∪ {e | e ∈ o.2}) o.1) :
    (s.after n o).ProposersInv cfg := by
  have hH : s.history ⊆ (s.after n o).history := subset_append_left ..
  exact forall_after (fun m => (hinv m).mono hH) (hn.mono hH)

theorem proposersInv_step (hinv : s.ProposersInv cfg) (h : groupStep cfg s e = some s') :
    s'.ProposersInv cfg := by
  cases he : e.isRestart with
  | false =>
    obtain ⟨o, hstep, rfl⟩ := replicaStep_of_groupStep he h
    exact hinv.after (hstep.proposerMove.proposerInv (hinv _))
  | true =>
    obtain ⟨n, records, resumeFrom, ok, rfl, -, -, rfl⟩ := restart_of_groupStep he h
    refine hinv.after ?_
    simpa using (hinv n).restart records resumeFrom ok

theorem proposersInv_of_reach (h : Reach (groupStep cfg) ok .init s) : s.ProposersInv cfg := by
  refine Reach.invariant (P := GroupState.ProposersInv cfg) (fun m => ?_)
    (fun hinv _ hs => proposersInv_step hinv hs) h
  constructor <;> simp [GroupState.init, Replica.new]

/-! ## Quorums of promises -/

/-- A promise. -/
def PxPrepareReply.isPromised : PxPrepareReply → Bool
  | .promised _ _ => true
  | _ => false

theorem PxPrepareReply.exists_of_isPromised {reply : PxPrepareReply}
    (h : reply.isPromised = true) : ∃ slot acc, reply = .promised slot acc := by
  cases reply with
  | promised slot acc => exact ⟨slot, acc, rfl⟩
  | rejected => simp [isPromised] at h
  | termStale => simp [isPromised] at h

namespace ReplyFold

@[simp] theorem ofPrepare_nil : ofPrepare cfg n [] = new := rfl

@[simp] theorem ofPrepare_concat (m : ℕ) (reply : PxPrepareReply) :
    ofPrepare cfg n (replies ++ [(m, reply)]) =
      (ofPrepare cfg n replies).foldPrepare cfg n m reply := by
  simp [ofPrepare]

theorem ofPrepare_accepted : (ofPrepare cfg n replies).accepted =
    replies.countP fun p => p.2.isPromised && decide (p.1 ∈ cfg.voters) := by
  induction replies using reverseRecOn with
  | nil => rfl
  | append_singleton _ p ih =>
    obtain ⟨m, reply⟩ := p
    rw [ofPrepare_concat, countP_append, ← ih]
    cases reply with
    | promised =>
      by_cases hm : m ∈ cfg.voters <;> simp [foldPrepare, weight, hm, PxPrepareReply.isPromised]
    | rejected => rfl
    | termStale => rfl

theorem considerAccepted_cases (adopted : Option PxLogEntry) (candidate : PxLogEntry) :
    (considerAccepted adopted candidate = some candidate ∧
      ∀ current ∈ adopted, current.ballot < candidate.ballot) ∨
    (considerAccepted adopted candidate = adopted ∧
      ∃ current ∈ adopted, candidate.ballot ≤ current.ballot) := by
  unfold considerAccepted
  split
  · next h => exact .inl ⟨rfl, h⟩
  · next h =>
    simp only [not_forall, not_lt] at h
    obtain ⟨current, hc, hle⟩ := h
    exact .inr ⟨rfl, current, hc, hle⟩

theorem adopted_mem {prev : PxLogEntry} (h : prev ∈ (ofPrepare cfg n replies).adopted) :
    ∃ m slot, (m, .promised slot (some prev)) ∈ replies := by
  induction replies using reverseRecOn with
  | nil => simp [new] at h
  | append_singleton replies p ih =>
    obtain ⟨m, reply⟩ := p
    have hold : prev ∈ (ofPrepare cfg n replies).adopted →
        ∃ m' slot, (m', .promised slot (some prev)) ∈ replies ++ [(m, reply)] := fun h =>
      (ih h).imp fun m' ⟨slot, hm'⟩ => ⟨slot, mem_append_left _ hm'⟩
    rw [ofPrepare_concat] at h
    rcases reply with ⟨slot, _ | e⟩ | _ | _
    · exact hold h
    · rcases considerAccepted_cases (ofPrepare cfg n replies).adopted e with ⟨hc, -⟩ | ⟨hc, -⟩
      · obtain rfl : e = prev := by simpa [foldPrepare, hc] using h
        exact ⟨m, slot, by simp⟩
      · exact hold (by simpa [foldPrepare, hc] using h)
    · exact hold h
    · exact hold h

theorem le_adopted (cfg : GroupConfig) (n : ℕ) {m slot : ℕ} {e : PxLogEntry}
    (h : (m, .promised slot (some e)) ∈ replies) :
    ∃ prev ∈ (ofPrepare cfg n replies).adopted, e.ballot ≤ prev.ballot := by
  induction replies using reverseRecOn with
  | nil => simp at h
  | append_singleton replies p ih =>
    obtain ⟨m', reply⟩ := p
    rw [ofPrepare_concat]
    rcases mem_append.mp h with h | h
    · obtain ⟨prev, hprev, hle⟩ := ih h
      rcases reply with ⟨slot', _ | e'⟩ | _ | _
      · exact ⟨prev, hprev, hle⟩
      · rcases considerAccepted_cases (ofPrepare cfg n replies).adopted e' with ⟨hc, hlt⟩ | ⟨hc, -⟩
        · exact ⟨e', by simp [foldPrepare, hc], hle.trans (hlt prev hprev).le⟩
        · exact ⟨prev, by simpa [foldPrepare, hc] using hprev, hle⟩
      · exact ⟨prev, hprev, hle⟩
      · exact ⟨prev, hprev, hle⟩
    · obtain ⟨rfl, rfl⟩ : m = m' ∧ .promised slot (some e) = reply := by simpa using h
      rcases considerAccepted_cases (ofPrepare cfg n replies).adopted e with
        ⟨hc, -⟩ | ⟨hc, prev, hprev, hle⟩
      · exact ⟨e, by simp [foldPrepare, hc], le_rfl⟩
      · exact ⟨prev, by simpa [foldPrepare, hc] using hprev, hle⟩

end ReplyFold

theorem Prepared.exists_quorum {req : AcceptRequest} (h : Prepared cfg H req entry replies) :
    ∃ Q, IsQuorum cfg.voters (majority cfg.voters.card) Q ∧
      ∀ m ∈ Q, ∃ slot acc, (m, .promised slot acc) ∈ replies := by
  obtain ⟨Q, hQ, hcard, hmem⟩ := exists_voters_of_countP cfg.voters PxPrepareReply.isPromised h.nodup
  refine ⟨Q, ⟨hQ, ?_⟩, fun m hm => ?_⟩
  · rw [hcard, ← ReplyFold.ofPrepare_accepted]
    exact h.quorum
  · obtain ⟨reply, hr, hpos⟩ := hmem m hm
    obtain ⟨slot, acc, rfl⟩ := PxPrepareReply.exists_of_isPromised hpos
    exact ⟨slot, acc, hr⟩

namespace GroupState

theorem mem_accepts {req : AcceptRequest} : req ∈ s.accepts ↔ ∃ n, (n, Effect.send (.accept req)) ∈
      s.history := by
  unfold accepts
  rw [mem_filterMap]
  constructor
  · rintro ⟨⟨n, e⟩, hp, he⟩
    split at he
    · next req' heq =>
      cases he
      exact ⟨n, by simpa [← heq] using hp⟩
    · simp at he
  · rintro ⟨n, hn⟩
    exact ⟨_, hn, rfl⟩

theorem mem_accepts_after {req : AcceptRequest} :
    req ∈ (s.after n o).accepts ↔ req ∈ s.accepts ∨ .send (.accept req) ∈ o.2 := by
  simp only [mem_accepts, mem_history_after]
  constructor
  · rintro ⟨m, hm | ⟨-, hm⟩⟩
    · exact .inl ⟨m, hm⟩
    · exact .inr hm
  · rintro (⟨m, hm⟩ | hm)
    · exact ⟨m, .inl hm⟩
    · exact ⟨n, .inr ⟨rfl, hm⟩⟩

theorem reported_of_mem {m slot : ℕ}
    (h : (m, Effect.send (.prepareReply req (.promised slot acc))) ∈ s.history) :
    Reported (s.effects m) (s.replicas m) (req, acc) :=
  .inl ⟨_, h, rfl⟩

/-- **One request per ballot**: above round `0`, two `Accept` requests of one slot and
    ballot are the same. -/
theorem accept_eq_of_prepared (hprom : ∀ m, PromiseInv (s.effects m) (s.replicas m))
    (hprop : s.ProposersInv cfg) {req req' : AcceptRequest} (hreq : req ∈ s.accepts)
    (hreq' : req' ∈ s.accepts) (hslot : req.entry.slot = req'.entry.slot)
    (hballot : req.entry.ballot = req'.entry.ballot) (hround : 1 ≤ req.entry.ballot.round) :
    req = req' := by
  obtain ⟨n, hn⟩ := mem_accepts.mp hreq
  obtain ⟨n', hn'⟩ := mem_accepts.mp hreq'
  rcases (hprop n).evidence hn with hb | ⟨entry, replies, hp⟩
  · simp [hb] at hround
  rcases (hprop n').evidence hn' with hb | ⟨entry', replies', hp'⟩
  · simp [hballot, hb] at hround
  -- a replica in both quorums promised the ballot to both attempts
  obtain ⟨Q, hQ, hmem⟩ := hp.exists_quorum
  obtain ⟨Q', hQ', hmem'⟩ := hp'.exists_quorum
  obtain ⟨m, hmQ, hmQ'⟩ := hQ.majority_inter hQ'
  obtain ⟨slot, acc, hr⟩ := hmem m hmQ
  obtain ⟨slot', acc', hr'⟩ := hmem' m hmQ'
  have hsame := (hprom m).unique (reported_of_mem (hp.sent _ hr)) (reported_of_mem (hp'.sent _ hr'))
    (by simp only [Replica.prepareRequest]; rw [← hp.slot, ← hp'.slot, hslot])
    (by simp only [Replica.prepareRequest]; rw [← hp.ballot, ← hp'.ballot, hballot])
    hp.round_pos
  simp only [Replica.prepareRequest, PrepareRequest.mk.injEq] at hsame
  have hnn : n = n' := by
    rw [← ((hprop n).request hn).1, ← ((hprop n').request hn').1, hsame.1]
  subst hnn
  exact (hprop n).unique hn hn' hsame.2.1

end GroupState

end CrowDB
