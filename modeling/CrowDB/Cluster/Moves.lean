/-
  What a step of a replica can do to the Paxos state, said once.

  `ProposerMove`, `AcceptorMove` and `LearnerMove` cover every step except a restart.  The invariants
  of the group are derived from these, not from the step functions.
-/
import CrowDB.Cluster.Steps

namespace CrowDB

open Lib List Function

/-! ## Attempts -/

/-- A Phase-1 or Phase-2 request. -/
def Effect.isRequest : Effect → Bool
  | .send (.prepare _) => true
  | .send (.accept _) => true
  | _ => false

/-- No Phase-1 or Phase-2 request. -/
def NoRequest (outs : List Effect) : Prop := ∀ e ∈ outs, e.isRequest = false

theorem NoRequest.nil : NoRequest [] := by simp [NoRequest]

/-- Attempts change without a request: they move among the early phases, get a new number, or
    start. -/
structure QuietAttempts (att : ℕ → Option Attempt) (na : ℕ) (att' : ℕ → Option Attempt) (na' : ℕ) :
    Prop where
  le : na ≤ na'
  origin : ∀ k a', att' k = some a' → att k = some a' ∨ (a'.phase.early = true ∧
    ((∃ a, att k = some a ∧ a.phase.early = true) ∨ (k = na ∧ k < na')))

variable {k n : ℕ}

namespace QuietAttempts

variable {att : ℕ → Option Attempt} {na na' : ℕ} {a a' : Attempt}

theorem refl (h : na ≤ na') : QuietAttempts att na att na' := ⟨h, fun _ _ hk => .inl hk⟩

theorem update {o : Option Attempt} (ho : ∀ a' ∈ o, a'.phase.early = true ∧
      ((∃ a, att k = some a ∧ a.phase.early = true) ∨ (k = na ∧ k < na')))
    (hle : na ≤ na') : QuietAttempts att na (update att k o) na' := by
  refine ⟨hle, fun k' a' hk' => ?_⟩
  by_cases he : k' = k
  · subst he
    rw [update_self] at hk'
    exact .inr (ho a' hk')
  · rw [update_of_ne he] at hk'
    exact .inl hk'

theorem drop : QuietAttempts att na (Function.update att k none) na := update (by simp) le_rfl

theorem spawn (ha : a.phase.early = true) :
    QuietAttempts att na (Function.update att na (some a)) (na + 1) := by
  refine update (fun a' ha' => ?_) (Nat.le_succ na)
  obtain rfl : a = a' := by simpa using ha'
  exact ⟨ha, .inr ⟨rfl, Nat.lt_succ_self _⟩⟩

theorem advance (hk : att k = some a) (ha : a.phase.early = true) (ha' : a'.phase.early = true) :
    QuietAttempts att na (Function.update att k (some a')) na := by
  refine update (fun b hb => ?_) le_rfl
  obtain rfl : a' = b := by simpa using hb
  exact ⟨ha', .inl ⟨a, hk, ha⟩⟩

theorem renew (ha : a.phase.early = true) :
    QuietAttempts att na (Function.update (Function.update att k none) na (some a)) (na + 1) := by
  refine ⟨Nat.le_succ na, fun k' a' hk' => ?_⟩
  by_cases he : k' = na
  · subst he
    rw [update_self] at hk'
    cases hk'
    exact .inr ⟨ha, .inr ⟨rfl, Nat.lt_succ_self _⟩⟩
  · rw [update_of_ne he] at hk'
    by_cases hek : k' = k
    · subst hek
      simp at hk'
    · rw [update_of_ne hek] at hk'
      exact .inl hk'

end QuietAttempts

/-! ## Proposers -/

/-- What a step does to the attempts of replica `n` and which requests it sends, given
    the history before the step. -/
inductive ProposerMove (cfg : GroupConfig) (n : ℕ) (ev : GroupEvent) (H : List (ℕ × Effect))
    (r : Replica) (o : Outcome) : Prop
  | quiet (hatt : QuietAttempts r.attempts r.nextAttempt o.1.attempts o.1.nextAttempt)
      (houts : NoRequest o.2)
  /-- a prepare phase starts -/
  | prepare (k : ℕ) (job : Job) (entry : PxLogEntry)
      (hk : (∃ a, r.attempts k = some a ∧ a.phase.early = true) ∨
        (k = r.nextAttempt ∧ k < o.1.nextAttempt))
      (hna : r.nextAttempt ≤ o.1.nextAttempt)
      (hround : 1 ≤ entry.ballot.round) (hleader : entry.ballot.leaderId = n)
      (hatt : o.1.attempts = Function.update r.attempts k (some ⟨job, .preparing entry []⟩))
      (houts : o.2 = [.send (.prepare (Replica.prepareRequest n k entry))])
  /-- Phase 2 starts at round `0` -/
  | acceptZero (k slot : ℕ) (payload : Bytes) (tags : List DedupTag) (p s : ℕ)
      (hev : ev = .act n (.start k)) (hclassic : cfg.forceClassic = false)
      (hk : r.attempts k = some ⟨.propose payload tags p s, .assigned slot⟩)
      (hna : o.1.nextAttempt = r.nextAttempt)
      (hatt : o.1.attempts = Function.update r.attempts k
        (some ⟨.propose payload tags p s, .accepting (r.baseEntry n slot payload) false []⟩))
      (houts : o.2 = [.send (.accept ⟨n, k, r.baseEntry n slot payload, tags⟩)])
  /-- Phase 2 starts after Phase 1 -/
  | acceptPrepared (k : ℕ) (job : Job) (entry entry' : PxLogEntry) (foreign : Bool)
      (replies : List (ℕ × PxPrepareReply)) (hev : ev = .act n (.prepareDone k))
      (hk : r.attempts k = some ⟨job, .preparing entry replies⟩)
      (hna : o.1.nextAttempt = r.nextAttempt)
      (hslot : entry'.slot = entry.slot) (hballot : entry'.ballot = entry.ballot)
      (hquorum : cfg.quorum ≤ (ReplyFold.ofPrepare cfg n replies).accepted)
      (hadopted : ∀ prev ∈ (ReplyFold.ofPrepare cfg n replies).adopted, entry'.payload = prev.payload)
      (hatt : o.1.attempts = Function.update r.attempts k (some ⟨job, .accepting entry' foreign []⟩))
      (houts : o.2 = [.send (.accept ⟨n, k, entry', job.tags⟩)])
      (hproceed : ∃ entry₀, prepareAttempt cfg (ReplyFold.ofPrepare cfg n replies) entry
        = .proceed entry₀ foreign ∧ Replica.acceptEntry job entry₀ = entry')
  /-- a reply to a prepare phase arrives -/
  | reply (k peer : ℕ) (job : Job) (entry : PxLogEntry) (replies : List (ℕ × PxPrepareReply))
      (reply : PxPrepareReply)
      (hk : r.attempts k = some ⟨job, .preparing entry replies⟩)
      (hna : o.1.nextAttempt = r.nextAttempt)
      (hpeer : peer ∉ replies.map Prod.fst)
      (hsent : (peer, .send (.prepareReply (Replica.prepareRequest n k entry) reply)) ∈ H)
      (hatt : o.1.attempts = Function.update r.attempts k
        (some ⟨job, .preparing entry (replies ++ [(peer, reply)])⟩))
      (houts : o.2 = [])
  /-- a reply to an accept phase arrives -/
  | ack (k peer : ℕ) (job : Job) (entry : PxLogEntry) (foreign : Bool)
      (replies : List (ℕ × PxAcceptReply)) (reply : PxAcceptReply)
      (hk : r.attempts k = some ⟨job, .accepting entry foreign replies⟩)
      (hna : o.1.nextAttempt = r.nextAttempt)
      (hpeer : peer ∉ replies.map Prod.fst)
      (hsent : (peer, .send (.acceptReply ⟨n, k, entry, job.tags⟩ reply)) ∈ H)
      (hatt : o.1.attempts = Function.update r.attempts k
        (some ⟨job, .accepting entry foreign (replies ++ [(peer, reply)])⟩))
      (houts : o.2 = [])

variable {job : Job} {H : List (ℕ × Effect)} {cfg : GroupConfig} {ev : GroupEvent}
  {o : Outcome} {r : Replica}

theorem SlotEnd.quiet {r' : Replica} (h : SlotEnd r k job r') :
    QuietAttempts r.attempts r.nextAttempt r'.attempts r'.nextAttempt := by
  cases h with
  | ended => exact .drop
  | renew _ _ _ hearly => exact .renew hearly

namespace Replica

/-! ### From Phase 1 to Phase 2 -/

theorem of_prepareAttempt_proceed {f : ReplyFold} {entry entry' : PxLogEntry} {foreign : Bool}
    (h : prepareAttempt cfg f entry = .proceed entry' foreign) :
    cfg.quorum ≤ f.accepted ∧ entry'.slot = entry.slot ∧ entry'.ballot = entry.ballot ∧
      (∀ prev ∈ f.adopted, entry'.payload = prev.payload) ∧
      (foreign = false → entry'.payload = entry.payload) := by
  unfold prepareAttempt at h
  split at h
  · simp at h
  · split at h
    · split at h <;> simp at h
    · next hq =>
      refine ⟨Nat.le_of_not_lt hq, ?_⟩
      split at h
      · next prev hp =>
        simp only [PrepareAttempt.proceed.injEq] at h
        obtain ⟨rfl, rfl⟩ := h
        simp [hp]
      · next hp =>
        simp only [PrepareAttempt.proceed.injEq] at h
        obtain ⟨rfl, rfl⟩ := h
        simp [hp]

variable {entry : PxLogEntry}

@[simp] theorem acceptEntry_slot : (acceptEntry job entry).slot = entry.slot := by
  unfold acceptEntry; split <;> rfl

@[simp] theorem acceptEntry_ballot : (acceptEntry job entry).ballot = entry.ballot := by
  unfold acceptEntry; split <;> rfl

@[simp] theorem acceptEntry_payload : (acceptEntry job entry).payload = entry.payload := by
  unfold acceptEntry; split <;> rfl

/-! ### Every step -/

theorem proposerMove_same (hatt : o.1.attempts = r.attempts)
    (hna : r.nextAttempt ≤ o.1.nextAttempt) (houts : NoRequest o.2) : ProposerMove cfg n ev H r o :=
  .quiet (hatt ▸ QuietAttempts.refl hna) houts

end Replica

open Replica in
theorem ReplicaStep.proposerMove (h : ReplicaStep cfg n ev H r o) : ProposerMove cfg n ev H r o := by
  cases h with
  | preVote => exact proposerMove_same rfl (Nat.le_succ _) (by simp [NoRequest, Effect.isRequest])
  | candidate _ _ _ hna =>
    exact proposerMove_same rfl hna (by simp [NoRequest, becomeCandidate, Effect.isRequest])
  | tenureBulk | propose | flush => exact .quiet (.spawn rfl) .nil
  | assign k payload tags p s hk | planBulk k term peerCeiling ceiling hk =>
      exact .quiet (.advance hk rfl rfl) .nil
  | drop | finishBulk => exact .quiet .drop .nil
  | beginPrepare k slot minRound a hk hearly =>
    exact .prepare k a.job (r.prepareEntry n slot a.job.payload minRound) (.inl ⟨a, hk, hearly⟩)
      le_rfl (Nat.le_add_left 1 _) rfl rfl rfl
  | repair slot =>
    exact .prepare r.nextAttempt .repair (r.prepareEntry n slot [] 0)
      (.inr ⟨rfl, Nat.lt_succ_self _⟩) (Nat.le_succ _) (Nat.le_add_left 1 _) rfl rfl rfl
  | acceptZero k slot payload tags p s hev hclassic hk =>
    exact .acceptZero k slot payload tags p s hev hclassic hk rfl rfl rfl
  | acceptPrepared k job entry _ foreign replies hev hk hproceed =>
    obtain ⟨hquorum, hslot, hballot, hadopted, -⟩ := of_prepareAttempt_proceed hproceed
    refine .acceptPrepared k job entry _ foreign replies hev hk rfl ?_ ?_ hquorum (fun prev hp => ?_)
      rfl rfl ⟨_, hproceed, rfl⟩
    · rw [acceptEntry_slot, hslot]
    · rw [acceptEntry_ballot, hballot]
    · rw [acceptEntry_payload, hadopted prev hp]
  | endSlot _ _ _ _ _ hend => exact .quiet hend.quiet .nil
  | chosen _ _ _ _ _ _ _ _ _ _ _ _ _ _ _ hend =>
    exact .quiet hend.quiet (by simp [NoRequest, Effect.isRequest])
  | prepareReply k peer job entry replies reply hk hpeer hsent =>
    exact .reply k peer job entry replies reply hk rfl hpeer hsent rfl rfl
  | acceptReply k peer job entry foreign replies reply hk hpeer hsent =>
    exact .ack k peer job entry foreign replies reply hk rfl hpeer hsent rfl rfl
  | appended _ _ _ _ _ _ _ ho =>
    cases ho with
    | elected | campaign =>
      exact proposerMove_same rfl (Nat.le_succ _)
        (by simp [NoRequest, Effect.isRequest, or_imp, forall_and])
    | _ => exact proposerMove_same rfl le_rfl (by simp [NoRequest, Effect.isRequest])
  | _ =>
    exact proposerMove_same rfl le_rfl
      (by simp [NoRequest, Effect.isRequest, finalizeLeader, Replica.grantVote])

/-! ## Acceptors -/

/-- A promise that is sent. -/
def Effect.report : Effect → Option (PrepareRequest × Option PxLogEntry)
  | .send (.prepareReply req (.promised _ accepted)) => some (req, accepted)
  | _ => none

/-- A promise that waits for its append. -/
def Append.report (a : Append) : Option (PrepareRequest × Option PxLogEntry) :=
  match a.next with
  | .prepareReply req accepted => some (req, accepted)
  | _ => none

/-- The append answers neither `Prepare` nor `Accept`. -/
def Append.idle (a : Append) : Bool :=
  match a.next with
  | .prepareReply _ _ => false
  | .acceptReply _ => false
  | _ => true

/-- No entry is accepted, no promise and no acceptance goes out, and no entry is handed to
    a follower. -/
def Effect.acceptorIdle : Effect → Bool
  | .voted _ => false
  | .send (.fetchGapReply _ _) => false
  | .send (.prepareReply _ (.promised _ _)) => false
  | .send (.acceptReply _ (.accepted _ _)) => false
  | _ => true

/-- What a step does to the acceptor, the WAL and the replies under way, given the
    history before the step. -/
inductive AcceptorMove (H : List (ℕ × Effect)) (r : Replica) (o : Outcome) : Prop
  | quiet (hnodes : o.1.acceptor.nodes = r.acceptor.nodes) (hwal : o.1.wal = r.wal)
      (hpending : ∀ a ∈ o.1.pending, a ∈ r.pending ∨ a.idle = true)
      (houts : ∀ e ∈ o.2, e.acceptorIdle = true)
  | sendGap (follower slot : ℕ) (entry : PxLogEntry)
      (ho : o = (r, [.send (.fetchGapReply follower entry)]))
      (hentry : r.acceptor.acceptedAt slot = some entry)
  | appended (a : Append) (ha : a ∈ r.pending) (hnodes : o.1.acceptor.nodes = r.acceptor.nodes)
      (hwal : o.1.wal = r.wal ++ [a.record]) (hpending : ∀ b ∈ o.1.pending, b ∈ r.pending)
      (houts : ∀ e ∈ o.2, e.acceptorIdle = true ∨
        (∃ req accepted, a.next = .prepareReply req accepted ∧
          e = .send (.prepareReply req (.promised req.slot accepted))) ∨
        ∃ req, a.next = .acceptReply req ∧
          e = .send (.acceptReply req (.accepted req.entry.slot req.entry.ballot)))
  | promise (req : PrepareRequest)
      (hlt : ∀ p ∈ (r.acceptor.nodes req.slot).promised, p < req.ballot)
      (hpromised : (o.1.acceptor.nodes req.slot).promisedBallot = req.ballot)
      (haccepted : (o.1.acceptor.nodes req.slot).accepted = (r.acceptor.nodes req.slot).accepted)
      (hother : ∀ slot ≠ req.slot, o.1.acceptor.nodes slot = r.acceptor.nodes slot)
      (hwal : o.1.wal = r.wal)
      (hpending : o.1.pending = r.pending ++ [⟨.promised req.term req.slot req.ballot,
        .prepareReply req (r.acceptor.acceptedAt req.slot)⟩])
      (houts : o.2 = [])
  | vote (entry : PxLogEntry)
      (hle : (r.acceptor.nodes entry.slot).promisedBallot ≤ entry.ballot)
      (hpromised : (o.1.acceptor.nodes entry.slot).promisedBallot = entry.ballot)
      (haccepted : (o.1.acceptor.nodes entry.slot).accepted = some entry)
      (hother : ∀ slot ≠ entry.slot, o.1.acceptor.nodes slot = r.acceptor.nodes slot)
      (hwal : o.1.wal = r.wal)
      (hpending : ∀ a ∈ o.1.pending, a ∈ r.pending ∨ ∃ req, a.next = .acceptReply req ∧
        req.entry = entry ∧
          ∃ p, (p, Effect.send (.accept req)) ∈ H)
      (hvoted : .voted entry ∈ o.2)
      (houts : ∀ e ∈ o.2, e = .voted entry ∨ ∃ req, req.entry = entry ∧
        e = .send (.acceptReply req (.accepted req.entry.slot req.entry.ballot)))
      (hsent : (∃ p req, (p, Effect.send (.accept req)) ∈ H ∧ req.entry = entry) ∨
        ∃ p follower, (p, Effect.send (.fetchGapReply follower entry)) ∈ H)

namespace Replica

theorem acceptorMove_same (hacc : o.1.acceptor = r.acceptor) (hwal : o.1.wal = r.wal)
    (hpending : o.1.pending = r.pending) (houts : ∀ e ∈ o.2, e.acceptorIdle = true) :
    AcceptorMove H r o :=
  .quiet (by rw [hacc]) hwal (fun a ha => .inl (hpending ▸ ha)) houts

theorem acceptorMove_append {a : Append} (hacc : o.1.acceptor = r.acceptor)
    (hwal : o.1.wal = r.wal) (hpending : o.1.pending = r.pending ++ [a]) (ha : a.idle = true)
    (houts : ∀ e ∈ o.2, e.acceptorIdle = true) : AcceptorMove H r o := by
  refine .quiet (by rw [hacc]) hwal (fun b hb => ?_) houts
  rw [hpending] at hb
  rcases mem_append.mp hb with hb | hb
  · exact .inl hb
  · exact .inr (mem_singleton.mp hb ▸ ha)

end Replica

theorem Continued.storage {c : Continuation} (h : Continued cfg n r c o) :
    o.1.acceptor = r.acceptor ∧ o.1.wal = r.wal ∧ o.1.pending = r.pending := by
  cases h <;> exact ⟨rfl, rfl, rfl⟩

open Replica in
theorem ReplicaStep.acceptorMove (h : ReplicaStep cfg n ev H r o) : AcceptorMove H r o := by
  cases h with
  | candidate | grantVote =>
    exact acceptorMove_append rfl rfl rfl rfl
      (by simp [becomeCandidate, Replica.grantVote, Effect.acceptorIdle])
  | endSlot _ _ _ _ _ hend => cases hend <;> exact acceptorMove_same rfl rfl rfl (by simp)
  | chosen _ _ _ _ _ _ _ _ _ _ _ hpending _ _ _ hend =>
    rcases hpending with rfl | rfl
    · cases hend <;> exact acceptorMove_same rfl rfl rfl (by simp [Effect.acceptorIdle])
    · cases hend <;> exact acceptorMove_append rfl rfl rfl rfl (by simp [Effect.acceptorIdle])
  | promise req _ _ hlt hnode =>
    refine .promise req hlt ?_ ?_ (fun slot hs => ?_) rfl rfl rfl
    · rcases (r.acceptor.nodes req.slot).prepare_cases req.slot req.ballot with
        ⟨p, -, -, hc⟩ | ⟨hp, hc⟩
      · simp [hc] at hnode
      · simp [addPending, PxAcceptor.prepare_nodes, hc]
    · simp [addPending, PxAcceptor.prepare_nodes]
    · simp [addPending, PxAcceptor.prepare_nodes, hs]
  | refusePrepare _ _ _ hnode =>
    exact .quiet (PxAcceptor.prepare_nodes_of_node hnode) rfl (fun a ha => .inl ha)
      (by simp [Effect.acceptorIdle])
  | vote req peer f hsent hpromised hnode =>
    refine .vote req.entry hpromised ?_ ?_ (fun slot hs => ?_) rfl (fun a ha => ?_)
      (by simp) (by simp)
      (.inl ⟨peer, req, hsent, rfl⟩)
    · simp [addPending, PxAcceptor.accept_nodes, hnode, hpromised]
    · simp [addPending, PxAcceptor.accept_nodes, hnode]
    · simp [addPending, PxAcceptor.accept_nodes, hs]
    · rcases mem_append.mp ha with ha | ha
      · exact .inl ha
      · obtain rfl := mem_singleton.mp ha
        exact .inr ⟨req, rfl, rfl, peer, hsent⟩
  | voteEarly req peer f hsent hpromised hnode =>
    refine .vote req.entry hpromised ?_ ?_ (fun slot hs => ?_) rfl (fun a ha => .inl ha) (by simp)
      (fun e he => ?_) (.inl ⟨peer, req, hsent, rfl⟩)
    · simp [PxAcceptor.accept_nodes, hnode, hpromised]
    · simp [PxAcceptor.accept_nodes, hnode]
    · simp [PxAcceptor.accept_nodes, hs]
    · rcases mem_pair.mp he with rfl | rfl
      · exact .inl rfl
      · exact .inr ⟨req, rfl, rfl⟩
  | refuseAccept _ _ _ hnode =>
    exact .quiet (PxAcceptor.accept_nodes_of_node hnode) rfl (fun a ha => .inl ha)
      (by simp [Effect.acceptorIdle])
  | appended _ a _ _ _ hi hc ho =>
    obtain ⟨hacc, hwal, hpending⟩ := ho.storage
    refine .appended a (mem_of_getElem? hi) (by rw [hacc]) hwal (fun b hb => ?_) fun e he => ?_
    · rw [hpending] at hb
      exact mem_of_mem_eraseIdx hb
    · cases ho with
      | promised req accepted => exact .inr (.inl ⟨req, accepted, hc, by simpa using he⟩)
      | accepted req => exact .inr (.inr ⟨req, hc, by simpa using he⟩)
      | _ =>
        left
        revert e
        simp [Effect.acceptorIdle, or_imp, forall_and]
  | sendGap follower slot entry hentry => exact .sendGap follower slot entry rfl hentry
  | fillGap peer follower entry hsent hpromised hnode =>
    refine .vote entry hpromised ?_ ?_ (fun slot hs => ?_) rfl (fun a ha => .inl ha) (by simp)
      (by simp) (.inr ⟨peer, follower, hsent⟩)
    · simp [PxAcceptor.accept_nodes, hnode, hpromised]
    · simp [PxAcceptor.accept_nodes, hnode]
    · simp [PxAcceptor.accept_nodes, hs]
  | missGap _ _ hnode =>
    exact .quiet (PxAcceptor.accept_nodes_of_node hnode) rfl (fun a ha => .inl ha) (by simp)
  | _ =>
    exact acceptorMove_same rfl rfl rfl
      (by simp [Effect.acceptorIdle, finalizeLeader, Replica.finishBulk,
        Replica.beginPrepare, beginAccept])

/-! ## Learners -/

/-- Nothing goes to the engine. -/
def NoHandover (outs : List Effect) : Prop := ∀ slot payload, .handed slot payload ∉ outs

theorem NoHandover.nil : NoHandover [] := by simp [NoHandover]

/-- What a step does to the engine, to the entries on their way to it, and to the dedup
    windows. -/
inductive LearnerMove (cfg : GroupConfig) (n : ℕ) (ev : GroupEvent) (r : Replica) (o : Outcome) : Prop
  | quiet (hengine : o.1.learner.engine = r.learner.engine)
      (hdedup : o.1.learner.dedup = r.learner.dedup) (happlying : o.1.applying = r.applying)
      (houts : NoHandover o.2)
  | chosen (k : ℕ) (job : Job) (entry : PxLogEntry) (foreign : Bool)
      (replies : List (ℕ × PxAcceptReply))
      (hk : r.attempts k = some ⟨job, .accepting entry foreign replies⟩)
      (hquorum : cfg.quorum ≤ (ReplyFold.ofAccept cfg n replies).accepted)
      (hengine : ∀ p ∈ o.1.learner.engine, p ∈ r.learner.engine ∨ p = (entry.slot, entry.payload))
      (hdedup : r.learner.DedupFrom o.1.learner job.tags entry.slot)
      (happlying : ∀ e ∈ o.1.applying, e ∈ r.applying ∨ e = entry) (houts : NoHandover o.2)
      (ok : Bool) (hev : ev = .act n (.acceptDone k ok))
  | record (a : Append) (req : AcceptRequest) (ha : a ∈ r.pending)
      (hnext : a.next = .acceptReply req) (hengine : o.1.learner.engine = r.learner.engine)
      (hdedup : r.learner.DedupFrom o.1.learner req.tags req.entry.slot)
      (happlying : o.1.applying = r.applying) (houts : NoHandover o.2)
  | deferred (entry : PxLogEntry) (hentry : entry ∈ r.applying)
      (hengine : ∀ p ∈ o.1.learner.engine, p ∈ r.learner.engine ∨ p = (entry.slot, entry.payload))
      (hdedup : o.1.learner.dedup = r.learner.dedup) (happlying : ∀ e ∈ o.1.applying, e ∈ r.applying)
      (houts : NoHandover o.2)
  /-- the apply loop hands the accepted entry of a slot to the engine -/
  | handOver (slot last : ℕ) (ok : Bool) (entry : PxLogEntry)
      (hev : ev = .act n (.applyPassStep ok)) (hpass : r.applyPass = some (slot, last))
      (hle : slot ≤ last) (hentry : r.acceptor.acceptedAt slot = some entry)
      (htaken : r.takenAsChosen slot = true)
      (hengine : ∀ p ∈ o.1.learner.engine, p ∈ r.learner.engine ∨ p = (entry.slot, entry.payload))
      (hdedup : o.1.learner.dedup = r.learner.dedup) (happlying : o.1.applying = r.applying)
      (houts : o.2 = [.handed entry.slot entry.payload])

namespace Replica

theorem learnerMove_same (hl : o.1.learner = r.learner) (ha : o.1.applying = r.applying)
    (houts : NoHandover o.2) : LearnerMove cfg n ev r o :=
  .quiet (by rw [hl]) (by rw [hl]) ha houts

end Replica

open Replica in
theorem ReplicaStep.learnerMove (h : ReplicaStep cfg n ev H r o) : LearnerMove cfg n ev r o := by
  cases h with
  | endSlot _ _ _ _ _ hend => cases hend <;> exact learnerMove_same rfl rfl .nil
  | chosen k job entry foreign replies _ _ _ _ hk hquorum _ hengine hdedup happlying hend ok hev =>
    cases hend <;>
      exact .chosen k job entry foreign replies hk hquorum hengine hdedup happlying
        (by simp [NoHandover]) ok hev
  | appended _ a _ _ _ hi hc ho =>
    cases ho with
    | accepted req l hl =>
      rcases hl with rfl | rfl
      · exact learnerMove_same rfl rfl (by simp [NoHandover])
      · exact .record a req (mem_of_getElem? hi) hc (by simp) PxLearner.dedupFrom_recordDedupTags rfl
          (by simp [NoHandover])
    | _ => exact learnerMove_same rfl rfl (by simp [NoHandover])
  | noteChosen _ _ hl => exact .quiet hl.engine hl.dedup rfl .nil
  | fillGap | missGap => exact .quiet (by simp) (by simp) rfl (by simp [NoHandover])
  | applyDeferred _ _ entry hi =>
    refine .deferred entry (mem_of_getElem? hi) (fun p hp => ?_) (by simp) (fun e he => ?_) .nil
    · exact PxLearner.mem_applyAndAdvance_engine hp
    · exact mem_of_mem_eraseIdx he
  | applySlot slot last ok entry p hev hpass hle hentry htaken =>
    exact .handOver slot last ok entry hev hpass hle hentry htaken
      (fun p hp => PxLearner.mem_applyAndAdvance_engine hp) (by simp) rfl rfl
  | _ =>
    exact learnerMove_same rfl rfl
      (by simp [NoHandover, becomeCandidate, Replica.grantVote, finalizeLeader,
      Replica.finishBulk, Replica.beginPrepare, beginAccept])

/-! ## Frontiers -/

/-- The effect says nothing about what is chosen. -/
def Effect.frontierIdle : Effect → Bool
  | .send (.chosenNotice _ _ _) => false
  | .send (.batchChosen _ _ _ _) => false
  | .send (.heartbeat _) => false
  | .send (.fetchGapReply _ _) => false
  | _ => true

/-- What a step does to the chosen frontier, the commit frontier and the apply pass, and what it
    tells others about them. -/
inductive FrontierMove (cfg : GroupConfig) (n : ℕ) (ev : GroupEvent) (H : List (ℕ × Effect))
    (r : Replica) (o : Outcome) : Prop
  | quiet (hchosen : o.1.learner.chosen = r.learner.chosen)
      (hknown : o.1.knownCommitSlot = r.knownCommitSlot)
      (hpass : ∀ q ∈ o.1.applyPass, q ∈ r.applyPass ∨ 0 < q.1)
      (houts : ∀ e ∈ o.2, e.frontierIdle = true)
  /-- a heartbeat or the end of bulk Phase 1 moves the commit frontier -/
  | commit (hchosen : o.1.learner.chosen = r.learner.chosen)
      (hknown : ∀ slot ≤ o.1.knownCommitSlot, slot ≤ r.knownCommitSlot ∨
        slot ≤ r.learner.contiguousChosen ∨
        ∃ peer req, (peer, Effect.send (.heartbeat req)) ∈ H ∧ slot ≤ req.committedSafeSlot)
      (hpass : o.1.applyPass = r.applyPass) (houts : ∀ e ∈ o.2, e.frontierIdle = true)
  /-- an accept phase ends with a quorum -/
  | chosen (k : ℕ) (job : Job) (entry : PxLogEntry) (foreign : Bool)
      (replies : List (ℕ × PxAcceptReply)) (ok : Bool) (hev : ev = .act n (.acceptDone k ok))
      (hk : r.attempts k = some ⟨job, .accepting entry foreign replies⟩)
      (hquorum : cfg.quorum ≤ (ReplyFold.ofAccept cfg n replies).accepted)
      (hchosen : o.1.learner.chosen = r.learner.chosen.advance entry.slot)
      (hknown : o.1.knownCommitSlot = r.knownCommitSlot) (hpass : o.1.applyPass = r.applyPass)
      (houts : o.2 = [.send (.chosenNotice entry.slot entry.term entry.ballot)])
  | noticed (hchosen : LearnsNoticed H r o.1.learner)
      (hknown : o.1.knownCommitSlot = r.knownCommitSlot) (hpass : o.1.applyPass = r.applyPass)
      (houts : o.2 = [])
  | sendBatch (startSlot endSlot term : ℕ) (ballot : PxBallot)
      (hall : ∀ slot, startSlot ≤ slot → slot ≤ endSlot → r.learner.isChosen slot = true ∧
        (r.acceptor.acceptedAt slot).map PxLogEntry.ballot = some ballot)
      (ho : o = (r, [.send (.batchChosen startSlot endSlot term ballot)]))
  | heartbeat (req : HeartbeatRequest) (hreq : req.committedSafeSlot = r.learner.contiguousChosen)
      (ho : o = (r, [.send (.heartbeat req)]))
  /-- a leader answers a gap request -/
  | sendGap (follower slot i leader : ℕ) (lockoutExpired : Bool) (entry : PxLogEntry)
      (hev : ev = .deliver n i lockoutExpired)
      (hi : H[i]? = some (follower, .send (.fetchGap slot leader)))
      (hentry : r.acceptor.acceptedAt slot = some entry)
      (ho : o = (r, [.send (.fetchGapReply follower entry)]))
  /-- the answer arrives -/
  | gap (peer follower i : ℕ) (lockoutExpired : Bool) (entry : PxLogEntry)
      (hev : ev = .deliver n i lockoutExpired)
      (hi : H[i]? = some (peer, .send (.fetchGapReply follower entry)))
      (hacceptor : o.1.acceptor = (r.acceptor.accept entry).1)
      (hchosen : o.1.learner.chosen = r.learner.chosen.advance entry.slot)
      (hknown : o.1.knownCommitSlot = r.knownCommitSlot) (hpass : o.1.applyPass = r.applyPass)
      (houts : ∀ e ∈ o.2, e.frontierIdle = true)

namespace Replica

theorem frontierMove_same (hchosen : o.1.learner.chosen = r.learner.chosen)
    (hknown : o.1.knownCommitSlot = r.knownCommitSlot) (hpass : o.1.applyPass = r.applyPass)
    (houts : ∀ e ∈ o.2, e.frontierIdle = true) : FrontierMove cfg n ev H r o :=
  .quiet hchosen hknown (fun _ hq => .inl (hpass ▸ hq)) houts

end Replica

open Replica in
theorem ReplicaStep.frontierMove (h : ReplicaStep cfg n ev H r o) : FrontierMove cfg n ev H r o := by
  cases h with
  | heartbeat req hleader hrole hcommitted => exact .heartbeat req hcommitted rfl
  | takeHeartbeat req f peer hsent =>
    refine .commit rfl (fun slot hslot => ?_) rfl (by simp [Effect.frontierIdle])
    exact (le_max_iff.1 hslot).imp_right fun hle => .inr ⟨peer, req, hsent, hle⟩
  | finishBulk k ceiling =>
    exact .commit rfl (fun slot hslot => (le_max_iff.1 hslot).imp_right .inl) rfl
      (by simp [Replica.finishBulk])
  | endSlot _ _ _ _ _ hend => cases hend <;> exact frontierMove_same rfl rfl rfl (by simp)
  | chosen k job entry foreign replies _ _ _ _ hk hquorum _ _ _ _ hend ok hev hchosen =>
    cases hend <;> exact .chosen k job entry foreign replies ok hev hk hquorum hchosen rfl rfl rfl
  | appended _ _ _ _ _ _ _ ho =>
    cases ho with
    | accepted req l hl =>
      rcases hl with rfl | rfl
      · exact frontierMove_same rfl rfl rfl (by simp [Effect.frontierIdle])
      · exact frontierMove_same (by simp) rfl rfl (by simp [Effect.frontierIdle])
    | elected | campaign =>
      exact frontierMove_same rfl rfl rfl (by simp [Effect.frontierIdle, or_imp, forall_and])
    | _ => exact frontierMove_same rfl rfl rfl (by simp [Effect.frontierIdle])
  | noteChosen l gaps hl hchosen => exact .noticed hchosen rfl rfl rfl
  | sendBatch startSlot endSlot term ballot hall =>
      exact .sendBatch startSlot endSlot term ballot hall rfl
  | sendGap follower slot entry hentry i leader l hev hi =>
    exact .sendGap follower slot i leader l entry hev hi hentry rfl
  | fillGap peer follower entry _ _ _ i l hev hi =>
    exact .gap peer follower i l entry hev hi rfl rfl rfl rfl (by simp [Effect.frontierIdle])
  | missGap entry _ _ peer follower i l hev hi =>
    exact .gap peer follower i l entry hev hi rfl rfl rfl rfl (by simp)
  | applyDeferred _ ok => exact frontierMove_same (by cases ok <;> rfl) rfl rfl (by simp)
  | setPass p hp | applyGap _ p hp => exact .quiet rfl rfl (fun q hq => .inr (hp q hq)) (by simp)
  | applySlot _ _ ok _ p _ _ _ _ _ hp =>
    exact .quiet (by cases ok <;> rfl) rfl (fun q hq => .inr (hp q hq))
      (by simp [Effect.frontierIdle])
  | _ =>
    exact frontierMove_same rfl rfl rfl
      (by simp [Effect.frontierIdle, becomeCandidate, Replica.grantVote,
      finalizeLeader, Replica.beginPrepare, beginAccept])

end CrowDB
