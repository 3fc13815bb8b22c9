/-
  What a step of a replica can do, said once.

  `ReplicaStep` lists the outcomes of the step functions with the guards under which they happen,
  restarts apart.  Every invariant of the group is proved from this list, and the step functions are
  not unfolded again.
-/
import CrowDB.Cluster.Group

namespace CrowDB

open List Option

/-- No request of the attempt has been sent. -/
def Phase.early : Phase → Bool
  | .waiting => true
  | .assigned _ => true
  | .backoff _ _ => true
  | _ => false

/-- The reply of `peer` completes the quorum of the replica's `PreVote` round. -/
def Replica.preVoteWon (cfg : GroupConfig) (n : ℕ) (r : Replica) (peer : ℕ) (req : VoteRequest)
    (reply : VoteReply) : Bool :=
  match r.campaign with
  | .preVoting cur granted =>
    decide (cur = req ∧ peer ∉ granted ∧ ¬ req.term < reply.term) && reply.granted &&
      decide (cfg.quorum ≤ selfVote cfg n + (peer :: granted).length)
  | _ => false

/-- Only chosen frontiers differ: the engine, its frontier and the dedup windows are the
    same. -/
structure SameValues (l l' : PxLearner) : Prop where
  applied : l'.applied = l.applied
  dedup : l'.dedup = l.dedup
  engine : l'.engine = l.engine

theorem SameValues.trans {l l' l'' : PxLearner} (h : SameValues l l') (h' : SameValues l' l'') :
    SameValues l l'' :=
  ⟨h'.applied.trans h.applied, h'.dedup.trans h.dedup, h'.engine.trans h.engine⟩

/-- The slot that a client proposal holds and has not sent an `Accept` for. -/
def Attempt.fastSlot (a : Attempt) : Option ℕ :=
  match a.job, a.phase with
  | .propose _ _ _ _, .assigned slot => some slot
  | _, _ => none

/-- Term and vote are as before, or the term is higher. -/
def TermKept (r r' : Replica) : Prop :=
  (r'.currentTerm = r.currentTerm ∧ r'.votedFor = r.votedFor) ∨ r.currentTerm < r'.currentTerm

/-! ## The outcomes -/

/-- What a term fence makes of a replica. -/
structure Fence (r : Replica) where
  term : ℕ
  vote : Option ℕ
  role : Role
  leader : Option ℕ
  kept : (term = r.currentTerm ∧ vote = r.votedFor) ∨ r.currentTerm < term

/-- The replica with the new term. -/
def Fence.replica {r : Replica} (f : Fence r) : Replica :=
  { r with currentTerm := f.term, votedFor := f.vote, role := f.role, leaderId := f.leader }

theorem Fence.termKept {r : Replica} (f : Fence r) : TermKept r f.replica := f.kept

open Replica in
/-- How an attempt ends its work on a slot: it is over, or goes on under a new number. -/
inductive SlotEnd (r : Replica) (k : ℕ) (job : Job) : Replica → Prop
  | ended (next : ℕ) (hnext : r.nextSlot ≤ next) :
      SlotEnd r k job (setAttempt { r with nextSlot := next } k none)
  | renew (next : ℕ) (a : Attempt) (hnext : r.nextSlot ≤ next) (hearly : a.phase.early = true)
      (hpayload : a.job.payload = job.payload) (htags : a.job.tags = job.tags)
      (hslot : ∀ slot, a.fastSlot = some slot → slot = r.nextSlot ∧ r.nextSlot < next) :
      SlotEnd r k job (renewAttempt { r with nextSlot := next } k a)

open Replica in
/-- What happens when an append has returned. -/
inductive Continued (cfg : GroupConfig) (n : ℕ) (r : Replica) : Continuation → Outcome → Prop
  | promised (req : PrepareRequest) (accepted : Option PxLogEntry) :
      Continued cfg n r (.prepareReply req accepted)
      (r, [.send (.prepareReply req (.promised req.slot accepted))])
  | accepted (req : AcceptRequest) (l : PxLearner)
      (hl : l = r.learner ∨ l = r.learner.recordDedupTags req.tags req.entry.slot) :
      Continued cfg n r (.acceptReply req)
        ({ r with learner := l },
          [.send (.acceptReply req (.accepted req.entry.slot req.entry.ballot))])
  | granted (req : VoteRequest) (term : ℕ) : Continued cfg n r (.voteReply req term)
      (r, [.send (.requestVoteReply req (r.voteReply term true))])
  | elected (halone : alone cfg n = true) : Continued cfg n r .candidacy
      ((finalizeLeader n { r with nextAttempt := r.nextAttempt + 1 } r.currentTerm
        r.acceptor.highestSeenSlot).1,
        (if n ∈ cfg.voters then [.supported r.currentTerm n] else []) ++ [.finalized r.currentTerm])
  | campaign (halone : alone cfg n = false) : Continued cfg n r .candidacy
      ({ r with
          nextAttempt := r.nextAttempt + 1
          campaign := .requesting (r.voteRequest n r.currentTerm) [] r.acceptor.highestSeenSlot },
        (if n ∈ cfg.voters then [.supported r.currentTerm n] else []) ++
          [.send (.requestVote (r.voteRequest n r.currentTerm))])
  | done : Continued cfg n r .done (r, [])

/-- A notice in the history says that the slot is chosen at the ballot. -/
def Noticed (H : List (ℕ × Effect)) (slot : ℕ) (ballot : PxBallot) : Prop :=
  (∃ peer term, (peer, Effect.send (.chosenNotice slot term ballot)) ∈ H) ∨
    ∃ peer startSlot endSlot term, startSlot ≤ slot ∧ slot ≤ endSlot ∧
      (peer, Effect.send (.batchChosen startSlot endSlot term ballot)) ∈ H

/-- The slots that `l` counts as chosen are those of the replica, and noticed ones of which it has
    accepted the entry. -/
def LearnsNoticed (H : List (ℕ × Effect)) (r : Replica) (l : PxLearner) : Prop :=
  ∀ slot, l.chosen.Mem slot → r.learner.chosen.Mem slot ∨ ∃ ballot,
    (r.acceptor.acceptedAt slot).map PxLogEntry.ballot = some ballot ∧ Noticed H slot ballot

open Replica in
/-- The outcomes of the step functions; `H` is the history before the event `ev`. -/
inductive ReplicaStep (cfg : GroupConfig) (n : ℕ) (ev : GroupEvent) (H : List (ℕ × Effect))
    (r : Replica) : Outcome → Prop
  -- election driver
  | preVote (req : VoteRequest) (hreq : req = r.voteRequest n (r.currentTerm + 1)) :
      ReplicaStep cfg n ev H r ({ r with
          role := .preCandidate
          nextAttempt := r.nextAttempt + 1
          campaign := .preVoting req [] }, [.send (.preVote req)])
  | candidate (role : Role) (na term : ℕ) (hna : r.nextAttempt ≤ na)
      (hterm : term = r.currentTerm + 1 ∨ ∃ i lockoutExpired peer req reply granted,
        ev = .deliver n i lockoutExpired ∧
        H[i]? = some (peer, .send (.preVoteReply req reply)) ∧
        r.campaign = .preVoting req granted ∧ r.preVoteWon cfg n peer req reply = true ∧
        term = req.term) :
      ReplicaStep cfg n ev H r (becomeCandidate n { r with role := role, nextAttempt := na } term)
  | follow (f : Fence r) (c : Campaign) (hc : c = .idle ∨ c = r.campaign) :
      ReplicaStep cfg n ev H r ({ f.replica with campaign := c }, [])
  | endCampaign : ReplicaStep cfg n ev H r ({ r with campaign := .idle }, [])
  | preVoteGrant (req : VoteRequest) (granted : List ℕ) (peer : ℕ)
      (hc : r.campaign = .preVoting req granted) :
      ReplicaStep cfg n ev H r ({ r with campaign := .preVoting req (peer :: granted) }, [])
  | voteGrant (req : VoteRequest) (granted : List ℕ) (ceiling peer : ℕ) (reply : VoteReply)
      (hc : r.campaign = .requesting req granted ceiling) (hpeer : peer ∉ granted)
      (hsent : (peer, .send (.requestVoteReply req reply)) ∈ H) (hgranted : reply.granted = true) :
      ReplicaStep cfg n ev H r ({ r with
        campaign := .requesting req (peer :: granted) (max ceiling reply.highestSeenSlot) }, [])
  | finalize (req : VoteRequest) (granted : List ℕ) (ceiling peer : ℕ) (reply : VoteReply)
      (hc : r.campaign = .requesting req granted ceiling) (hpeer : peer ∉ granted)
      (hsent : (peer, .send (.requestVoteReply req reply)) ∈ H) (hgranted : reply.granted = true)
      (hquorum : cfg.quorum ≤ selfVote cfg n + (peer :: granted).length) :
      ReplicaStep cfg n ev H r (r.finalizeLeader n req.term (max ceiling reply.highestSeenSlot))
  -- leader
  | tenure (hrole : r.role = .leader) : ReplicaStep cfg n ev H r
      ({ r with campaign := .leading r.currentTerm, proposingTerm := r.currentTerm }, [])
  | tenureBulk (term ceiling : ℕ) (hrole : r.role = .leader)
      (hhandoff : r.pendingHandoff = some (term, ceiling)) : ReplicaStep cfg n ev H r
      (newAttempt { r with
          campaign := .leading r.currentTerm
          proposingTerm := r.currentTerm
          pendingHandoff := none } ⟨.handoff term ceiling, .waiting⟩, [])
  | heartbeat (req : HeartbeatRequest) (hleader : req.leaderId = n) (hrole : r.role = .leader)
      (hcommitted : req.committedSafeSlot = r.learner.contiguousChosen) :
      ReplicaStep cfg n ev H r (r, [.send (.heartbeat req)])
  -- election handlers
  | preVoteReply (req : VoteRequest) (reply : VoteReply) :
      ReplicaStep cfg n ev H r (r, [.send (.preVoteReply req reply)])
  | grantVote (req : VoteRequest) (hok : r.voteTermOk req = true)
      (hpeer : n ∈ cfg.votingPeers req.candidateId) :
      ReplicaStep cfg n ev H r (r.grantVote req)
  | refuseVote (req : VoteRequest) (reply : VoteReply) (hreply : reply.granted = false) :
      ReplicaStep cfg n ev H r (r, [.send (.requestVoteReply req reply)])
  | refuseHeartbeat (req : HeartbeatRequest) (reply : HeartbeatReply) :
      ReplicaStep cfg n ev H r (r, [.send (.heartbeatReply req reply)])
  | takeHeartbeat (req : HeartbeatRequest) (f : Fence r) (peer : ℕ)
      (hsent : (peer, .send (.heartbeat req)) ∈ H) :
      ReplicaStep cfg n ev H r (f.replica.advanceKnownCommitSlot req.committedSafeSlot,
        [.send (.heartbeatReply req ⟨req.term, true⟩)])
  -- client proposals
  | answer (tag : DedupTag) (slot : ℕ) (payload : Bytes)
      (hev : ev = .act n (.propose (some tag) payload))
      (hhit : r.learner.dedupLookup tag.clientId tag.seq = some slot) :
      ReplicaStep cfg n ev H r (r, [.answered tag slot])
  | enqueue (tag : Option DedupTag) (payload : Bytes) (hpay : ∀ t ∈ tag, payload = cfg.submitted t) :
      ReplicaStep cfg n ev H r ({ r with batch := r.batch ++ [(tag, payload)] }, [])
  | propose (tag : Option DedupTag) (payload : Bytes) (hpay : ∀ t ∈ tag, payload = cfg.submitted t) :
      ReplicaStep cfg n ev H r (r.newAttempt ⟨.propose payload tag.toList 0 0, .waiting⟩, [])
  | flush : ReplicaStep cfg n ev H r (newAttempt { r with batch := [] }
      ⟨.propose (roundPayload r.batch) (roundTags r.batch) 0 0, .waiting⟩, [])
  | flushClosed : ReplicaStep cfg n ev H r ({ r with batch := [] }, [])
  -- proposer tasks
  | assign (k : ℕ) (payload : Bytes) (tags : List DedupTag) (p s : ℕ)
      (hk : r.attempts k = some ⟨.propose payload tags p s, .waiting⟩) :
      ReplicaStep cfg n ev H r (setAttempt { r with nextSlot := r.nextSlot + 1 } k
        (some ⟨.propose payload tags p s, .assigned r.nextSlot⟩), [])
  | planBulk (k term peerCeiling ceiling : ℕ)
      (hk : r.attempts k = some ⟨.handoff term peerCeiling, .waiting⟩) (hle : peerCeiling ≤ ceiling) :
      ReplicaStep cfg n ev H r (r.setAttempt k
        (some ⟨.bulk term ceiling, .assigned (r.learner.contiguousChosen + 1)⟩), [])
  | drop (k : ℕ) : ReplicaStep cfg n ev H r (r.setAttempt k none, [])
  | finishBulk (k ceiling : ℕ) : ReplicaStep cfg n ev H r (r.finishBulk k ceiling)
  | beginPrepare (k slot minRound : ℕ) (a : Attempt) (hk : r.attempts k = some a)
      (hearly : a.phase.early = true) :
      ReplicaStep cfg n ev H r (r.beginPrepare n k a.job slot minRound)
  | repair (slot : ℕ) : ReplicaStep cfg n ev H r (beginPrepare n
      { r with nextAttempt := r.nextAttempt + 1 } r.nextAttempt .repair slot 0)
  | acceptZero (k slot : ℕ) (payload : Bytes) (tags : List DedupTag) (p s : ℕ)
      (hev : ev = .act n (.start k)) (hclassic : cfg.forceClassic = false)
      (hk : r.attempts k = some ⟨.propose payload tags p s, .assigned slot⟩) :
      ReplicaStep cfg n ev H r (r.beginAccept n k (.propose payload tags p s)
        (r.baseEntry n slot payload) false)
  | acceptPrepared (k : ℕ) (job : Job) (entry entry' : PxLogEntry) (foreign : Bool)
      (replies : List (ℕ × PxPrepareReply)) (hev : ev = .act n (.prepareDone k))
      (hk : r.attempts k = some ⟨job, .preparing entry replies⟩)
      (hproceed : prepareAttempt cfg (ReplyFold.ofPrepare cfg n replies) entry =
        .proceed entry' foreign) :
      ReplicaStep cfg n ev H r (r.beginAccept n k job (acceptEntry job entry') foreign)
  -- the end of a slot
  | endSlot (k : ℕ) (a : Attempt) (f : Fence r) (r' : Replica) (hk : r.attempts k = some a)
      (hend : SlotEnd f.replica k a.job r') : ReplicaStep cfg n ev H r (r', [])
  | chosen (k : ℕ) (job : Job) (entry : PxLogEntry) (foreign : Bool)
      (replies : List (ℕ × PxAcceptReply))
      (pending : List Append) (learner : PxLearner) (applying : List PxLogEntry) (r' : Replica)
      (hk : r.attempts k = some ⟨job, .accepting entry foreign replies⟩)
      (hquorum : cfg.quorum ≤ (ReplyFold.ofAccept cfg n replies).accepted)
      (hpending : pending = r.pending ∨ pending = r.pending ++ [⟨.accepted entry, .done⟩])
      (hengine : ∀ p ∈ learner.engine, p ∈ r.learner.engine ∨ p = (entry.slot, entry.payload))
      (hdedup : r.learner.DedupFrom learner job.tags entry.slot)
      (happlying : ∀ e ∈ applying, e ∈ r.applying ∨ e = entry)
      (hend : SlotEnd { r with pending := pending, learner := learner, applying := applying }
        k job r')
      (ok : Bool) (hev : ev = .act n (.acceptDone k ok))
      (hchosen : learner.chosen = r.learner.chosen.advance entry.slot) :
      ReplicaStep cfg n ev H r (r', [.send (.chosenNotice entry.slot entry.term entry.ballot)])
  | prepareReply (k peer : ℕ) (job : Job) (entry : PxLogEntry)
      (replies : List (ℕ × PxPrepareReply)) (reply : PxPrepareReply)
      (hk : r.attempts k = some ⟨job, .preparing entry replies⟩)
      (hpeer : peer ∉ replies.map Prod.fst)
      (hsent : (peer, .send (.prepareReply (prepareRequest n k entry) reply)) ∈ H) :
      ReplicaStep cfg n ev H r (r.setAttempt k
        (some ⟨job, .preparing entry (replies ++ [(peer, reply)])⟩), [])
  | acceptReply (k peer : ℕ) (job : Job) (entry : PxLogEntry) (foreign : Bool)
      (replies : List (ℕ × PxAcceptReply)) (reply : PxAcceptReply)
      (hk : r.attempts k = some ⟨job, .accepting entry foreign replies⟩)
      (hpeer : peer ∉ replies.map Prod.fst)
      (hsent : (peer, .send (.acceptReply ⟨n, k, entry, job.tags⟩ reply)) ∈ H) :
      ReplicaStep cfg n ev H r (r.setAttempt k
        (some ⟨job, .accepting entry foreign (replies ++ [(peer, reply)])⟩), [])
  -- Phase 1 and Phase 2 handlers
  | prepareStale (req : PrepareRequest) :
      ReplicaStep cfg n ev H r (r, [.send (.prepareReply req (.termStale req.slot r.currentTerm))])
  | promise (req : PrepareRequest) (f : Fence r) (node : PxSlotNode)
      (hlt : ∀ p ∈ (r.acceptor.nodes req.slot).promised, p < req.ballot)
      (hnode : (r.acceptor.nodes req.slot).prepare req.slot req.ballot =
        (node, .promised req.slot (r.acceptor.acceptedAt req.slot))) :
      ReplicaStep cfg n ev H r (addPending
        { f.replica with acceptor := (r.acceptor.prepare req.slot req.ballot).1 }
        (.promised req.term req.slot req.ballot)
        (.prepareReply req (r.acceptor.acceptedAt req.slot)), [])
  | refusePrepare (req : PrepareRequest) (f : Fence r) (current : PxBallot)
      (hnode : (r.acceptor.nodes req.slot).prepare req.slot req.ballot =
        (r.acceptor.nodes req.slot, .rejected req.slot current)) :
      ReplicaStep cfg n ev H r ({ f.replica with acceptor :=
        (r.acceptor.prepare req.slot req.ballot).1 },
        [.send (.prepareReply req (.rejected req.slot current))])
  | acceptStale (req : AcceptRequest) : ReplicaStep cfg n ev H r
      (r, [.send (.acceptReply req (.termStale req.entry.slot r.currentTerm))])
  | vote (req : AcceptRequest) (peer : ℕ) (f : Fence r) (hsent : (peer, .send (.accept req)) ∈ H)
      (hpromised : (r.acceptor.nodes req.entry.slot).promisedBallot ≤ req.entry.ballot)
      (hnode : (r.acceptor.nodes req.entry.slot).accept req.entry =
        ((r.acceptor.nodes req.entry.slot).store req.entry,
          .accepted req.entry.slot req.entry.ballot)) (i : ℕ) (lockoutExpired : Bool)
      (hev : ev = .deliver n i lockoutExpired) (hi : H[i]? = some (peer, .send (.accept req))) :
      ReplicaStep cfg n ev H r (addPending
        { f.replica with acceptor := (r.acceptor.accept req.entry).1 }
        (.accepted req.entry) (.acceptReply req), [.voted req.entry])
  | voteEarly (req : AcceptRequest) (peer : ℕ) (f : Fence r) (hsent : (peer, .send (.accept req)) ∈ H)
      (hpromised : (r.acceptor.nodes req.entry.slot).promisedBallot ≤ req.entry.ballot)
      (hnode : (r.acceptor.nodes req.entry.slot).accept req.entry =
        ((r.acceptor.nodes req.entry.slot).store req.entry,
          .accepted req.entry.slot req.entry.ballot)) (i : ℕ) (lockoutExpired : Bool)
      (hev : ev = .deliver n i lockoutExpired) (hi : H[i]? = some (peer, .send (.accept req))) :
      ReplicaStep cfg n ev H r ({ f.replica with acceptor := (r.acceptor.accept req.entry).1 },
        [.voted req.entry, .send (.acceptReply req (.accepted req.entry.slot req.entry.ballot))])
  | refuseAccept (req : AcceptRequest) (f : Fence r) (current : PxBallot)
      (hnode : (r.acceptor.nodes req.entry.slot).accept req.entry =
        (r.acceptor.nodes req.entry.slot, .rejected req.entry.slot current)) :
      ReplicaStep cfg n ev H r ({ f.replica with acceptor := (r.acceptor.accept req.entry).1 },
        [.send (.acceptReply req (.rejected req.entry.slot current))])
  | appended (i : ℕ) (a : Append) (c : Continuation) (o : Outcome) (hev : ev = .act n (.appended i))
      (hi : r.pending[i]? = some a) (hc : a.next = c)
      (ho : Continued cfg n { r with pending := r.pending.eraseIdx i, wal := r.wal ++ [a.record] }
        c o) :
      ReplicaStep cfg n ev H r o
  -- learning
  | noteChosen (l : PxLearner) (gaps : List ℕ) (hl : SameValues r.learner l)
      (hchosen : LearnsNoticed H r l) :
      ReplicaStep cfg n ev H r ({ r with learner := l, gapSlots := gaps }, [])
  | sendBatch (startSlot endSlot term : ℕ) (ballot : PxBallot)
      (hall : ∀ slot, startSlot ≤ slot → slot ≤ endSlot → r.learner.isChosen slot = true ∧
        (r.acceptor.acceptedAt slot).map PxLogEntry.ballot = some ballot) :
      ReplicaStep cfg n ev H r (r, [.send (.batchChosen startSlot endSlot term ballot)])
  | fetchGap (slot leader : ℕ) : ReplicaStep cfg n ev H r
      ({ r with gapSlots := r.gapSlots.erase slot }, [.send (.fetchGap slot leader)])
  | fetchGapFailed (slot : ℕ) : ReplicaStep cfg n ev H r (r.recordGap slot, [])
  | sendGap (follower slot : ℕ) (entry : PxLogEntry)
      (hentry : r.acceptor.acceptedAt slot = some entry) (i leader : ℕ) (lockoutExpired : Bool)
      (hev : ev = .deliver n i lockoutExpired)
        (hi : H[i]? = some (follower, .send (.fetchGap slot leader))) :
      ReplicaStep cfg n ev H r (r, [.send (.fetchGapReply follower entry)])
  | fillGap (peer follower : ℕ) (entry : PxLogEntry)
      (hsent : (peer, .send (.fetchGapReply follower entry)) ∈ H)
      (hpromised : (r.acceptor.nodes entry.slot).promisedBallot ≤ entry.ballot)
      (hnode : (r.acceptor.nodes entry.slot).accept entry =
        ((r.acceptor.nodes entry.slot).store entry, .accepted entry.slot entry.ballot)) (i : ℕ)
      (lockoutExpired : Bool) (hev : ev = .deliver n i lockoutExpired)
      (hi : H[i]? = some (peer, .send (.fetchGapReply follower entry))) :
      ReplicaStep cfg n ev H r ({ r with
        acceptor := (r.acceptor.accept entry).1
        learner := r.learner.updateChosenFrontier entry.slot entry.term }, [.voted entry])
  | missGap (entry : PxLogEntry) (current : PxBallot)
      (hnode : (r.acceptor.nodes entry.slot).accept entry =
        (r.acceptor.nodes entry.slot, .rejected entry.slot current)) (peer follower i : ℕ)
      (lockoutExpired : Bool) (hev : ev = .deliver n i lockoutExpired)
      (hi : H[i]? = some (peer, .send (.fetchGapReply follower entry))) :
      ReplicaStep cfg n ev H r ({ r with
        acceptor := (r.acceptor.accept entry).1
        learner := r.learner.updateChosenFrontier entry.slot entry.term }, [])
  | applyDeferred (i : ℕ) (ok : Bool) (entry : PxLogEntry) (hi : r.applying[i]? = some entry) :
      ReplicaStep cfg n ev H r ({ r with
        learner := r.learner.applyAndAdvance entry.slot entry.payload ok
        applying := r.applying.eraseIdx i }, [])
  | setPass (p : Option (ℕ × ℕ)) (hp : ∀ q ∈ p, 0 < q.1) :
      ReplicaStep cfg n ev H r ({ r with applyPass := p }, [])
  | applyGap (slot : ℕ) (p : Option (ℕ × ℕ)) (hp : ∀ q ∈ p, 0 < q.1) :
      ReplicaStep cfg n ev H r ({ r.recordGap slot with applyPass := p }, [])
  | applySlot (slot last : ℕ) (ok : Bool) (entry : PxLogEntry) (p : Option (ℕ × ℕ))
      (hev : ev = .act n (.applyPassStep ok)) (hpass : r.applyPass = some (slot, last))
      (hle : slot ≤ last)
      (hentry : r.acceptor.acceptedAt slot = some entry) (htaken : r.takenAsChosen slot = true)
      (hp : ∀ q ∈ p, 0 < q.1) :
      ReplicaStep cfg n ev H r ({ r with
        learner := r.learner.applyAndAdvance entry.slot entry.payload ok
        applyPass := p }, [.handed entry.slot entry.payload])

/-! ## The step functions -/

namespace Replica

variable {cfg : GroupConfig} {n peer : ℕ} {ev : GroupEvent} {H : List (ℕ × Effect)}
  {r : Replica} {o : Outcome}
variable (r)

theorem becomeFollower_fence (term : ℕ) : ∃ f : Fence r, r.becomeFollower term = f.replica := by
  refine ⟨⟨_, _, _, _, ?_⟩, rfl⟩
  by_cases h : r.currentTerm < term
  · exact .inr (lt_max_of_lt_right h)
  · exact .inl ⟨max_eq_left (Nat.le_of_not_lt h), if_neg h⟩

theorem fence_self : ∃ f : Fence r, r = f.replica :=
  ⟨⟨r.currentTerm, r.votedFor, r.role, r.leaderId, .inl ⟨rfl, rfl⟩⟩, rfl⟩

theorem fenceTerm_fence (term : ℕ) : ∃ f : Fence r, r.fenceTerm term = f.replica := by
  unfold fenceTerm
  split
  · exact r.becomeFollower_fence term
  · exact r.fence_self

/-! ### The end of a slot -/

theorem abandonSlot_end (k : ℕ) (job : Job) (slot : ℕ) :
    SlotEnd r k job (r.abandonSlot k job slot) := by
  cases job with
  | propose =>
    simp only [abandonSlot]
    split
    · refine .renew (r.nextSlot + 1) _ (Nat.le_succ _) rfl rfl rfl fun slot' hs => ?_
      obtain rfl : r.nextSlot = slot' := by simpa [Attempt.fastSlot] using hs
      exact ⟨rfl, Nat.lt_succ_self _⟩
    · exact .ended (r.nextSlot + 1) (Nat.le_succ _)
  | bulk => exact .renew r.nextSlot _ le_rfl rfl rfl rfl (by simp [Attempt.fastSlot])
  | handoff | repair => exact .ended r.nextSlot le_rfl

theorem retrySlot_end (k : ℕ) (job : Job) (slot minRound : ℕ) :
    SlotEnd r k job (r.retrySlot k job slot minRound) := by
  unfold retrySlot
  split
  · split
    · exact .renew r.nextSlot _ le_rfl rfl rfl rfl (by simp [Attempt.fastSlot])
    · exact r.abandonSlot_end ..
  · exact r.abandonSlot_end ..

theorem staleTerm_end (k : ℕ) (job : Job) (slot newTerm : ℕ) :
    ∃ f : Fence r, SlotEnd f.replica k job (r.staleTerm k job slot newTerm) := by
  unfold staleTerm
  split
  · obtain ⟨f, hf⟩ := r.becomeFollower_fence newTerm
    exact ⟨f, hf ▸ .ended f.replica.nextSlot le_rfl⟩
  · obtain ⟨f, hf⟩ := r.fence_self
    exact ⟨f, hf ▸ r.abandonSlot_end ..⟩

theorem afterChosen_end (k : ℕ) (job : Job) (entry : PxLogEntry) (foreign : Bool) :
    SlotEnd r k job (r.afterChosen k job entry foreign) := by
  unfold afterChosen
  split
  · split
    · exact r.abandonSlot_end ..
    · exact .ended r.nextSlot le_rfl
  · exact r.abandonSlot_end ..

variable {r}

variable {k : ℕ} {lockoutExpired : Bool} {req : VoteRequest} {reply : VoteReply} {ok : Bool}

theorem endSlot_self {a : Attempt} {r' : Replica} (hk : r.attempts k = some a)
    (h : SlotEnd r k a.job r') :
    ReplicaStep cfg n ev H r (r', []) := by
  obtain ⟨f, hf⟩ := r.fence_self
  exact .endSlot k a f r' hk (hf ▸ h)

theorem spawnAcceptPersist_frame (cfg : GroupConfig) (r : Replica) (f : ReplyFold)
    (entry : PxLogEntry) : ∃ pending,
      (pending = r.pending ∨ pending = r.pending ++ [⟨.accepted entry, .done⟩]) ∧
      r.spawnAcceptPersist cfg f entry = { r with pending := pending } := by
  unfold spawnAcceptPersist
  split
  · exact ⟨_, .inr rfl, rfl⟩
  · exact ⟨_, .inl rfl, rfl⟩

theorem learnChosen_frame (cfg : GroupConfig) (r : Replica) (job : Job)
    (entry : PxLogEntry) (ok : Bool) :
    ∃ learner applying, r.learnChosen cfg job entry ok =
    { r with learner := learner, applying := applying } ∧
      (∀ p ∈ learner.engine, p ∈ r.learner.engine ∨ p = (entry.slot, entry.payload)) ∧
      r.learner.DedupFrom learner job.tags entry.slot ∧ (∀ e ∈ applying, e ∈ r.applying ∨ e = entry) ∧
      learner.chosen = r.learner.chosen.advance entry.slot := by
  have hlearn : ∀ tags, ∀ p ∈ (r.learner.learn entry tags ok).engine,
      p ∈ r.learner.engine ∨ p = (entry.slot, entry.payload) := by
    intro tags p hp
    rw [PxLearner.learn_engine] at hp
    exact PxLearner.mem_applyAndAdvance_engine hp
  cases job with
  | propose _ _ p =>
    simp only [learnChosen]
    split
    · refine ⟨_, _, rfl, fun p hp => .inl (by simpa using hp), PxLearner.dedupFrom_learnDeferred,
        fun e he => ?_, by simp [PxLearner.learnDeferred]⟩
      rcases mem_append.mp he with he | he
      · exact .inl he
      · exact .inr (mem_singleton.mp he)
    · exact ⟨_, _, rfl, hlearn _, PxLearner.dedupFrom_learn, fun e he => .inl he,
        PxLearner.learn_chosen⟩
  | handoff | bulk | repair =>
    exact ⟨_, _, rfl, hlearn _, PxLearner.dedupFrom_learn, fun e he => .inl he,
      PxLearner.learn_chosen⟩

/-! ### Elections -/

theorem step_of_runElectionAttempt (h : r.runElectionAttempt cfg n = some o) :
    ReplicaStep cfg n ev H r o := by
  obtain ⟨-, h⟩ := ite_none_right_eq_some.mp h
  split at h
  · dsimp only at h
    split at h
    · cases h
      exact .candidate .preCandidate _ _ (Nat.le_succ _) (.inl rfl)
    · cases h
      exact .preVote _ rfl
  · cases h
    exact .candidate r.role r.nextAttempt _ le_rfl (.inl rfl)

theorem follow_of_eq {term : ℕ} {c : Campaign} (hc : c = .idle ∨ c = r.campaign)
    (h : some ({ r.becomeFollower term with campaign := c }, []) = some o) :
    ReplicaStep cfg n ev H r o := by
  cases h
  obtain ⟨f, hf⟩ := r.becomeFollower_fence term
  exact hf ▸ .follow f c hc

theorem step_of_receivePreVoteReply {i : ℕ}
    (hm : H[i]? = some (peer, .send (.preVoteReply req reply)))
    (h : r.receivePreVoteReply cfg n peer req reply = some o) :
    ReplicaStep cfg n (.deliver n i lockoutExpired) H r o := by
  unfold receivePreVoteReply at h
  split at h
  · next cur granted hc =>
    obtain ⟨⟨rfl, hpeer⟩, h⟩ := ite_none_right_eq_some.mp h
    split at h
    · exact follow_of_eq (.inl rfl) h
    · next hterm =>
      obtain ⟨hgranted, h⟩ := ite_none_right_eq_some.mp h
      split at h
      · next hquorum =>
        cases h
        have hwon : r.preVoteWon cfg n peer cur reply = true := by
          simp only [preVoteWon, hc, hgranted, Bool.and_true, Bool.and_eq_true, decide_eq_true_eq]
          exact ⟨⟨trivial, hpeer, hterm⟩, hquorum⟩
        exact .candidate r.role r.nextAttempt _ le_rfl
          (.inr ⟨i, lockoutExpired, peer, cur, reply, granted, rfl, hm, hc, hwon, rfl⟩)
      · cases h
        exact .preVoteGrant _ _ _ hc
  · simp at h

theorem step_of_receiveVoteReply (hm : (peer, .send (.requestVoteReply req reply)) ∈ H)
    (h : r.receiveVoteReply cfg n peer req reply = some o) : ReplicaStep cfg n ev H r o := by
  unfold receiveVoteReply at h
  split at h
  · next cur granted ceiling hc =>
    obtain ⟨⟨rfl, hpeer⟩, h⟩ := ite_none_right_eq_some.mp h
    split at h
    · exact follow_of_eq (.inl rfl) h
    · obtain ⟨hg, h⟩ := ite_none_right_eq_some.mp h
      dsimp only at h
      split at h
      · next hq =>
        cases h
        exact .finalize _ _ _ _ _ hc hpeer hm hg hq
      · cases h
        exact .voteGrant _ _ _ _ _ hc hpeer hm hg
  · simp at h

theorem step_of_startTenure (h : r.startTenure = some o) : ReplicaStep cfg n ev H r o := by
  obtain ⟨hcond, h⟩ := ite_none_right_eq_some.mp h
  dsimp only at h
  split at h
  · next hh =>
    cases h
    exact .tenureBulk _ _ hcond.2 hh
  · cases h
    exact .tenure hcond.2

theorem step_of_handleRequestVote (hpeer : n ∈ cfg.votingPeers req.candidateId) :
    ReplicaStep cfg n ev H r (r.handleRequestVote req lockoutExpired) := by
  unfold handleRequestVote
  split
  · next hok =>
    simp only [Bool.and_eq_true] at hok
    exact .grantVote _ hok.1.1 hpeer
  · exact .refuseVote _ _ rfl

theorem step_of_handleHeartbeat {req : HeartbeatRequest} (hm : (peer, .send (.heartbeat req)) ∈ H) :
    ReplicaStep cfg n ev H r (r.handleHeartbeat req) := by
  unfold handleHeartbeat
  split
  · exact .refuseHeartbeat _ _
  · next hlt =>
    refine .takeHeartbeat req ⟨_, _, _, _, ?_⟩ peer hm
    rcases (Nat.le_of_not_lt hlt).eq_or_lt with he | hlt
    · exact .inl ⟨he.symm, if_neg he.not_lt⟩
    · exact .inr hlt

/-! ### Proposals -/

theorem step_of_propose {tag : Option DedupTag} {payload : Bytes}
    (h : r.propose cfg tag payload = some o) :
    ReplicaStep cfg n (.act n (.propose tag payload)) H r o := by
  obtain ⟨hcond, h⟩ := ite_none_right_eq_some.mp h
  have hpay : ∀ t ∈ tag.filter fun t => t.clientId ≠ 0, payload = cfg.submitted t := by
    intro t ht
    exact hcond.2 t (filter_eq_some_iff.mp ht).1
  split at h
  · next t slot hhit =>
    cases h
    obtain ⟨t', htag, hhit⟩ := bind_eq_some_iff.mp hhit
    obtain ⟨slot', hslot, heq⟩ := map_eq_some_iff.mp hhit
    obtain ⟨rfl, rfl⟩ := Prod.mk.inj heq
    exact .answer _ _ payload (by rw [htag]) hslot
  · dsimp only at h
    split at h
    · cases h
      exact .enqueue _ _ hpay
    · cases h
      exact .propose _ _ hpay

theorem step_of_acquire (h : r.acquire k = some o) : ReplicaStep cfg n ev H r o := by
  unfold acquire at h
  split at h
  · next hk =>
    cases h
    exact .assign _ _ _ _ _ hk
  · next hk =>
    dsimp only at h
    split at h
    · cases h
      exact .drop _
    · cases h
      exact .planBulk _ _ _ _ hk (le_max_right ..)
  · simp at h

theorem step_of_start (h : r.start cfg n k = some o) :
    ReplicaStep cfg n (.act n (.start k)) H r o := by
  unfold start at h
  split at h
  · next hk =>
    dsimp only at h
    split at h
    · cases h
      exact .beginPrepare _ _ _ _ hk rfl
    · next hclassic =>
      cases h
      exact .acceptZero _ _ _ _ _ _ rfl (by simpa using hclassic) hk
  · next hk =>
    split at h
    · cases h
      exact .beginPrepare _ _ _ _ hk rfl
    · cases h
      exact .finishBulk _ _
  · simp at h

theorem step_of_prepareDone (h : r.prepareDone cfg n k = some o) :
    ReplicaStep cfg n (.act n (.prepareDone k)) H r o := by
  unfold prepareDone at h
  split at h
  · next job entry replies hk =>
    obtain ⟨-, h⟩ := ite_none_right_eq_some.mp h
    split at h
    · next hp =>
      cases h
      exact .acceptPrepared _ _ _ _ _ _ rfl hk hp
    · cases h
      exact endSlot_self hk (r.retrySlot_end ..)
    · cases h
      obtain ⟨f, hf⟩ := r.staleTerm_end ..
      exact .endSlot _ _ f _ hk hf
    · cases h
      exact endSlot_self hk (r.abandonSlot_end ..)
  · simp at h

theorem acceptAttempt_eq_chosen_iff {f : ReplyFold} : acceptAttempt cfg f = .chosen ↔
      cfg.quorum ≤ f.accepted := by
  unfold acceptAttempt
  split
  · simpa
  · simp only [*, iff_false]
    split
    · simp
    · split <;> simp

theorem step_of_acceptDone (h : r.acceptDone cfg n k ok = some o) :
    ReplicaStep cfg n (.act n (.acceptDone k ok)) H r o := by
  unfold acceptDone at h
  split at h
  · next job entry foreign replies hk =>
    obtain ⟨-, h⟩ := ite_none_right_eq_some.mp h
    split at h
    · next hc =>
      cases h
      obtain ⟨pending, hpending, hp⟩ :=
        r.spawnAcceptPersist_frame cfg (ReplyFold.ofAccept cfg n replies) entry
      obtain ⟨learner, applying, hl, hengine, hdedup, happlying, hchosen⟩ :=
        learnChosen_frame cfg { r with pending := pending } job entry ok
      rw [hp, hl]
      exact .chosen k job entry foreign replies pending learner applying _ hk
        (acceptAttempt_eq_chosen_iff.mp hc) hpending hengine hdedup happlying
          (afterChosen_end ..) ok rfl hchosen
    · cases h
      exact endSlot_self hk (r.retrySlot_end ..)
    · cases h
      obtain ⟨f, hf⟩ := r.staleTerm_end ..
      exact .endSlot _ _ f _ hk hf
    · cases h
      exact endSlot_self hk (r.abandonSlot_end ..)
  · simp at h

theorem step_of_receivePrepareReply {req : PrepareRequest} {reply : PxPrepareReply}
    (hm : (peer, .send (.prepareReply req reply)) ∈ H)
    (h : r.receivePrepareReply cfg n peer req reply = some o) : ReplicaStep cfg n ev H r o := by
  unfold receivePrepareReply at h
  split at h
  · next hk =>
    obtain ⟨hcond, ⟨⟩⟩ := ite_none_right_eq_some.mp h
    exact .prepareReply _ _ _ _ _ _ hk hcond.2.1 (hcond.1 ▸ hm)
  · exact follow_of_eq (.inr rfl) (ite_none_right_eq_some.mp h).2
  · simp at h

theorem step_of_receiveAcceptReply {req : AcceptRequest} {reply : PxAcceptReply}
    (hm : (peer, .send (.acceptReply req reply)) ∈ H)
    (h : r.receiveAcceptReply cfg n peer req reply = some o) : ReplicaStep cfg n ev H r o := by
  unfold receiveAcceptReply at h
  split at h
  · next hk =>
    obtain ⟨hcond, ⟨⟩⟩ := ite_none_right_eq_some.mp h
    exact .acceptReply _ _ _ _ _ _ _ hk hcond.2.1 (hcond.1 ▸ hm)
  · exact follow_of_eq (.inr rfl) (ite_none_right_eq_some.mp h).2
  · simp at h

/-! ### Acceptors -/

theorem step_of_handlePrepare {req : PrepareRequest} :
    ReplicaStep cfg n ev H r (r.handlePrepare req) := by
  unfold handlePrepare
  split
  · exact .prepareStale _
  · obtain ⟨f, hf⟩ := r.fenceTerm_fence req.term
    have hacceptor : f.replica.acceptor = r.acceptor := rfl
    dsimp only
    rw [hf, hacceptor, PxAcceptor.prepare_snd]
    rcases (r.acceptor.nodes req.slot).prepare_cases req.slot req.ballot with
      ⟨p, -, -, hc⟩ | ⟨hp, hc⟩
    · rw [hc]
      exact .refusePrepare _ f _ hc
    · rw [hc]
      exact .promise _ f _ hp hc

theorem step_of_handleAccept {req : AcceptRequest} {i : ℕ}
    (hi : H[i]? = some (peer, .send (.accept req))) :
    ReplicaStep cfg n (.deliver n i lockoutExpired) H r (r.handleAccept cfg n req) := by
  unfold handleAccept
  split
  · exact .acceptStale _
  · obtain ⟨f, hf⟩ := r.fenceTerm_fence req.entry.term
    have hacceptor : f.replica.acceptor = r.acceptor := rfl
    dsimp only
    rw [hf, hacceptor, PxAcceptor.accept_snd]
    rcases (r.acceptor.nodes req.entry.slot).accept_cases req.entry with
      ⟨p, -, -, hc⟩ | ⟨hp, hc⟩
    · rw [hc]
      exact .refuseAccept _ f _ hc
    · rw [hc]
      dsimp only
      split
      · exact .voteEarly _ _ f (mem_of_getElem? hi) hp hc _ _ rfl hi
      · exact .vote _ _ f (mem_of_getElem? hi) hp hc _ _ rfl hi

theorem step_of_receiveFetchGapReply {follower i : ℕ} {entry : PxLogEntry}
    (hi : H[i]? = some (peer, .send (.fetchGapReply follower entry))) :
    ReplicaStep cfg n (.deliver n i lockoutExpired) H r (r.receiveFetchGapReply entry) := by
  unfold receiveFetchGapReply
  dsimp only
  rw [PxAcceptor.accept_snd]
  rcases (r.acceptor.nodes entry.slot).accept_cases entry with ⟨p, -, -, hc⟩ | ⟨hp, hc⟩
  · rw [hc]
    exact .missGap _ _ hc _ _ _ _ rfl hi
  · rw [hc]
    exact .fillGap _ _ _ (mem_of_getElem? hi) hp hc _ _ rfl hi

theorem continued (cfg : GroupConfig) (n : ℕ) (r : Replica) (c : Continuation) :
    Continued cfg n r c (r.continueWith cfg n c) := by
  cases c with
  | prepareReply req accepted => exact .promised req accepted
  | acceptReply req =>
    simp only [continueWith]
    split
    · exact .accepted req r.learner (.inl rfl)
    · exact .accepted req _ (.inr rfl)
  | voteReply req term => exact .granted req term
  | candidacy =>
    simp only [continueWith, runCandidateElection]
    split
    · next h => exact .elected h
    · next h => exact .campaign (by simpa using h)
  | done => exact .done

/-! ### Learning -/

theorem step_of_applyPassStep (h : r.applyPassStep ok = some o) :
    ReplicaStep cfg n (.act n (.applyPassStep ok)) H r o := by
  unfold applyPassStep at h
  split at h
  · next next last hpass =>
    split at h
    · next hle =>
      cases h
      unfold applySlot
      split
      · next ht =>
        split
        · next he => exact .applySlot _ _ _ _ _ rfl hpass hle he ht (by simp)
        · exact .applyGap _ _ (by simp)
      · exact .setPass _ (by simp)
    · cases h
      exact .setPass _ nofun
  · simp at h

theorem handleChosenNotice_frame (r : Replica) (slot term : ℕ) (ballot : PxBallot) :
    ∃ l gaps, r.handleChosenNotice slot term ballot = { r with learner := l, gapSlots := gaps } ∧
      SameValues r.learner l ∧ ∀ slot', l.chosen.Mem slot' → r.learner.chosen.Mem slot' ∨
        slot' = slot ∧ (r.acceptor.acceptedAt slot').map PxLogEntry.ballot = some ballot := by
  unfold handleChosenNotice
  split
  · next heq =>
    refine ⟨_, _, rfl, ⟨by simp, by simp, by simp⟩, fun slot' h => ?_⟩
    refine (Lib.Frontier.mem_advance.1 h).imp_right ?_
    rintro rfl
    exact ⟨rfl, heq⟩
  · exact ⟨_, _, rfl, ⟨by simp, by simp, by simp⟩, fun slot' h => .inl (by simpa using h)⟩

theorem handleBatchChosen_frame (r : Replica) (startSlot endSlot term : ℕ) (ballot : PxBallot) :
    ∃ l gaps, r.handleBatchChosen startSlot endSlot term ballot =
    { r with learner := l, gapSlots := gaps } ∧
      SameValues r.learner l ∧ ∀ slot, l.chosen.Mem slot → r.learner.chosen.Mem slot ∨
        (startSlot ≤ slot ∧ slot ≤ endSlot) ∧ (r.acceptor.acceptedAt slot).map PxLogEntry.ballot =
          some ballot := by
  have hslots : ∀ slot ∈ range' startSlot (endSlot + 1 - startSlot), startSlot ≤ slot ∧
    slot ≤ endSlot := by
    intro slot hslot
    rw [mem_range'_1] at hslot
    omega
  unfold handleBatchChosen
  generalize range' startSlot (endSlot + 1 - startSlot) = slots at hslots ⊢
  induction slots generalizing r with
  | nil => exact ⟨r.learner, r.gapSlots, rfl, ⟨rfl, rfl, rfl⟩, fun _ h => .inl h⟩
  | cons slot _ ih =>
    obtain ⟨l, gaps, he, hl, hchosen⟩ := r.handleChosenNotice_frame slot term ballot
    obtain ⟨l', gaps', he', hl', hchosen'⟩ := ih (r.handleChosenNotice slot term ballot)
      fun slot' h => hslots slot' (mem_cons_of_mem _ h)
    rw [he] at hl' hchosen'
    refine ⟨l', gaps', by rw [foldl_cons, he', he], hl.trans hl', fun slot' h => ?_⟩
    rcases hchosen' slot' h with h | h
    · refine (hchosen slot' h).imp_right ?_
      rintro ⟨rfl, hballot⟩
      exact ⟨hslots slot' mem_cons_self, hballot⟩
    · exact .inr h

/-! ### Every step -/

theorem step_of_act {a : Act} (ha : ∀ records resumeFrom ok, a ≠ .restart records resumeFrom ok)
    (h : r.act cfg n a = some o) : ReplicaStep cfg n (.act n a) H r o := by
  cases a with
  | electionDeadline => exact step_of_runElectionAttempt h
  | preVoteLost =>
    simp only [act, preVoteLost] at h
    split at h
    · exact follow_of_eq (.inl rfl) h
    · simp at h
  | candidateLost =>
    simp only [act, candidateLost] at h
    split at h
    · cases h
      exact .endCampaign
    · simp at h
  | startTenure => exact step_of_startTenure h
  | heartbeatRound =>
    simp only [act, heartbeatRound] at h
    split at h
    · obtain ⟨hrole, ⟨⟩⟩ := ite_none_right_eq_some.mp h
      exact .heartbeat _ rfl hrole rfl
    · simp at h
  | readHeartbeat =>
    obtain ⟨hrole, ⟨⟩⟩ := ite_none_right_eq_some.mp h
    exact .heartbeat _ rfl hrole rfl
  | stepDown =>
    simp only [act, stepDown] at h
    split at h
    · exact follow_of_eq (.inl rfl) h
    · simp at h
  | adminStepDown => exact follow_of_eq (.inr rfl) (ite_none_right_eq_some.mp h).2
  | leaveLeaderState =>
    simp only [act, leaveLeaderState] at h
    split at h
    · split at h
      · simp at h
      · cases h
        exact .endCampaign
    · simp at h
  | propose => exact step_of_propose h
  | flushBatch =>
    simp only [act, flushBatch] at h
    split at h
    · simp at h
    · split at h
      · cases h
        exact .flush
      · cases h
        exact .flushClosed
  | acquire => exact step_of_acquire h
  | start => exact step_of_start h
  | cancelBulk =>
    simp only [act, cancelBulk] at h
    split at h
    · cases h
      exact .drop _
    · simp at h
  | resume =>
    simp only [act, resume] at h
    split at h
    · next hk =>
      cases h
      exact .beginPrepare _ _ _ _ hk rfl
    · simp at h
  | repairOnce =>
    simp only [act, repairOnce] at h
    split at h
    · cases h
      exact .repair _
    · simp at h
  | prepareDone => exact step_of_prepareDone h
  | acceptDone => exact step_of_acceptDone h
  | appended i =>
    obtain ⟨a, hi, rfl⟩ := map_eq_some_iff.mp h
    exact .appended i a _ _ rfl hi rfl (continued ..)
  | sendBatchChosen =>
    obtain ⟨⟨-, hall⟩, ⟨⟩⟩ := ite_none_right_eq_some.mp h
    refine .sendBatch _ _ _ _ fun slot hstart hend => ?_
    have hslot := all_eq_true.mp hall slot (mem_range'_1.mpr (by omega))
    rw [Bool.and_eq_true, decide_eq_true_eq] at hslot
    exact hslot
  | fetchGap =>
    simp only [act, fetchGap] at h
    split at h
    · obtain ⟨-, ⟨⟩⟩ := ite_none_right_eq_some.mp h
      exact .fetchGap _ _
    · simp at h
  | fetchGapFailed =>
    cases h
    exact .fetchGapFailed _
  | applyDeferred =>
    obtain ⟨entry, hi, rfl⟩ := map_eq_some_iff.mp h
    exact .applyDeferred _ _ _ hi
  | applyPassStart =>
    simp only [act, applyPassStart] at h
    split at h
    · cases h
      exact .setPass _ (by simp)
    · simp at h
  | applyPassStep => exact step_of_applyPassStep h
  | restart records resumeFrom ok => exact absurd rfl (ha records resumeFrom ok)

theorem step_of_receive {i : ℕ} {m : Msg} (hi : H[i]? = some (peer, .send m))
    (h : r.receive cfg n peer lockoutExpired m = some o) :
    ReplicaStep cfg n (.deliver n i lockoutExpired) H r o := by
  have hm := mem_of_getElem? hi
  cases m with
  | prepare => cases h; exact step_of_handlePrepare
  | prepareReply => exact step_of_receivePrepareReply hm (ite_none_right_eq_some.mp h).2
  | accept => cases h; exact step_of_handleAccept hi
  | acceptReply => exact step_of_receiveAcceptReply hm (ite_none_right_eq_some.mp h).2
  | preVote =>
    obtain ⟨-, ⟨⟩⟩ := ite_none_right_eq_some.mp h
    exact .preVoteReply _ _
  | preVoteReply => exact step_of_receivePreVoteReply hi h
  | requestVote =>
    obtain ⟨hpeer, ⟨⟩⟩ := ite_none_right_eq_some.mp h
    exact step_of_handleRequestVote hpeer
  | requestVoteReply => exact step_of_receiveVoteReply hm h
  | heartbeat =>
    obtain ⟨-, ⟨⟩⟩ := ite_none_right_eq_some.mp h
    exact step_of_handleHeartbeat hm
  | heartbeatReply =>
    simp only [receive, receiveHeartbeatReply] at h
    split at h
    · exact follow_of_eq (.inl rfl) (ite_none_right_eq_some.mp h).2
    · simp at h
  | chosenNotice slot term ballot =>
    obtain ⟨-, ⟨⟩⟩ := ite_none_right_eq_some.mp h
    obtain ⟨l, gaps, he, hl, hchosen⟩ := r.handleChosenNotice_frame slot term ballot
    refine he ▸ .noteChosen l gaps hl fun slot' h => (hchosen slot' h).imp_right ?_
    rintro ⟨rfl, hballot⟩
    exact ⟨ballot, hballot, .inl ⟨peer, term, hm⟩⟩
  | batchChosen startSlot endSlot term ballot =>
    obtain ⟨-, ⟨⟩⟩ := ite_none_right_eq_some.mp h
    obtain ⟨l, gaps, he, hl, hchosen⟩ := r.handleBatchChosen_frame startSlot endSlot term ballot
    refine he ▸ .noteChosen l gaps hl fun slot h => (hchosen slot h).imp_right ?_
    rintro ⟨⟨hstart, hend⟩, hballot⟩
    exact ⟨ballot, hballot, .inr ⟨peer, startSlot, endSlot, term, hstart, hend, hm⟩⟩
  | fetchGap =>
    obtain ⟨-, h⟩ := ite_none_right_eq_some.mp h
    obtain ⟨-, h⟩ := ite_none_right_eq_some.mp h
    obtain ⟨entry, he, rfl⟩ := map_eq_some_iff.mp h
    exact .sendGap _ _ _ he _ _ _ rfl hi
  | fetchGapReply =>
    obtain ⟨-, ⟨⟩⟩ := ite_none_right_eq_some.mp h
    exact step_of_receiveFetchGapReply hi

end Replica

variable {cfg : GroupConfig} {e : GroupEvent} {s s' : GroupState}

theorem replicaStep_of_outcome {o : Outcome} (he : e.isRestart = false)
    (ho : s.outcome cfg e = some o) :
    ReplicaStep cfg e.replica e s.history (s.replicas e.replica) o := by
  cases e with
  | deliver =>
    simp only [GroupState.outcome] at ho
    split at ho
    · next peer m hi => exact Replica.step_of_receive hi ho
    · simp at ho
  | act =>
    refine Replica.step_of_act (fun records resumeFrom ok hr => ?_) ho
    simp [hr, GroupEvent.isRestart] at he

/-- **Inversion**: a step of the group that is not a restart is a step of one replica. -/
theorem replicaStep_of_groupStep (he : e.isRestart = false) (h : groupStep cfg s e = some s') :
    ∃ o, ReplicaStep cfg e.replica e s.history (s.replicas e.replica) o ∧ s' =
      s.after e.replica o := by
  obtain ⟨o, ho, rfl⟩ := map_eq_some_iff.mp h
  exact ⟨o, replicaStep_of_outcome he ho, rfl⟩

theorem restart_of_groupStep (he : e.isRestart = true) (h : groupStep cfg s e = some s') :
    ∃ n records resumeFrom ok, e = .act n (.restart records resumeFrom ok) ∧
      records.Perm (s.replicas n).wal ∧
      (∀ slot, 1 ≤ slot → slot ≤ resumeFrom → slot ∈ (s.replicas n).learner.engine.map Prod.fst) ∧
      s' = s.after n ((s.replicas n).restoreFromReplay records resumeFrom ok, []) := by
  obtain ⟨o, ho, rfl⟩ := map_eq_some_iff.mp h
  cases e with
  | deliver => simp [GroupEvent.isRestart] at he
  | act n a =>
    cases a with
    | restart records resumeFrom ok =>
      simp only [GroupState.outcome, Replica.act, Replica.restart] at ho
      split at ho
      · next hr =>
        cases ho
        refine ⟨n, records, resumeFrom, ok, rfl, isPerm_iff.mp hr.1, fun slot h1 h2 => ?_, rfl⟩
        have hall := all_eq_true.mp hr.2 slot (by simp [mem_range'_1]; omega)
        simpa using hall
      · simp at ho
    | _ => simp [GroupEvent.isRestart] at he

end CrowDB
