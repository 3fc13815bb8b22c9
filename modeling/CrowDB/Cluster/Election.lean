/-
  Leader election (`cluster/local_replica_election.rs`,
  `cluster/group_election_candidate.rs`, `cluster/group_election_leader.rs`).

  The election driver of a replica runs an optional `PreVote` round, writes term and
  vote in `become_candidate`, waits until the vote is in the WAL, reads the term
  again and runs the `RequestVote` round.  The handlers for votes and heartbeats run
  in between, at any await.  Timers are not modelled: a deadline may fire, and the
  vote lockout may have expired, at any moment.
-/
import CrowDB.Cluster.Replica

namespace CrowDB

namespace Replica

/-! ## Handlers -/

variable (r : Replica)

variable (req : VoteRequest)

/-- The candidate's accepted log tip `(term, slot)` is at least our own. -/
def candidateLogUpToDate : Bool :=
  let tip := r.acceptedLogTip
  decide (tip.2 < req.acceptedLogTipTerm ∨
    (tip.2 = req.acceptedLogTipTerm ∧ tip.1 ≤ req.acceptedLogTipSlot))

/-- `handle_pre_vote`. -/
def handlePreVote (lockoutExpired : Bool) : Outcome :=
  let granted := decide (r.currentTerm < req.term) && r.candidateLogUpToDate req && lockoutExpired
  (r, [.send (.preVoteReply req (r.voteReply r.currentTerm granted))])

/-- The vote of the term is free, or the candidate's. -/
def voteTermOk : Bool := decide (r.currentTerm < req.term) ||
    (decide (req.term = r.currentTerm) && (r.votedFor == none || r.votedFor == some req.candidateId))

/-- The vote is granted: term and vote are written, and the reply waits for the WAL. -/
def grantVote : Outcome := (addPending { r with
      currentTerm := req.term
      votedFor := some req.candidateId
      role := .follower
      leaderId := if r.currentTerm < req.term then none else r.leaderId }
    (.voteGranted req.term req.candidateId) (.voteReply req req.term),
    [.supported req.term req.candidateId])

/-- `handle_request_vote`. -/
def handleRequestVote (lockoutExpired : Bool) : Outcome :=
  if r.voteTermOk req && r.candidateLogUpToDate req && lockoutExpired then r.grantVote req
  else (r, [.send (.requestVoteReply req (r.voteReply r.currentTerm false))])

/-- `handle_heartbeat`. -/
def handleHeartbeat (req : HeartbeatRequest) : Outcome :=
  if req.term < r.currentTerm then (r, [.send (.heartbeatReply req ⟨r.currentTerm, false⟩)])
  else
    (advanceKnownCommitSlot { r with
        currentTerm := req.term
        votedFor := if r.currentTerm < req.term then none else r.votedFor
        role := .follower
        leaderId := some req.leaderId } req.committedSafeSlot,
      [.send (.heartbeatReply req ⟨req.term, true⟩)])

/-! ## Candidates -/

section

variable (cfg : GroupConfig) (n : ℕ) (r : Replica)

/-- The candidate's own vote, which counts only if it is a voting member. -/
def selfVote : ℕ := if n ∈ cfg.voters then 1 else 0

/-- The only voter. -/
def alone : Bool := decide (cfg.votingPeers n = ∅) && decide (n ∈ cfg.voters)

/-- The request of `PreVote` and `RequestVote`. -/
def voteRequest (term : ℕ) : VoteRequest :=
  ⟨n, r.nextAttempt, term, r.acceptedLogTip.1, r.acceptedLogTip.2⟩

/-- `become_candidate`: the term is written as given.  The vote is then persisted
    before the `RequestVote` round. -/
def becomeCandidate (newTerm : ℕ) : Outcome := (addPending { r with
      currentTerm := newTerm
      votedFor := some n
      role := .candidate
      campaign := .persisting }
    (.voteGranted newTerm n) .candidacy,
    [.supported newTerm n])

/-- The election deadline fires on a replica that is not the leader. -/
def runElectionAttempt : Option Outcome :=
  if r.campaign = .idle ∧ r.role ≠ .leader then
    if cfg.prevoteEnabled then
      let req := r.voteRequest n (r.currentTerm + 1)
      let r := { r with role := .preCandidate, nextAttempt := r.nextAttempt + 1 }
      if alone cfg n then some (r.becomeCandidate n req.term)
      else some ({ r with campaign := .preVoting req [] }, [.send (.preVote req)])
    else some (r.becomeCandidate n (r.currentTerm + 1))
  else none

/-- A reply to `PreVote`. -/
def receivePreVoteReply (peer : ℕ) (req : VoteRequest) (reply : VoteReply) :
    Option Outcome :=
  match r.campaign with
  | .preVoting cur granted =>
    if cur = req ∧ peer ∉ granted then
      if req.term < reply.term then
        some ({ r.becomeFollower reply.term with campaign := .idle }, [])
      else if reply.granted then
        -- the round is won without looking at the term again
        if cfg.quorum ≤ selfVote cfg n + (peer :: granted).length then
          some (r.becomeCandidate n req.term)
        else some ({ r with campaign := .preVoting req (peer :: granted) }, [])
      else none
    else none
  | _ => none

/-- The `PreVote` round fails. -/
def preVoteLost : Option Outcome :=
  match r.campaign with
  | .preVoting _ _ => some ({ r.becomeFollower r.currentTerm with campaign := .idle }, [])
  | _ => none

/-- `finalize_leader`: `next_slot` moves past the ceiling before the role flips. -/
def finalizeLeader (term peerCeiling : ℕ) : Outcome :=
  let ceiling := max (max r.acceptor.highestSeenSlot (r.nextSlot - 1)) peerCeiling
  ({ r with
      nextSlot := max r.nextSlot (ceiling + 1)
      pendingHandoff := some (term, peerCeiling)
      role := .leader
      leaderId := some n
      proposingTerm := term
      campaign := .idle },
    [.finalized term])

/-- `run_candidate_election`: the term is read again, and a voting replica counts itself. -/
def runCandidateElection : Outcome :=
  let req := r.voteRequest n r.currentTerm
  let self := if n ∈ cfg.voters then [Effect.supported req.term n] else []
  let r := { r with nextAttempt := r.nextAttempt + 1 }
  if alone cfg n then
    let o := r.finalizeLeader n req.term r.acceptor.highestSeenSlot
    (o.1, self ++ o.2)
  else
    ({ r with campaign := .requesting req [] r.acceptor.highestSeenSlot },
      self ++ [.send (.requestVote req)])

/-- A reply to `RequestVote`. -/
def receiveVoteReply (peer : ℕ) (req : VoteRequest) (reply : VoteReply) :
    Option Outcome :=
  match r.campaign with
  | .requesting cur granted peerCeiling =>
    if cur = req ∧ peer ∉ granted then
      if req.term < reply.term then
        some ({ r.becomeFollower reply.term with campaign := .idle }, [])
      else if reply.granted then
        let peerCeiling := max peerCeiling reply.highestSeenSlot
        if cfg.quorum ≤ selfVote cfg n + (peer :: granted).length then
          some (r.finalizeLeader n req.term peerCeiling)
        else some ({ r with campaign := .requesting req (peer :: granted) peerCeiling }, [])
      else none
    else none
  | _ => none

/-- The `RequestVote` round fails. -/
def candidateLost : Option Outcome :=
  match r.campaign with
  | .requesting _ _ _ => some ({ r with campaign := .idle }, [])
  | _ => none

/-! ## Leaders -/

/-- Entry of `run_leader_state`: the proposing term is read now, and bulk Phase 1 spawned for a
    handoff. -/
def startTenure : Option Outcome :=
  if r.campaign = .idle ∧ r.role = .leader then
    let r := { r with campaign := .leading r.currentTerm, proposingTerm := r.currentTerm }
    match r.pendingHandoff with
    | some (term, peerCeiling) =>
      some (newAttempt { r with pendingHandoff := none } ⟨.handoff term peerCeiling, .waiting⟩, [])
    | none => some (r, [])
  else none

/-- A heartbeat round of the leader loop, in the term of the tenure. -/
def heartbeatRound : Option Outcome :=
  match r.campaign with
  | .leading leaderTerm =>
    if r.role = .leader then
      some (r, [.send (.heartbeat ⟨leaderTerm, n, r.learner.contiguousChosen⟩)])
    else none
  | _ => none

/-- The heartbeat round of a linearizable read, in the current term. -/
def readHeartbeat : Option Outcome :=
  if r.role = .leader then
    some (r, [.send (.heartbeat ⟨r.currentTerm, n, r.learner.contiguousChosen⟩)])
  else none

/-- A reply to a heartbeat. -/
def receiveHeartbeatReply (req : HeartbeatRequest) (reply : HeartbeatReply) :
    Option Outcome :=
  match r.campaign with
  | .leading leaderTerm =>
    if req.leaderId = n ∧ req.term = leaderTerm ∧ leaderTerm < reply.term then
      some ({ r.becomeFollower reply.term with campaign := .idle }, [])
    else none
  | _ => none

/-- The leader steps down. -/
def stepDown : Option Outcome :=
  match r.campaign with
  | .leading leaderTerm => some ({ r.becomeFollower leaderTerm with campaign := .idle }, [])
  | _ => none

/-- The `StepDown` request of an operator; the leader loop ends on its next wakeup. -/
def handleStepDown (term targetLeaderId : ℕ) : Option Outcome :=
  if r.role = .leader ∧ n = targetLeaderId ∧ term = r.currentTerm then
    some (r.becomeFollower r.currentTerm, [])
  else none

/-- The leader loop ends because the role changed. -/
def leaveLeaderState : Option Outcome :=
  match r.campaign with
  | .leading _ => if r.role = .leader then none else some ({ r with campaign := .idle }, [])
  | _ => none

end

end Replica

end CrowDB
