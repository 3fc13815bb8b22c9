/-
  A consensus group as a transition system: replicas, and the history of all effects.

  The history doubles as the network: a message that was sent may be delivered at any later time, to
  any replica it is meant for, any number of times or never.  A payload is chosen at a slot when a
  quorum of the voting replicas accepted it at one ballot.

  A `Prepare` or `Accept` handler is one step here, up to the append of its record.  The source's
  is not: two handlers of one slot may interleave between the promise and the entry, and
  `Paxos/AcceptorCas` says what follows.
-/
import Mathlib.Order.Interval.Finset.Nat
import CrowDB.Cluster.Proposer
import CrowDB.Cluster.Replication

namespace CrowDB

open Lib

/-! ## What a replica does -/

/-- A step that a replica takes on its own. -/
inductive Act where
  | electionDeadline
  | preVoteLost
  | candidateLost
  | startTenure
  | heartbeatRound
  | readHeartbeat
  | stepDown
  | adminStepDown (term targetLeaderId : ℕ)
  | leaveLeaderState
  | propose (tag : Option DedupTag) (payload : Bytes)
  | flushBatch
  | acquire (k : ℕ)
  | start (k : ℕ)
  | cancelBulk (k : ℕ)
  | resume (k : ℕ)
  | repairOnce
  | prepareDone (k : ℕ)
  | acceptDone (k : ℕ) (ok : Bool)
  | appended (i : ℕ)
  | sendBatchChosen (startSlot endSlot term : ℕ) (ballot : PxBallot)
  | fetchGap (slot : ℕ)
  | fetchGapFailed (slot : ℕ)
  | applyDeferred (i : ℕ) (ok : Bool)
  | applyPassStart
  | applyPassStep (ok : Bool)
  | restart (records : List WALRecord) (resumeFrom : ℕ) (ok : ℕ → Bool)

namespace Replica

variable (cfg : GroupConfig) (n : ℕ)

/-- A step that the replica takes by itself. -/
def act (r : Replica) : Act → Option Outcome
  | .electionDeadline => r.runElectionAttempt cfg n
  | .preVoteLost => r.preVoteLost
  | .candidateLost => r.candidateLost
  | .startTenure => r.startTenure
  | .heartbeatRound => r.heartbeatRound n
  | .readHeartbeat => r.readHeartbeat n
  | .stepDown => r.stepDown
  | .adminStepDown term targetLeaderId => r.handleStepDown n term targetLeaderId
  | .leaveLeaderState => r.leaveLeaderState
  | .propose tag payload => r.propose cfg tag payload
  | .flushBatch => r.flushBatch
  | .acquire k => r.acquire k
  | .start k => r.start cfg n k
  | .cancelBulk k => r.cancelBulk k
  | .resume k => r.resume n k
  | .repairOnce => r.repairOnce n
  | .prepareDone k => r.prepareDone cfg n k
  | .acceptDone k ok => r.acceptDone cfg n k ok
  | .appended i => r.appended cfg n i
  | .sendBatchChosen startSlot endSlot term ballot => r.sendBatchChosen startSlot endSlot term ballot
  | .fetchGap slot => r.fetchGap slot
  | .fetchGapFailed slot => r.fetchGapFailed slot
  | .applyDeferred i ok => r.applyDeferred i ok
  | .applyPassStart => r.applyPassStart
  | .applyPassStep ok => r.applyPassStep ok
  | .restart records resumeFrom ok => r.restart records resumeFrom ok

/-- Phase 1 and Phase 2 go to all replicas, the own one included; votes and heartbeats to the voting
    peers. -/
def receive (r : Replica) (peer : ℕ) (lockoutExpired : Bool) : Msg → Option Outcome
  | .prepare req => some (r.handlePrepare req)
  | .prepareReply req reply =>
    if req.proposer = n then r.receivePrepareReply cfg n peer req reply else none
  | .accept req => some (r.handleAccept cfg n req)
  | .acceptReply req reply =>
    if req.proposer = n then r.receiveAcceptReply cfg n peer req reply else none
  | .preVote req =>
    if n ∈ cfg.votingPeers req.candidateId then some (r.handlePreVote req lockoutExpired) else none
  | .preVoteReply req reply => r.receivePreVoteReply cfg n peer req reply
  | .requestVote req =>
    if n ∈ cfg.votingPeers req.candidateId then some (r.handleRequestVote req lockoutExpired)
    else none
  | .requestVoteReply req reply => r.receiveVoteReply cfg n peer req reply
  | .heartbeat req =>
    if n ∈ cfg.votingPeers req.leaderId then some (r.handleHeartbeat req) else none
  | .heartbeatReply req reply => r.receiveHeartbeatReply n req reply
  | .chosenNotice slot term ballot =>
    if n ≠ peer then some (r.handleChosenNotice slot term ballot, []) else none
  | .batchChosen startSlot endSlot term ballot =>
    if n ≠ peer then some (r.handleBatchChosen startSlot endSlot term ballot, []) else none
  | .fetchGap slot leader => if n = leader then r.handleFetchGap peer slot else none
  | .fetchGapReply follower entry =>
    if n = follower then some (r.receiveFetchGapReply entry) else none

end Replica

/-! ## The group -/

/-- All replicas, and the network. -/
structure GroupState where
  replicas : ℕ → Replica
  /-- every effect so far, with the replica it comes from -/
  history : List (ℕ × Effect)

namespace GroupState

/-- All replicas new. -/
def init : GroupState := ⟨fun _ => .new, []⟩

/-- Replica `n` has made a step. -/
def after (s : GroupState) (n : ℕ) (o : Outcome) : GroupState :=
  ⟨Function.update s.replicas n o.1, s.history ++ o.2.map (n, ·)⟩

end GroupState

/-- A message arrives, or a replica acts. -/
inductive GroupEvent where
  /-- the message at position `i` of the history reaches replica `n` -/
  | deliver (n i : ℕ) (lockoutExpired : Bool)
  | act (n : ℕ) (a : Act)

/-- What the replica `n` of the event does. -/
def GroupState.outcome (cfg : GroupConfig) (s : GroupState) : GroupEvent → Option Outcome
  | .deliver n i lockoutExpired =>
    match s.history[i]? with
    | some (peer, .send m) => (s.replicas n).receive cfg n peer lockoutExpired m
    | _ => none
  | .act n a => (s.replicas n).act cfg n a

/-- The replica that makes the step. -/
def GroupEvent.replica : GroupEvent → ℕ
  | .deliver n _ _ => n
  | .act n _ => n

/-- One step of the group. -/
def groupStep (cfg : GroupConfig) (s : GroupState) (e : GroupEvent) : Option GroupState :=
  (s.outcome cfg e).map (s.after e.replica)

/-- A restart. -/
def GroupEvent.isRestart : GroupEvent → Bool
  | .act _ (.restart _ _ _) => true
  | _ => false

/-! ## Chosen payloads -/

namespace GroupState

variable (s : GroupState)

/-- All entries accepted, with the acceptor. -/
def votes : List (ℕ × PxLogEntry) := s.history.filterMap fun p => match p.2 with
    | .voted entry => some (p.1, entry)
    | _ => none

/-- All `Accept` requests. -/
def accepts : List AcceptRequest := s.history.filterMap fun p => match p.2 with
    | .send (.accept req) => some req
    | _ => none

/-- `n` accepted `v` at ballot `b`. -/
def VotedAt (n slot : ℕ) (b : PxBallot) (v : Bytes) : Prop :=
  ∃ p ∈ s.votes, p.1 = n ∧ p.2.slot = slot ∧ p.2.ballot = b ∧ p.2.payload = v
deriving Decidable

/-- A voting quorum accepted the payload at the ballot. -/
def ChosenAt (cfg : GroupConfig) (s : GroupState) (slot : ℕ) (b : PxBallot) (v : Bytes) : Prop :=
  cfg.quorum ≤ (cfg.voters.filter fun n => s.VotedAt n slot b v).card
deriving Decidable

/-- `v` is chosen at the slot. -/
def Chosen (cfg : GroupConfig) (s : GroupState) (slot : ℕ) (v : Bytes) : Prop :=
  ∃ b, s.ChosenAt cfg slot b v

end GroupState

/-- Voters `1` to `size`. -/
def defaultGroup (size : ℕ) : GroupConfig where
  voters := Finset.Icc 1 size
  prevoteEnabled := true
  forceClassic := false
  walEarlyAck := true
  asyncEngineApply := true
  coalesce := false
  submitted := fun _ => []

/-- Replica `c` of three wins with the vote of `v`. The history has `i` effects before; the appends
    of the votes are at `pc` and `pv`. -/
def electionRun (c v i pc pv : ℕ) : List GroupEvent :=
  [.act c .electionDeadline, .deliver v i true, .deliver c (i + 1) true, .act c (.appended pc),
    .deliver v (i + 4) true, .act v (.appended pv), .deliver c (i + 6) true, .act c .startTenure]

/-- The first leader `c` writes `[65]` to slot `1`; it and its voter `v` accept. -/
def firstWriteRun (c v : ℕ) (tag : Option DedupTag) : List GroupEvent := electionRun c v 0 0 0 ++
  [.act c (.propose tag [65]), .act c (.acquire 3), .act c (.start 3), .deliver c 8 true,
    .deliver v 8 true]

/-- Leader `1` writes `[65]` to slot `1` at replica `2` only; leader `3` fills it with a `NoOp`,
    chosen by `3` and `1`. -/
def outvotedRun (tag : Option DedupTag) : List GroupEvent := electionRun 1 2 0 0 0 ++
  [.act 1 (.propose tag [65]), .act 1 (.propose none [66]), .act 1 (.acquire 3), .act 1 (.acquire 4),
    .act 1 (.start 3), .act 1 (.start 4), .deliver 2 8 true, .deliver 3 9 true,
    .act 2 (.appended 0)] ++
  electionRun 3 1 13 1 0 ++
  [.act 3 (.acquire 2), .act 3 (.start 2), .deliver 3 21 true, .deliver 1 21 true,
    .act 3 (.appended 1), .act 1 (.appended 0), .deliver 3 22 true, .deliver 3 23 true,
    .act 3 (.prepareDone 2), .deliver 3 24 true, .deliver 1 24 true]

end CrowDB
