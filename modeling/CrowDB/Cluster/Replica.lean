/-
  The state of one replica of a group and the messages between replicas
  (`cluster/group.rs`, `cluster/local_replica.rs`, `cluster/replica.rs`).

  Every handler and every stretch of a task between two awaits is one atomic step, a function from
  the replica to the new replica and a list of effects: the messages sent, and the facts that the
  safety properties speak about (an entry accepted, a candidate supported, an entry handed to the
  engine).

  The locked election state and its lock-free mirrors are one field each, and the voting set is fixed
  (`Cluster.Membership` has the changes).
-/
import CrowDB.Lib.Quorum
import CrowDB.Paxos.Acceptor
import CrowDB.Paxos.Learner
import CrowDB.Wal.Record

namespace CrowDB

open Lib

/-! ## Configuration -/

/-- What all replicas of a group share. -/
structure GroupConfig where
  /-- ids of the voting replicas; every other id is a non-voting replica -/
  voters : Finset ℕ
  prevoteEnabled : Bool
  /-- every proposal runs Phase 1 first -/
  forceClassic : Bool
  /-- the proposer's own accept is not persisted before the quorum counts -/
  walEarlyAck : Bool
  /-- the engine apply of a chosen entry is spawned -/
  asyncEngineApply : Bool
  /-- `coalesce_max_keys > 0` -/
  coalesce : Bool
  /-- what the client submits under a tag, first and on every retry -/
  submitted : DedupTag → Bytes

namespace GroupConfig

variable (cfg : GroupConfig)

/-- A majority of the voters. -/
def quorum : ℕ := majority cfg.voters.card

/-- `voting_remote_ids`: the voting replicas that `n` talks to. -/
def votingPeers (n : ℕ) : Finset ℕ := cfg.voters.erase n

/-- The early-ack path of the accept phase. -/
def earlyAck : Bool := cfg.walEarlyAck && decide (1 < cfg.quorum)

end GroupConfig

/-- Attempts per slot and slots per proposal (`PaxosConfig::DEFAULT`). -/
def maxPaxosRetries : ℕ := 3

def maxSlotRetries : ℕ := 3

/-! ## Messages -/

/-- Phase 1 of one attempt of a proposer. -/
structure PrepareRequest where
  proposer : ℕ
  attempt : ℕ
  slot : ℕ
  ballot : PxBallot
  term : ℕ
deriving DecidableEq

/-- Phase 2 of one attempt of a proposer. -/
structure AcceptRequest where
  proposer : ℕ
  attempt : ℕ
  entry : PxLogEntry
  tags : List DedupTag
deriving DecidableEq

/-- `VoteRequestPayload`, for both `PreVote` and `RequestVote`. -/
structure VoteRequest where
  candidateId : ℕ
  round : ℕ
  term : ℕ
  acceptedLogTipSlot : ℕ
  acceptedLogTipTerm : ℕ
deriving DecidableEq

/-- The reply to both kinds of votes. -/
structure VoteReply where
  term : ℕ
  granted : Bool
  contiguousChosen : ℕ
  lastChosenTerm : ℕ
  highestSeenSlot : ℕ
deriving DecidableEq

/-- `HeartbeatRequest`. -/
structure HeartbeatRequest where
  term : ℕ
  leaderId : ℕ
  committedSafeSlot : ℕ
deriving DecidableEq

/-- `HeartbeatReply`. -/
structure HeartbeatReply where
  term : ℕ
  success : Bool
deriving DecidableEq

/-- A reply carries the request that it answers: a call gets replies to its own
    request only. -/
inductive Msg where
  | prepare (req : PrepareRequest)
  | prepareReply (req : PrepareRequest) (reply : PxPrepareReply)
  | accept (req : AcceptRequest)
  | acceptReply (req : AcceptRequest) (reply : PxAcceptReply)
  | preVote (req : VoteRequest)
  | preVoteReply (req : VoteRequest) (reply : VoteReply)
  | requestVote (req : VoteRequest)
  | requestVoteReply (req : VoteRequest) (reply : VoteReply)
  | heartbeat (req : HeartbeatRequest)
  | heartbeatReply (req : HeartbeatRequest) (reply : HeartbeatReply)
  | chosenNotice (slot term : ℕ) (ballot : PxBallot)
  | batchChosen (startSlot endSlot term : ℕ) (ballot : PxBallot)
  | fetchGap (slot leader : ℕ)
  | fetchGapReply (follower : ℕ) (entry : PxLogEntry)
deriving DecidableEq

/-- What a step sends, and what it stands for. -/
inductive Effect where
  | send (m : Msg)
  /-- the acceptor accepted the entry -/
  | voted (entry : PxLogEntry)
  /-- the replica counts as a supporter of the candidate in the term -/
  | supported (term candidate : ℕ)
  | finalized (term : ℕ)
  /-- the apply loop handed the payload of a slot to the engine -/
  | handed (slot : ℕ) (payload : Bytes)
  /-- `propose` answered `Chosen` from the dedup window -/
  | answered (tag : DedupTag) (slot : ℕ)
deriving DecidableEq

/-! ## Tasks -/

/-- `PxLocalReplicaRole`. -/
inductive Role where
  | follower
  | preCandidate
  | candidate
  | leader
deriving DecidableEq

/-- Where the election driver of the replica is. -/
inductive Campaign where
  | idle
  | preVoting (req : VoteRequest) (granted : List ℕ)
  /-- `become_candidate` is done, the append of the own vote is in flight -/
  | persisting
  | requesting (req : VoteRequest) (granted : List ℕ) (peerCeiling : ℕ)
  /-- in `run_leader_state`, with the term read on entry -/
  | leading (leaderTerm : ℕ)
deriving DecidableEq

/-- What a proposer task is for. -/
inductive Job where
  /-- a client proposal, with its retry counters -/
  | propose (payload : Bytes) (tags : List DedupTag) (paxosAttempt slotAttempt : ℕ)
  /-- bulk Phase 1, spawned on tenure entry and not begun -/
  | handoff (term peerCeiling : ℕ)
  /-- bulk Phase 1 up to the ceiling -/
  | bulk (term ceiling : ℕ)
  | repair
deriving DecidableEq

/-- How far a proposer task is. -/
inductive Phase where
  /-- not begun: a proposal waits for an inflight permit -/
  | waiting
  /-- about to work on the slot -/
  | assigned (slot : ℕ)
  /-- sleeping before Phase 1 of the next attempt on the slot -/
  | backoff (slot minRound : ℕ)
  | preparing (entry : PxLogEntry) (replies : List (ℕ × PxPrepareReply))
  | accepting (entry : PxLogEntry) (foreign : Bool) (replies : List (ℕ × PxAcceptReply))
deriving DecidableEq

/-- A proposer task. -/
structure Attempt where
  job : Job
  phase : Phase
deriving DecidableEq

/-- What runs when a WAL append returns. -/
inductive Continuation where
  /-- the `Promised` reply, with the entry accepted at the time of the promise -/
  | prepareReply (req : PrepareRequest) (accepted : Option PxLogEntry)
  /-- the `Accepted` reply, after the tags are recorded -/
  | acceptReply (req : AcceptRequest)
  /-- the granted vote, with the frontiers as they are then -/
  | voteReply (req : VoteRequest) (term : ℕ)
  /-- the candidate's `RequestVote` round -/
  | candidacy
  | done
deriving DecidableEq

/-- An append under way. -/
structure Append where
  record : WALRecord
  next : Continuation
deriving DecidableEq

/-! ## Replicas -/

/-- One node of the group. -/
structure Replica where
  acceptor : PxAcceptor
  learner : PxLearner
  currentTerm : ℕ
  votedFor : Option ℕ
  role : Role
  leaderId : Option ℕ
  knownCommitSlot : ℕ
  gapSlots : List ℕ
  nextSlot : ℕ
  proposingTerm : ℕ
  campaign : Campaign
  /-- `PendingLeaderHandoff`: the term won and the peers' highest seen slot -/
  pendingHandoff : Option (ℕ × ℕ)
  /-- the proposer tasks, by the number of their current attempt -/
  attempts : ℕ → Option Attempt
  /-- attempts and election rounds started so far, over all restarts -/
  nextAttempt : ℕ
  /-- the open batch of the coalescer -/
  batch : List (Option DedupTag × Bytes)
  /-- entries whose spawned engine apply has not run yet -/
  applying : List PxLogEntry
  /-- the apply loop's next slot and the end of its pass -/
  applyPass : Option (ℕ × ℕ)
  /-- WAL appends that have not returned -/
  pending : List Append
  wal : List WALRecord

/-- The replica after a step, and its effects. -/
abbrev Outcome := Replica × List Effect

namespace Replica

/-- A fresh node. -/
def new : Replica where
  acceptor := .new
  learner := .new
  currentTerm := 0
  votedFor := none
  role := .follower
  leaderId := none
  knownCommitSlot := 0
  gapSlots := []
  nextSlot := 1
  proposingTerm := 0
  campaign := .idle
  pendingHandoff := none
  attempts := fun _ => none
  nextAttempt := 0
  batch := []
  applying := []
  applyPass := none
  pending := []
  wal := []

variable (r : Replica)

/-- A higher term is adopted and clears the vote; the role is `Follower` in any case. -/
def becomeFollower (newTerm : ℕ) : Replica := { r with
    currentTerm := max r.currentTerm newTerm
    votedFor := if r.currentTerm < newTerm then none else r.votedFor
    role := .follower
    leaderId := none }

/-- `advance_known_commit_slot`. -/
def advanceKnownCommitSlot (slot : ℕ) : Replica :=
  { r with knownCommitSlot := max r.knownCommitSlot slot }

/-- `record_gap`. -/
def recordGap (slot : ℕ) : Replica := { r with gapSlots := r.gapSlots.insert slot }

/-- Task `k` is now `a`. -/
def setAttempt (k : ℕ) (a : Option Attempt) : Replica :=
  { r with attempts := Function.update r.attempts k a }

/-- Task `k` goes on under a new number. -/
def renewAttempt (k : ℕ) (a : Attempt) : Replica := { r with
    attempts := Function.update (Function.update r.attempts k none) r.nextAttempt (some a)
    nextAttempt := r.nextAttempt + 1 }

/-- A task begins. -/
def newAttempt (a : Attempt) : Replica := { r with
    attempts := Function.update r.attempts r.nextAttempt (some a)
    nextAttempt := r.nextAttempt + 1 }

/-- An append begins. -/
def addPending (record : WALRecord) (next : Continuation) : Replica :=
  { r with pending := r.pending ++ [⟨record, next⟩] }

/-- The term fence in front of the acceptor: a higher term is adopted. -/
def fenceTerm (term : ℕ) : Replica :=
  if r.currentTerm < term then r.becomeFollower term else r

/-- `(accepted_log_tip_slot, accepted_log_tip_term)`, zero when nothing is accepted. -/
def acceptedLogTip : ℕ × ℕ := r.acceptor.acceptedLogTip.getD (0, 0)

/-- The frontier triple of vote replies. -/
def voteReply (term : ℕ) (granted : Bool) : VoteReply :=
  ⟨term, granted, r.learner.contiguousChosen, r.learner.lastChosenTerm, r.acceptor.highestSeenSlot⟩

end Replica

end CrowDB
