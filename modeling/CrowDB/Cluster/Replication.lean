/-
  The acceptor and learner side of a replica: the Phase-1 and Phase-2 handlers with their WAL appends
  (`cluster/local_replica_accept.rs`, `rpc/px_rpc_service.rs`), chosen notices and gap fetching
  (`cluster/group_fetchgap.rs`), the apply loop (`cluster/local_replica_apply.rs`), and the restart of
  a replica from its WAL (`cluster/local_replica_replay.rs`, `create_group_with_wal` of the server).

  A handler replies when the append of its record has returned; appends return in any order.
-/
import CrowDB.Cluster.AcceptorReplay
import CrowDB.Cluster.Election
import CrowDB.Wal.Engine

namespace CrowDB

/-- Slots per pass of the apply loop (`MAX_APPLY_PER_BATCH`). -/
def maxApplyPerBatch : ℕ := 64

namespace Replica

section

variable (cfg : GroupConfig) (n : ℕ) (r : Replica)

/-! ## Phase 1 and Phase 2 -/

/-- `on_prepare`: term fence, acceptor, and the reply after the `Promised` record. -/
def handlePrepare (req : PrepareRequest) : Outcome :=
  if req.term < r.currentTerm then
    (r, [.send (.prepareReply req (.termStale req.slot r.currentTerm))])
  else
    let r := r.fenceTerm req.term
    let res := r.acceptor.prepare req.slot req.ballot
    let r := { r with acceptor := res.1 }
    match res.2 with
    | .promised slot accepted =>
      (r.addPending (.promised req.term slot req.ballot) (.prepareReply req accepted), [])
    | reply => (r, [.send (.prepareReply req reply)])

/-- `on_accept`: the reply follows the `Accepted` record; on the early-ack path the own replica
    replies at once. -/
def handleAccept (req : AcceptRequest) : Outcome :=
  if req.entry.term < r.currentTerm then
    (r, [.send (.acceptReply req (.termStale req.entry.slot r.currentTerm))])
  else
    let r := r.fenceTerm req.entry.term
    let res := r.acceptor.accept req.entry
    let r := { r with acceptor := res.1 }
    match res.2 with
    | .accepted slot ballot =>
      if req.proposer = n ∧ cfg.earlyAck then
        (r, [.voted req.entry, .send (.acceptReply req (.accepted slot ballot))])
      else (r.addPending (.accepted req.entry) (.acceptReply req), [.voted req.entry])
    | reply => (r, [.send (.acceptReply req reply)])

/-- What follows a WAL append.  Only the RPC handler records dedup tags, so not the
    proposer's own replica. -/
def continueWith : Continuation → Outcome
  | .prepareReply req accepted => (r, [.send (.prepareReply req (.promised req.slot accepted))])
  | .acceptReply req =>
    (if req.proposer = n then r
      else { r with learner := r.learner.recordDedupTags req.tags req.entry.slot },
      [.send (.acceptReply req (.accepted req.entry.slot req.entry.ballot))])
  | .voteReply req term => (r, [.send (.requestVoteReply req (r.voteReply term true))])
  | .candidacy => r.runCandidateElection cfg n
  | .done => (r, [])

/-- Append `i` returns. -/
def appended (i : ℕ) : Option Outcome := r.pending[i]?.map fun a =>
    continueWith cfg n { r with pending := r.pending.eraseIdx i, wal := r.wal ++ [a.record] } a.next

end

/-! ## Learning -/

variable (r : Replica)

/-- The frontier moves if the accepted ballot is the chosen one, otherwise the slot is a gap. -/
def handleChosenNotice (slot term : ℕ) (ballot : PxBallot) : Replica :=
  if (r.acceptor.acceptedAt slot).map PxLogEntry.ballot = some ballot then
    { r with learner := r.learner.updateChosenFrontier slot term }
  else recordGap { r with learner := r.learner.noteChosen slot term } slot

/-- `handle_batch_chosen`. -/
def handleBatchChosen (startSlot endSlot term : ℕ) (ballot : PxBallot) : Replica :=
  (List.range' startSlot (endSlot + 1 - startSlot)).foldl
    (fun r slot => r.handleChosenNotice slot term ballot) r

/-- `send_batch_chosen_notice` for slots that the leader has chosen at one ballot. -/
def sendBatchChosen (startSlot endSlot term : ℕ) (ballot : PxBallot) :
    Option Outcome :=
  if r.role = .leader ∧ (List.range' startSlot (endSlot + 1 - startSlot)).all fun slot =>
      r.learner.isChosen slot && decide
        ((r.acceptor.acceptedAt slot).map PxLogEntry.ballot = some ballot) then
    some (r, [.send (.batchChosen startSlot endSlot term ballot)])
  else none

variable (slot : ℕ)

/-- The FetchGap driver of a follower asks the believed leader for a gap. -/
def fetchGap : Option Outcome :=
  match r.leaderId with
  | some leader =>
    if r.role ≠ .leader ∧ slot ∈ r.gapSlots then
      some ({ r with gapSlots := r.gapSlots.erase slot }, [.send (.fetchGap slot leader)])
    else none
  | none => none

/-- `handle_fetch_gap`. -/
def handleFetchGap (follower slot : ℕ) : Option Outcome :=
  if r.role = .leader then
    (r.acceptor.acceptedAt slot).map fun entry => (r, [.send (.fetchGapReply follower entry)])
  else none

/-- The follower accepts the entry, whatever the acceptor replies, and counts the slot as
    chosen. -/
def receiveFetchGapReply (entry : PxLogEntry) : Outcome :=
  let res := r.acceptor.accept entry
  let r := { r with
    acceptor := res.1
    learner := r.learner.updateChosenFrontier entry.slot entry.term }
  match res.2 with
  | .accepted _ _ => (r, [.voted entry])
  | _ => (r, [])

/-- The fetch fails: the slot stays a gap. -/
def fetchGapFailed : Option Outcome := some (r.recordGap slot, [])

/-- A deferred engine apply. -/
def applyDeferred (i : ℕ) (ok : Bool) : Option Outcome := r.applying[i]?.map fun entry =>
    ({ r with
        learner := r.learner.applyAndAdvance entry.slot entry.payload ok
        applying := r.applying.eraseIdx i }, [])

/-- A pass of the apply loop begins. -/
def applyPassStart : Option Outcome :=
  let target := max r.knownCommitSlot r.learner.lastChosenSlot
  let current := r.learner.contiguousApplied
  if current < target ∧ r.applyPass = none then
    some ({ r with applyPass := some (current + 1, min target (current + maxApplyPerBatch)) }, [])
  else none

/-- The apply loop takes the slot for chosen. -/
def takenAsChosen : Bool := decide (slot ≤ r.knownCommitSlot) || r.learner.isChosen slot

/-- One slot of the pass: an accepted entry at a slot taken as chosen goes to the engine,
    a missing one is a gap. -/
def applySlot (ok : Bool) : Outcome :=
  if r.takenAsChosen slot then
    match r.acceptor.acceptedAt slot with
    | some entry =>
      ({ r with learner := r.learner.applyAndAdvance entry.slot entry.payload ok },
        [.handed entry.slot entry.payload])
    | none => (r.recordGap slot, [])
  else (r, [])

/-- The apply loop, one slot. -/
def applyPassStep (ok : Bool) : Option Outcome :=
  match r.applyPass with
  | some (next, last) =>
    if next ≤ last then
      let o := r.applySlot next ok
      some ({ o.1 with applyPass := some (next + 1, last) }, o.2)
    else some ({ r with applyPass := none }, [])
  | none => none

/-! ## Restart -/

/-- Pass 2 of the restore: `learn` for every accepted entry from `slot` on. -/
def relearn (a : PxAcceptor) (ok : ℕ → Bool) (l : PxLearner) (slots : List ℕ) : PxLearner :=
  slots.foldl (fun l slot => (a.acceptedAt slot).elim l fun entry => l.learn entry [] (ok slot)) l

/-- Frontiers from the engine's durable prefix, and every accepted entry above it is learned. -/
def restoreLearner (a : PxAcceptor) (engine : List (ℕ × Bytes)) (resumeFrom : ℕ) (ok : ℕ → Bool) :
    PxLearner :=
  let highest := a.highestSeenSlot
  let resume := min resumeFrom highest
  let l := { PxLearner.new with engine }
  let l := if 0 < resume then
      (a.acceptedAt resume).elim l fun entry => l.seedResumeFrontier resume entry.term
    else l
  relearn a ok l (List.range' (resume + 1) (highest - resume))

/-- The replayed records and the durable prefix of the engine are all that is left. -/
def restoreFromReplay (records : List WALRecord) (resumeFrom : ℕ) (ok : ℕ → Bool) :
    Replica :=
  let acceptor := restoreAcceptor records
  let learner := restoreLearner acceptor
    (r.learner.engine.filter fun p => p.1 ≤ resumeFrom) resumeFrom ok
  let term := maxTerm records
  { Replica.new with
    acceptor
    learner
    currentTerm := term
    votedFor := latestVote term records
    nextSlot := max (max (max acceptor.highestSeenSlot learner.lastChosenSlot)
      learner.contiguousApplied + 1) 1
    nextAttempt := r.nextAttempt
    wal := records }

/-- A crash loses the appends in flight; replay finds the others in an order that the pipelines
    decide. -/
def restart (records : List WALRecord) (resumeFrom : ℕ) (ok : ℕ → Bool) :
    Option Outcome :=
  if records.isPerm r.wal ∧ (List.range' 1 resumeFrom).all fun slot =>
      decide (slot ∈ r.learner.engine.map Prod.fst) then
    some (r.restoreFromReplay records resumeFrom ok, [])
  else none

end Replica

end CrowDB
