/-
  The proposer of a replica (`group_propose.rs`, `group_coalesce.rs`, `group_prepare.rs`,
  `group_accept.rs` and `group_inflight.rs` of `cluster`; `base_entry`, `consider_accepted` and
  `repair_once` of `cluster/group.rs`; the bulk Phase 1 of `cluster/group_election.rs`).

  A proposer task works on one slot at a time.  A client proposal sends its `Accept` at round `0`
  without Phase 1 (`base_entry`), and runs Phase 1 after a rejection; bulk Phase 1 and repair always
  run Phase 1.  A phase collects replies until its short-circuit condition holds, or until the calls
  still open have failed, which they may do at any moment.
-/
import CrowDB.Cluster.Replica

namespace CrowDB

/-! ## Replies -/

/-- The replies of a round so far. -/
structure ReplyFold where
  /-- promises or accepts of voting replicas -/
  accepted : ℕ
  highestRejectedRound : Option ℕ
  highestSeenTerm : Option ℕ
  adopted : Option PxLogEntry
  localFolded : Bool
  localAccepted : Bool
deriving DecidableEq

namespace ReplyFold

/-- No reply. -/
def new : ReplyFold := ⟨0, none, none, none, false, false⟩

/-- The maximum so far. -/
def noteMax (o : Option ℕ) (x : ℕ) : Option ℕ := some (o.elim x (max · x))

/-- `consider_accepted`. -/
def considerAccepted (adopted : Option PxLogEntry) (candidate : PxLogEntry) : Option PxLogEntry :=
  if ∀ current ∈ adopted, current.ballot < candidate.ballot then some candidate else adopted

section

variable (cfg : GroupConfig) (n : ℕ)

/-- The vote of a replica, which counts only if it is a voting member. -/
def weight (m : ℕ) : ℕ := if m ∈ cfg.voters then 1 else 0

variable (f : ReplyFold)

/-- A reply to `Prepare` comes in. -/
def foldPrepare (m : ℕ) (reply : PxPrepareReply) : ReplyFold :=
  let f := { f with localFolded := f.localFolded || decide (m = n) }
  match reply with
  | .promised _ accepted => { f with
      accepted := f.accepted + weight cfg m
      adopted := accepted.elim f.adopted (considerAccepted f.adopted) }
  | .rejected _ current => { f with
      highestRejectedRound := noteMax f.highestRejectedRound current.round }
  | .termStale _ newTerm => { f with highestSeenTerm := noteMax f.highestSeenTerm newTerm }

/-- A reply to `Accept` comes in. -/
def foldAccept (m : ℕ) (reply : PxAcceptReply) : ReplyFold :=
  let f := { f with localFolded := f.localFolded || decide (m = n) }
  match reply with
  | .accepted _ _ => { f with
      accepted := f.accepted + weight cfg m
      localAccepted := f.localAccepted || decide (m = n) }
  | .rejected _ current => { f with
      highestRejectedRound := noteMax f.highestRejectedRound current.round }
  | .termStale _ newTerm => { f with highestSeenTerm := noteMax f.highestSeenTerm newTerm }

/-- The fold of the replies in the order of their arrival. -/
def ofPrepare (replies : List (ℕ × PxPrepareReply)) : ReplyFold :=
  replies.foldl (fun f p => f.foldPrepare cfg n p.1 p.2) new

/-- All replies of Phase 2. -/
def ofAccept (replies : List (ℕ × PxAcceptReply)) : ReplyFold :=
  replies.foldl (fun f p => f.foldAccept cfg n p.1 p.2) new

/-- The prepare phase returns on a quorum with the local reply and no stale term. -/
def prepareStops : Bool :=
  decide (cfg.quorum ≤ f.accepted) && f.localFolded && f.highestSeenTerm.isNone

/-- A quorum with the local reply; on the early-ack path that has to be an accept. -/
def acceptStops : Bool :=
  decide (cfg.quorum ≤ f.accepted) && if cfg.earlyAck then f.localAccepted else f.localFolded

end

end ReplyFold

/-- How Phase 1 ends. -/
inductive PrepareAttempt where
  | proceed (entry : PxLogEntry) (foreign : Bool)
  | retry (nextMinRound : ℕ)
  | termStale (newTerm : ℕ)
  | fail

/-- How Phase 2 ends. -/
inductive AcceptAttempt where
  | chosen
  | retry (nextMinRound : ℕ)
  | termStale (newTerm : ℕ)
  | fail

/-- How the prepare phase ends: a stale term, then the quorum; an adopted payload replaces the own. -/
def prepareAttempt (cfg : GroupConfig) (f : ReplyFold) (entry : PxLogEntry) : PrepareAttempt :=
  match f.highestSeenTerm with
  | some newTerm => .termStale newTerm
  | none =>
    if f.accepted < cfg.quorum then
      match f.highestRejectedRound with
      | some round => .retry round
      | none => .fail
    else
      match f.adopted with
      | some prev =>
        .proceed { entry with payload := prev.payload } (decide (prev.payload ≠ entry.payload))
      | none => .proceed entry false

/-- How the accept phase ends: the quorum first, then a stale term. -/
def acceptAttempt (cfg : GroupConfig) (f : ReplyFold) : AcceptAttempt :=
  if cfg.quorum ≤ f.accepted then .chosen
  else
    match f.highestSeenTerm with
    | some newTerm => .termStale newTerm
    | none =>
      match f.highestRejectedRound with
      | some round => .retry (round + 1)
      | none => .fail

namespace Job

/-- The tags of the client. -/
def tags : Job → List DedupTag
  | .propose _ tags _ _ => tags
  | _ => []

/-- What is proposed, if Phase 1 finds nothing. -/
def payload : Job → Bytes
  | .propose payload _ _ _ => payload
  | _ => []

end Job

/-! ## Rounds of the coalescer -/

/-- The payload without its count. -/
def opBody (payload : Bytes) : Bytes := payload.drop 2

variable (ops : List (Option DedupTag × Bytes))

/-- The payload of a coalesced round: the number of operations as a little-endian
    `u16`, and their bodies. -/
def roundPayload : Bytes :=
  let count := min ops.length 65535
  [UInt8.ofNat (count % 256), UInt8.ofNat (count / 256)] ++ ops.flatMap fun op => opBody op.2

/-- The tags of a round. -/
def roundTags : List DedupTag := ops.filterMap Prod.fst

namespace Replica

section

variable (cfg : GroupConfig) (n : ℕ) (r : Replica)

/-! ## Starting a phase -/

/-- `base_entry`. -/
def baseEntry (slot : ℕ) (payload : Bytes) : PxLogEntry := ⟨slot, ⟨0, n⟩, r.currentTerm, payload⟩

/-- The entry of a prepare phase: the round is above the local promise and `min_round`. -/
def prepareEntry (slot : ℕ) (payload : Bytes) (minRound : ℕ) : PxLogEntry :=
  let maxRound := (r.acceptor.promisedAt slot).elim minRound fun b => max minRound b.round
  { r.baseEntry n slot payload with ballot := ⟨maxRound + 1, n⟩ }

variable (k : ℕ)

/-- The request of Phase 1. -/
def prepareRequest (entry : PxLogEntry) : PrepareRequest :=
  ⟨n, k, entry.slot, entry.ballot, entry.term⟩

variable (job : Job)

/-- Phase 1 begins. -/
def beginPrepare (slot minRound : ℕ) : Outcome :=
  let entry := r.prepareEntry n slot job.payload minRound
  (r.setAttempt k (some ⟨job, .preparing entry []⟩), [.send (.prepare (prepareRequest n k entry))])

/-- Phase 2 begins. -/
def beginAccept (entry : PxLogEntry) (foreign : Bool) : Outcome :=
  (r.setAttempt k (some ⟨job, .accepting entry foreign []⟩),
    [.send (.accept ⟨n, k, entry, job.tags⟩)])

/-! ## Client proposals -/

/-- The leader may propose. -/
def gate : Bool := decide (r.role = .leader) && decide (r.currentTerm = r.proposingTerm)

/-- `propose`: gate, dedup lookup, then a task of its own or the open batch. -/
def propose (tag : Option DedupTag) (payload : Bytes) : Option Outcome :=
  if r.gate ∧ ∀ t ∈ tag, payload = cfg.submitted t then
    match tag.bind fun t => (r.learner.dedupLookup t.clientId t.seq).map (t, ·) with
    | some (t, slot) => some (r, [.answered t slot])
    | none =>
      let tag := tag.filter fun t => t.clientId ≠ 0
      if cfg.coalesce then some ({ r with batch := r.batch ++ [(tag, payload)] }, [])
      else some (r.newAttempt ⟨.propose payload tag.toList 0 0, .waiting⟩, [])
  else none

/-- The open batch becomes one proposal, if the gate is still open. -/
def flushBatch : Option Outcome :=
  if r.batch = [] then none
  else
    let ops := r.batch
    let r := { r with batch := [] }
    if r.gate then
      some (r.newAttempt ⟨.propose (roundPayload ops) (roundTags ops) 0 0, .waiting⟩, [])
    else some (r, [])

/-- A waiting task begins: a proposal takes its slot, bulk Phase 1 computes its range. -/
def acquire : Option Outcome :=
  match r.attempts k with
  | some ⟨.propose payload tags p s, .waiting⟩ =>
    some (setAttempt { r with nextSlot := r.nextSlot + 1 } k
      (some ⟨.propose payload tags p s, .assigned r.nextSlot⟩), [])
  | some ⟨.handoff term peerCeiling, .waiting⟩ =>
    -- the floor is the replica's own frontier, not that of the peers
    let floor := r.learner.contiguousChosen
    let ceiling := max (max r.acceptor.highestSeenSlot (r.nextSlot - 1)) peerCeiling
    if ceiling ≤ floor then some (r.setAttempt k none, [])
    else some (r.setAttempt k (some ⟨.bulk term ceiling, .assigned (floor + 1)⟩), [])
  | _ => none

/-- Bulk Phase 1 is done. -/
def finishBulk (k ceiling : ℕ) : Outcome :=
  (setAttempt (advanceKnownCommitSlot { r with nextSlot := max r.nextSlot (ceiling + 1) }
    r.learner.contiguousChosen) k none, [])

/-- A proposal starts with Phase 2 at round `0`, unless in classic mode, bulk Phase 1 with Phase 1. -/
def start : Option Outcome :=
  match r.attempts k with
  | some ⟨.propose payload tags p s, .assigned slot⟩ =>
    let job := Job.propose payload tags p s
    if cfg.forceClassic then some (r.beginPrepare n k job slot 0)
    else some (r.beginAccept n k job (r.baseEntry n slot payload) false)
  | some ⟨.bulk term ceiling, .assigned slot⟩ =>
    if slot ≤ ceiling then some (r.beginPrepare n k (.bulk term ceiling) slot 0)
    else some (r.finishBulk k ceiling)
  | _ => none

/-- Bulk Phase 1 is given up. -/
def cancelBulk : Option Outcome :=
  match r.attempts k with
  | some ⟨.bulk _ _, .assigned _⟩ => some (r.setAttempt k none, [])
  | _ => none

/-- A proposal goes on with Phase 1 on the same slot. -/
def resume : Option Outcome :=
  match r.attempts k with
  | some ⟨job, .backoff slot minRound⟩ => some (r.beginPrepare n k job slot minRound)
  | _ => none

/-- `repair_once`: Phase 1 at the lowest gap of the chosen frontier. -/
def repairOnce : Option Outcome :=
  if r.role = .leader ∧ r.learner.contiguousChosen < r.learner.lastChosenSlot then
    some (beginPrepare n { r with nextAttempt := r.nextAttempt + 1 } r.nextAttempt .repair
      (r.learner.contiguousChosen + 1) 0)
  else none

/-! ## The end of a slot -/

/-- The slot is given up: a proposal takes the next while it has retries, bulk Phase 1 goes on, a
    repair ends. -/
def abandonSlot (slot : ℕ) : Replica :=
  match job with
  | .propose payload tags _ s =>
    let next := r.nextSlot
    let r := { r with nextSlot := r.nextSlot + 1 }
    if s + 1 < maxSlotRetries then
      r.renewAttempt k ⟨.propose payload tags 0 (s + 1), .assigned next⟩
    else r.setAttempt k none
  | .bulk term ceiling => r.renewAttempt k ⟨.bulk term ceiling, .assigned (slot + 1)⟩
  | _ => r.setAttempt k none

/-- A rejected phase: a proposal retries the slot at a higher round. -/
def retrySlot (slot minRound : ℕ) : Replica :=
  match job with
  | .propose payload tags p s =>
    if p + 1 < maxPaxosRetries then
      r.renewAttempt k ⟨.propose payload tags (p + 1) s, .backoff slot minRound⟩
    else r.abandonSlot k job slot
  | _ => r.abandonSlot k job slot

/-- A stale term ends a proposal and makes the replica a follower; bulk Phase 1 and
    repair only give the slot up. -/
def staleTerm (slot newTerm : ℕ) : Replica :=
  match job with
  | .propose _ _ _ _ => (r.becomeFollower newTerm).setAttempt k none
  | _ => r.abandonSlot k job slot

/-- The entry that goes to Phase 2: bulk Phase 1 stamps it with the term of the tenure. -/
def acceptEntry (entry : PxLogEntry) : PxLogEntry :=
  match job with
  | .bulk term _ => { entry with term }
  | _ => entry

/-- The prepare phase of the attempt ends; the local reply is in. -/
def prepareDone : Option Outcome :=
  match r.attempts k with
  | some ⟨job, .preparing entry replies⟩ =>
    let f := ReplyFold.ofPrepare cfg n replies
    if f.localFolded then
      match prepareAttempt cfg f entry with
      | .proceed entry foreign => some (r.beginAccept n k job (acceptEntry job entry) foreign)
      | .retry minRound => some (r.retrySlot k job entry.slot minRound, [])
      | .termStale newTerm => some (r.staleTerm k job entry.slot newTerm, [])
      | .fail => some (r.abandonSlot k job entry.slot, [])
    else none
  | _ => none

/-- The chosen entry is learned; a client proposal may defer the engine apply. -/
def learnChosen (entry : PxLogEntry) (ok : Bool) : Replica :=
  match job with
  | .propose _ tags _ _ =>
    if cfg.asyncEngineApply then
      { r with
        learner := r.learner.learnDeferred entry tags
        applying := r.applying ++ [entry] }
    else { r with learner := r.learner.learn entry tags ok }
  | _ => { r with learner := r.learner.learn entry [] ok }

/-- After a choice: a proposal whose own payload was chosen returns, everything else goes
    on as after a failed slot. -/
def afterChosen (entry : PxLogEntry) (foreign : Bool) : Replica :=
  match job with
  | .propose payload _ _ _ =>
    if foreign ∨ entry.payload ≠ payload then r.abandonSlot k job entry.slot
    else r.setAttempt k none
  | _ => r.abandonSlot k job entry.slot

/-- On the early-ack path the local accept is persisted in the background. -/
def spawnAcceptPersist (f : ReplyFold) (entry : PxLogEntry) : Replica :=
  if cfg.earlyAck ∧ f.localAccepted then r.addPending (.accepted entry) .done else r

/-- The accept phase ends; `ok` is the outcome of the engine apply, if it runs here. -/
def acceptDone (ok : Bool) : Option Outcome :=
  match r.attempts k with
  | some ⟨job, .accepting entry foreign replies⟩ =>
    let f := ReplyFold.ofAccept cfg n replies
    if f.localFolded then
      match acceptAttempt cfg f with
      | .chosen =>
        let r := (r.spawnAcceptPersist cfg f entry).learnChosen cfg job entry ok
        some (r.afterChosen k job entry foreign,
          [.send (.chosenNotice entry.slot entry.term entry.ballot)])
      | .retry minRound => some (r.retrySlot k job entry.slot minRound, [])
      | .termStale newTerm => some (r.staleTerm k job entry.slot newTerm, [])
      | .fail => some (r.abandonSlot k job entry.slot, [])
    else none
  | _ => none

/-! ## Replies -/

/-- A reply to a collecting attempt; a late stale term makes the replica a follower. -/
def receivePrepareReply (peer : ℕ) (req : PrepareRequest) (reply : PxPrepareReply) :
    Option Outcome :=
  match r.attempts req.attempt, reply with
  | some ⟨job, .preparing entry replies⟩, reply =>
    if req = prepareRequest n req.attempt entry ∧ peer ∉ replies.map Prod.fst ∧
        (ReplyFold.ofPrepare cfg n replies).prepareStops cfg = false then
      some (r.setAttempt req.attempt (some ⟨job, .preparing entry (replies ++ [(peer, reply)])⟩), [])
    else none
  | _, .termStale _ newTerm =>
    if req.proposer = n then some (r.becomeFollower newTerm, []) else none
  | _, _ => none

/-- A reply to `Accept`. -/
def receiveAcceptReply (peer : ℕ) (req : AcceptRequest) (reply : PxAcceptReply) :
    Option Outcome :=
  match r.attempts req.attempt, reply with
  | some ⟨job, .accepting entry foreign replies⟩, reply =>
    if req = ⟨n, req.attempt, entry, job.tags⟩ ∧ peer ∉ replies.map Prod.fst ∧
        (ReplyFold.ofAccept cfg n replies).acceptStops cfg = false then
      some (r.setAttempt req.attempt
        (some ⟨job, .accepting entry foreign (replies ++ [(peer, reply)])⟩), [])
    else none
  | _, .termStale _ newTerm =>
    if req.proposer = n then some (r.becomeFollower newTerm, []) else none
  | _, _ => none

end

end Replica

end CrowDB
