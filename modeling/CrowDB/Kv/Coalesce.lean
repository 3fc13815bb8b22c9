/-
  The write coalescer of a group (`cluster/group_coalesce.rs`).

  A write that finds the coalescer idle starts a round of its own and opens a batch; the writes
  behind it join the batch.  The batch becomes a round when it is full, when a round is over, or
  when the watchdog has seen no activity for a second.  The coalescer is a mutex: every locked
  section is one step, and the steps of any number of callers, rounds and of the watchdog
  interleave.

  The drain behind a round has two locked sections.  The first takes the batch and leaves a fresh
  one; if the batch taken is empty, the second resets the coalescer to idle, and drops what has
  joined in between.
-/
import CrowDB.Cluster.Proposer
import CrowDB.Lib.ByteCodec
import CrowDB.Lib.FairRuns

namespace CrowDB.Kv

open Lib

/-! ## Batches and rounds -/

/-- `ProposeResult`. -/
inductive ProposeResult where
  | chosen (slot : ℕ)
  | notLeader (leaderHint : String)
  | busy
  | err (message : String)
deriving DecidableEq

/-- The batch for the next round; a waiter is the number of its write. -/
structure PendingBatch where
  opBodies : Bytes
  opCount : ℕ
  tags : List DedupTag
  waiters : List ℕ
deriving DecidableEq

/-- A batch with no write. -/
def PendingBatch.empty : PendingBatch := ⟨[], 0, [], []⟩

/-- A write joins; the count saturates as a `u16`. -/
def PendingBatch.join (batch : PendingBatch) (payload : Bytes) (tag : Option DedupTag)
    (waiter : ℕ) : PendingBatch :=
  { opBodies := batch.opBodies ++ opBody payload
    opCount := min (batch.opCount + 1) 65535
    tags := batch.tags ++ tag.toList
    waiters := batch.waiters ++ [waiter] }

/-- How far a round is. -/
inductive RoundPhase where
  /-- `propose_inner` is running. -/
  | proposing
  /-- The waiters have the result, the drain is to come. -/
  | resolved (result : ProposeResult)
  /-- The drain has taken an empty batch and is about to reset the coalescer. -/
  | clearing (result : ProposeResult)
  | done (result : ProposeResult)
deriving DecidableEq

/-- The result of a round. -/
def RoundPhase.result : RoundPhase → Option ProposeResult
  | .proposing => none
  | .resolved result | .clearing result | .done result => some result

/-- The drain behind the round is still to begin. -/
def RoundPhase.undrained : RoundPhase → Bool
  | .proposing | .resolved _ => true
  | .clearing _ | .done _ => false

/-- A round. -/
structure CoalesceRound where
  payload : Bytes
  tags : List DedupTag
  waiters : List ℕ
  phase : RoundPhase
deriving DecidableEq

/-- The round of a batch: the number of operations and their bodies. -/
def PendingBatch.round (batch : PendingBatch) : CoalesceRound :=
  ⟨leBytes 2 batch.opCount ++ batch.opBodies, batch.tags, batch.waiters, .proposing⟩

/-! ## The coalescer -/

/-- `coalesce_max_keys` and `coalesce_drain_threshold`, both `usize`. -/
structure CoalesceConfig where
  coalesceMaxKeys : ℕ
  drainThreshold : ℕ

/-- The bound as the group holds it, an `AtomicU16`. -/
def CoalesceConfig.maxKeys (cfg : CoalesceConfig) : ℕ := cfg.coalesceMaxKeys % 65536

/-- Microseconds without activity after which the watchdog flushes. -/
def watchdogUs : ℕ := 1000000

/-- The coalescer, its rounds and its callers. -/
structure Coalescer where
  pending : Option PendingBatch
  rounds : List CoalesceRound
  /-- The writes so far; a waiter is an index of this list. -/
  requests : List (Option DedupTag × Bytes)
  /-- What the waiters have received. -/
  results : ℕ → Option ProposeResult
  now : ℕ
  lastActivity : ℕ
  /-- The watchdog has seen no activity and is about to take the batch. -/
  armed : Bool

/-- A locked section, or the end of a round. -/
inductive CoalesceEvent where
  /-- The locked section of `coalesce_enqueue`, with the spawn behind it. -/
  | enqueue (payload : Bytes) (tag : Option DedupTag)
  /-- A round ends, and its waiters get the result. -/
  | finish (i : ℕ) (result : ProposeResult)
  /-- `coalesce_drain_after_round` up to its first locked section; `occupied` is read from the
      window of proposals in flight. -/
  | drain (i occupied : ℕ)
  /-- Its second locked section. -/
  | clear (i : ℕ)
  | tick (us : ℕ)
  /-- The watchdog wakes and looks for activity. -/
  | look
  /-- The locked section of the watchdog. -/
  | flush
deriving DecidableEq

namespace Coalescer

variable (s : Coalescer)

/-- The waiters of a dropped or finished batch receive a result. -/
def send (waiters : List ℕ) (result : ProposeResult) : Coalescer :=
  { s with results := fun w => if w ∈ waiters then some result else s.results w }

/-- `coalesce_touch_activity`. -/
def touch : Coalescer := { s with lastActivity := s.now }

/-- A round is spawned and leaves a fresh batch behind. -/
def start (round : CoalesceRound) : Coalescer :=
  { s with rounds := s.rounds ++ [round], pending := some .empty }

/-- Round `i` goes on. -/
def setPhase (i : ℕ) (phase : RoundPhase) : Coalescer :=
  { s with rounds := s.rounds.modify i ({ · with phase := phase }) }

/-- A write arrives. -/
def written (payload : Bytes) (tag : Option DedupTag) : Coalescer :=
  { s.touch with requests := s.requests ++ [(tag, payload)] }

variable (cfg : CoalesceConfig)

/-- `coalesce_enqueue`. -/
def enqueue (s : Coalescer) (payload : Bytes) (tag : Option DedupTag) : Coalescer :=
  let waiter := s.requests.length
  let s := s.written payload tag
  match s.pending with
  | none => s.start ⟨leBytes 2 1 ++ opBody payload, tag.toList, [waiter], .proposing⟩
  | some batch =>
    let batch := batch.join payload tag waiter
    if cfg.maxKeys ≤ batch.opCount then s.start batch.round else { s with pending := some batch }

/-- The first section of the drain; a full window leaves the batch to the overflow. -/
def drain (s : Coalescer) (i : ℕ) (result : ProposeResult) (occupied : ℕ) : Coalescer :=
  let s := s.touch
  if 0 < cfg.drainThreshold ∧ cfg.drainThreshold ≤ occupied then s.setPhase i (.done result)
  else
    match s.pending with
    | none => s.setPhase i (.done result)
    | some batch =>
      let s := { s with pending := some .empty }
      if batch.opCount = 0 then s.setPhase i (.clearing result)
      else (s.setPhase i (.done result)).start batch.round

/-- The second section: the coalescer goes idle, and the senders in its batch are dropped. -/
def clear (i : ℕ) (result : ProposeResult) : Coalescer :=
  let s := s.setPhase i (.done result)
  match s.pending with
  | none => s
  | some batch => { s.send batch.waiters (.err "coalescer round dropped") with pending := none }

/-- The watchdog takes the batch. -/
def flush : Coalescer :=
  let s := { s with armed := false }
  match s.pending with
  | none => s
  | some batch =>
    let s := { s with pending := some .empty }
    if 0 < batch.opCount then s.touch.start batch.round else s

/-- One step. -/
def step (s : Coalescer) : CoalesceEvent → Option Coalescer
  | .enqueue payload tag => some (s.enqueue cfg payload tag)
  | .finish i result =>
    match s.rounds[i]? with
    | some ⟨_, _, waiters, .proposing⟩ => some ((s.setPhase i (.resolved result)).send waiters result)
    | _ => none
  | .drain i occupied =>
    match s.rounds[i]? with
    | some ⟨_, _, _, .resolved result⟩ => some (s.drain cfg i result occupied)
    | _ => none
  | .clear i =>
    match s.rounds[i]? with
    | some ⟨_, _, _, .clearing result⟩ => some (s.clear i result)
    | _ => none
  | .tick us => some { s with now := s.now + us }
  | .look => if s.armed then none else some
      { s with armed := decide (watchdogUs ≤ s.now - s.lastActivity) }
  | .flush => if s.armed then some s.flush else none

/-- Idle. -/
def init : Coalescer := ⟨none, [], [], fun _ => none, 0, 0, false⟩

/-! ## What a step can do -/

/-- The steps of the coalescer, one constructor for each way through a locked section. -/
inductive Steps (cfg : CoalesceConfig) (s : Coalescer) : CoalesceEvent → Coalescer → Prop
  | idle {payload tag} (hpending : s.pending = none) :
    Steps cfg s (.enqueue payload tag) ((s.written payload tag).start
      ⟨leBytes 2 1 ++ opBody payload, tag.toList, [s.requests.length], .proposing⟩)
  | join {payload tag batch} (hpending : s.pending = some batch)
    (hfits : (batch.join payload tag s.requests.length).opCount < cfg.maxKeys) :
    Steps cfg s (.enqueue payload tag)
      { s.written payload tag with pending := some (batch.join payload tag s.requests.length) }
  | overflow {payload tag batch} (hpending : s.pending = some batch)
    (hfull : cfg.maxKeys ≤ (batch.join payload tag s.requests.length).opCount) :
    Steps cfg s (.enqueue payload tag)
      ((s.written payload tag).start (batch.join payload tag s.requests.length).round)
  | finish {i round result} (hround : s.rounds[i]? = some round) (hphase : round.phase = .proposing) :
    Steps cfg s (.finish i result) ((s.setPhase i (.resolved result)).send round.waiters result)
  | leave {i round result occupied} (hround : s.rounds[i]? = some round)
      (hphase : round.phase = .resolved result) :
    Steps cfg s (.drain i occupied) (s.touch.setPhase i (.done result))
  | takeEmpty {i round result occupied batch} (hround : s.rounds[i]? = some round)
    (hphase : round.phase = .resolved result) (hpending : s.pending = some batch)
      (hempty : batch.opCount = 0) :
    Steps cfg s (.drain i occupied) ({ s.touch with pending := some .empty }.setPhase i
      (.clearing result))
  | take {i round result occupied batch} (hround : s.rounds[i]? = some round)
    (hphase : round.phase = .resolved result) (hpending : s.pending = some batch) :
    Steps cfg s (.drain i occupied) ((s.touch.setPhase i (.done result)).start batch.round)
  | reset {i round result} (hround : s.rounds[i]? = some round)
      (hphase : round.phase = .clearing result)
    (hpending : s.pending = none) : Steps cfg s (.clear i) (s.setPhase i (.done result))
  | drop {i round result batch} (hround : s.rounds[i]? = some round)
      (hphase : round.phase = .clearing result)
    (hpending : s.pending = some batch) :
    Steps cfg s (.clear i)
      { (s.setPhase i (.done result)).send batch.waiters (.err
        "coalescer round dropped") with pending := none }
  | tick {us} : Steps cfg s (.tick us) { s with now := s.now + us }
  | look : Steps cfg s .look { s with armed := decide (watchdogUs ≤ s.now - s.lastActivity) }
  | rest (hpending : s.pending = none) : Steps cfg s .flush { s with armed := false }
  | restEmpty {batch} (hpending : s.pending = some batch) (hempty : batch.opCount = 0) :
    Steps cfg s .flush { s with armed := false, pending := some .empty }
  | rescue {batch} (hpending : s.pending = some batch) :
    Steps cfg s .flush ({ s.touch with armed := false }.start batch.round)

variable {cfg : CoalesceConfig} {s s' : Coalescer} {e : CoalesceEvent} {result : ProposeResult}
  {round : CoalesceRound}

theorem steps_enqueue (payload : Bytes) (tag : Option DedupTag) :
    Steps cfg s (.enqueue payload tag) (s.enqueue cfg payload tag) := by
  cases hpending : s.pending with
  | none =>
    have heq : s.enqueue cfg payload tag = (s.written payload tag).start
        ⟨leBytes 2 1 ++ opBody payload, tag.toList, [s.requests.length], .proposing⟩ := by
      simp [enqueue, written, touch, hpending]
    rw [heq]
    exact .idle hpending
  | some batch =>
    by_cases hfull : cfg.maxKeys ≤ (batch.join payload tag s.requests.length).opCount
    · have heq : s.enqueue cfg payload tag =
          (s.written payload tag).start (batch.join payload tag s.requests.length).round := by
        simp [enqueue, written, touch, hpending, hfull]
      rw [heq]
      exact .overflow hpending hfull
    · have heq : s.enqueue cfg payload tag =
          { s.written payload tag with pending := some (batch.join payload tag
            s.requests.length) } := by
        simp [enqueue, written, touch, hpending, hfull]
      rw [heq]
      exact .join hpending (not_le.1 hfull)

theorem steps_drain {i : ℕ} (occupied : ℕ)
    (hround : s.rounds[i]? = some round) (hphase : round.phase = .resolved result) :
    Steps cfg s (.drain i occupied) (s.drain cfg i result occupied) := by
  by_cases hfull : 0 < cfg.drainThreshold ∧ cfg.drainThreshold ≤ occupied
  · rw [drain, if_pos hfull]
    exact .leave hround hphase
  cases hpending : s.pending with
  | none =>
    have heq : s.drain cfg i result occupied = s.touch.setPhase i (.done result) := by
      simp [drain, hfull, touch, hpending]
    rw [heq]
    exact .leave hround hphase
  | some batch =>
    by_cases hempty : batch.opCount = 0
    · have heq : s.drain cfg i result occupied =
          { s.touch with pending := some .empty }.setPhase i (.clearing result) := by
        simp [drain, hfull, touch, hpending, hempty]
      rw [heq]
      exact .takeEmpty hround hphase hpending hempty
    · have heq : s.drain cfg i result occupied =
        (s.touch.setPhase i (.done result)).start batch.round := by
        simp [drain, hfull, touch, hpending, hempty, setPhase, start]
      rw [heq]
      exact .take hround hphase hpending

theorem steps_clear {i : ℕ}
    (hround : s.rounds[i]? = some round) (hphase : round.phase = .clearing result) :
    Steps cfg s (.clear i) (s.clear i result) := by
  cases hpending : s.pending with
  | none =>
    have heq : s.clear i result = s.setPhase i (.done result) := by simp [clear, setPhase, hpending]
    rw [heq]
    exact .reset hround hphase hpending
  | some batch =>
    have heq : s.clear i result =
        { (s.setPhase i (.done result)).send batch.waiters (.err
          "coalescer round dropped") with pending := none } := by
      simp [clear, setPhase, hpending]
    rw [heq]
    exact .drop hround hphase hpending

theorem steps_flush : Steps cfg s .flush s.flush := by
  cases hpending : s.pending with
  | none =>
    have heq : s.flush = { s with armed := false } := by simp [flush, hpending]
    rw [heq]
    exact .rest hpending
  | some batch =>
    by_cases hempty : batch.opCount = 0
    · have heq : s.flush = { s with armed := false, pending := some .empty } := by simp [flush,
        hpending, hempty]
      rw [heq]
      exact .restEmpty hpending hempty
    · have heq : s.flush = { s.touch with armed := false }.start batch.round := by
        simp [flush, hpending, Nat.pos_of_ne_zero hempty, touch, start]
      rw [heq]
      exact .rescue hpending

theorem steps_of_step (h : step cfg s e = some s') : Steps cfg s e s' := by
  cases e with
  | enqueue payload tag =>
    cases h
    exact steps_enqueue payload tag
  | finish =>
    simp only [step] at h
    split at h
    · cases h
      exact .finish ‹_› rfl
    · cases h
  | drain i occupied =>
    simp only [step] at h
    split at h
    · cases h
      exact steps_drain occupied ‹_› rfl
    · cases h
  | clear =>
    simp only [step] at h
    split at h
    · cases h
      exact steps_clear ‹_› rfl
    · cases h
  | tick =>
    cases h
    exact .tick
  | look =>
    simp only [step] at h
    split at h
    · cases h
    · cases h
      exact .look
  | flush =>
    simp only [step] at h
    split at h
    · cases h
      exact steps_flush
    · cases h

end Coalescer

end CrowDB.Kv
