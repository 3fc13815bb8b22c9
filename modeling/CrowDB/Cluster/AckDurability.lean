/-
  Positive replies and the records they stand for, when WAL appends may fail
  (`cluster/local_replica_accept.rs`, `cluster/local_replica_election.rs`, `append` of
  `wal/wal_engine.rs`).

  `on_prepare`, `on_accept` and `handle_request_vote` compute their reply, await the append of its
  record, log an error of the append and reply: the task goes on in any case (`appendReturns`).

  `handle_request_vote` writes term and vote under the election lock; `persist_current_vote` reads
  them again after the lock is released, and other handlers may run between the two (`granting`).
-/
import CrowDB.Lib.Lists
import CrowDB.Cluster.Moves

namespace CrowDB

open Lib List Option

/-! ## Replies and their records -/

/-- The record that a positive reply stands for. -/
def Effect.ackRecord : Effect → Option WALRecord
  | .send (.prepareReply req (.promised _ _)) => some (.promised req.term req.slot req.ballot)
  | .send (.acceptReply req (.accepted _ _)) => some (.accepted req.entry)
  | .send (.requestVoteReply req reply) =>
    if reply.granted then some (.voteGranted req.term req.candidateId) else none
  | _ => none

/-- The record of the positive reply that a task gives next. -/
def Continuation.ackRecord : Continuation → Option WALRecord
  | .prepareReply req _ => some (.promised req.term req.slot req.ballot)
  | .acceptReply req => some (.accepted req.entry)
  | .voteReply req _ => some (.voteGranted req.term req.candidateId)
  | .candidacy => none
  | .done => none

/-- What the reply behind the append stands for is what is appended. -/
def Append.Faithful (a : Append) : Prop := ∀ record ∈ a.next.ackRecord, record = a.record

/-! ## One replica and its WAL -/

namespace Replica

/-- The critical section of a vote: term and vote are written. -/
def writeVote (r : Replica) (req : VoteRequest) : Replica := { r with
    currentTerm := req.term
    votedFor := some req.candidateId
    role := .follower
    leaderId := if r.currentTerm < req.term then none else r.leaderId }

/-- `persist_current_vote` reads the term and the vote of the moment. -/
def currentVote (r : Replica) (n : ℕ) : WALRecord := .voteGranted r.currentTerm (r.votedFor.getD n)

/-- The `i`-th append in flight returns an error: it is logged, and the task goes on. -/
def appendFailed (cfg : GroupConfig) (n : ℕ) (r : Replica) (i : ℕ) : Option Outcome :=
  r.pending[i]?.map fun a => continueWith cfg n { r with pending := r.pending.eraseIdx i } a.next

end Replica

/-- A replica, the votes it has granted and not yet persisted, and all its effects. -/
structure ReplyState where
  replica : Replica := .new
  granting : List VoteRequest := []
  history : List Effect := []

/-- A step of the replica, with appends that may fail. -/
inductive ReplyEvent where
  | receive (peer : ℕ) (lockoutExpired : Bool) (m : Msg)
  | act (a : Act)
  | persistCurrentVote (i : ℕ)
  | appendReturns (i : ℕ) (ok : Bool)

namespace ReplyState

variable (cfg : GroupConfig) (n : ℕ) (s : ReplyState)

/-- The state after a step. -/
def after (o : Outcome) : ReplyState := { s with replica := o.1, history := s.history ++ o.2 }

/-- `handle_request_vote` up to the end of its critical section. -/
def requestVote (req : VoteRequest) (lockoutExpired : Bool) : ReplyState :=
  let r := s.replica
  if r.voteTermOk req && r.candidateLogUpToDate req && lockoutExpired then
    { s.after (r.writeVote req, [.supported req.term req.candidateId]) with
      granting := s.granting ++ [req] }
  else s.after (r, [.send (.requestVoteReply req (r.voteReply r.currentTerm false))])

/-- A message of any content, a step of its own, or the return of an append; a restart loses the
    handlers. -/
def step : ReplyEvent → Option ReplyState
  | .receive _ lockoutExpired (.requestVote req) =>
    if n ∈ cfg.votingPeers req.candidateId then some (s.requestVote req lockoutExpired) else none
  | .receive peer lockoutExpired m => (s.replica.receive cfg n peer lockoutExpired m).map s.after
  | .act (.appended _) => none
  | .act (.restart records resumeFrom ok) =>
    (s.replica.restart records resumeFrom ok).map fun o => { s.after o with granting := [] }
  | .act a => (s.replica.act cfg n a).map s.after
  | .persistCurrentVote i => s.granting[i]?.map fun req =>
    { s with
      granting := s.granting.eraseIdx i
      replica := s.replica.addPending (s.replica.currentVote n) (.voteReply req req.term) }
  | .appendReturns i ok =>
    (if ok then s.replica.appended cfg n i else s.replica.appendFailed cfg n i).map s.after

/-- Every positive reply has its record in the WAL. -/
def RepliesDurable : Prop := ∀ e ∈ s.history, ∀ record ∈ e.ackRecord, record ∈ s.replica.wal

/-- No append that a positive reply waits for fails, and a vote is persisted while it stands. -/
def PersistHolds : ReplyEvent → Prop
  | .appendReturns i ok => ∀ a ∈ s.replica.pending[i]?, a.next.ackRecord.isSome → ok = true
  | .persistCurrentVote i => ∀ req ∈ s.granting[i]?,
    s.replica.currentTerm = req.term ∧ s.replica.votedFor = some req.candidateId
  | _ => True

end ReplyState

/-! ## What a step can reply -/

namespace Replica

variable {cfg : GroupConfig} {n : ℕ} {r : Replica} {o : Outcome} {a : Append}

/-- The step replies nothing positive; new appends carry the records of their replies. -/
structure AckQuiet (r : Replica) (o : Outcome) : Prop where
  wal : o.1.wal = r.wal
  pending : ∀ a ∈ o.1.pending, a ∈ r.pending ∨ a.Faithful
  outs : ∀ e ∈ o.2, e.ackRecord = none

theorem ackQuiet_same (hwal : o.1.wal = r.wal) (hpending : o.1.pending = r.pending)
    (houts : ∀ e ∈ o.2, e.ackRecord = none) : AckQuiet r o :=
  ⟨hwal, fun _ ha => .inl (hpending ▸ ha), houts⟩

theorem ackQuiet_append (hwal : o.1.wal = r.wal) (hpending : o.1.pending = r.pending ++ [a])
    (ha : a.Faithful) (houts : ∀ e ∈ o.2, e.ackRecord = none) : AckQuiet r o := by
  refine ⟨hwal, fun b hb => ?_, houts⟩
  rw [hpending] at hb
  rcases mem_append.mp hb with hb | hb
  · exact .inl hb
  · exact .inr (mem_singleton.mp hb ▸ ha)

theorem faithful_of_eq (h : a.next.ackRecord = some a.record ∨ a.next.ackRecord = none) :
    a.Faithful := by
  intro record hr
  rcases h with h | h
  · rw [h] at hr
    exact (some.inj hr).symm
  · rw [h] at hr
    cases hr

end Replica

variable {cfg : GroupConfig} {o : Outcome} {r : Replica} {n : ℕ}

theorem Continued.ackRecord {c : Continuation} (h : Continued cfg n r c o) {e : Effect} (he : e ∈ o.2)
    {record : WALRecord} (hr : record ∈ e.ackRecord) : c.ackRecord = some record := by
  cases h with
  | promised | accepted | granted =>
    obtain rfl := mem_singleton.mp he
    exact hr
  | elected | campaign =>
    simp only [mem_append, mem_ite_nil_right, mem_singleton] at he
    rcases he with ⟨-, rfl⟩ | rfl <;> cases hr
  | done => cases he

open Replica in
/-- **Steps other than the end of an append and the arrival of an `Accept`** reply nothing
    positive. -/
theorem ReplicaStep.ackQuiet {ev : GroupEvent} {H : List (ℕ × Effect)}
    (h : ReplicaStep cfg n ev H r o)
    (hev : ∀ i, ev ≠ .act n (.appended i)) (hH : ∀ p req, (p, Effect.send (.accept req)) ∉ H) :
    AckQuiet r o := by
  cases h with
  | refuseVote _ _ hreply =>
    exact ackQuiet_same rfl rfl (by simp [Effect.ackRecord, hreply])
  | candidate =>
    exact ackQuiet_append rfl rfl (faithful_of_eq (.inr rfl))
      (by simp [becomeCandidate, Effect.ackRecord])
  | grantVote =>
    exact ackQuiet_append rfl rfl (faithful_of_eq (.inl rfl))
      (by simp [Replica.grantVote, Effect.ackRecord])
  | endSlot _ _ _ _ _ hend => cases hend <;> exact ackQuiet_same rfl rfl (by simp)
  | chosen _ _ _ _ _ _ _ _ _ _ _ hpending _ _ _ hend =>
    rcases hpending with rfl | rfl
    · cases hend <;> exact ackQuiet_same rfl rfl (by simp [Effect.ackRecord])
    · cases hend <;> exact ackQuiet_append rfl rfl (faithful_of_eq (.inr rfl))
        (by simp [Effect.ackRecord])
  | promise => exact ackQuiet_append rfl rfl (faithful_of_eq (.inl rfl)) (by simp)
  | vote req peer f hsent | voteEarly req peer f hsent => exact absurd hsent (hH peer req)
  | appended i a c o hi => exact absurd hi (hev i)
  | _ =>
    exact ackQuiet_same rfl rfl
      (by simp [Effect.ackRecord, finalizeLeader, Replica.finishBulk,
        Replica.beginPrepare, beginAccept])

namespace Replica

theorem handleAccept_ackQuiet (hcfg : cfg.earlyAck = false) (r : Replica) (req : AcceptRequest) :
    AckQuiet r (r.handleAccept cfg n req) := by
  unfold handleAccept
  split
  · exact ackQuiet_same rfl rfl (by simp [Effect.ackRecord])
  · obtain ⟨f, hf⟩ := r.fenceTerm_fence req.entry.term
    dsimp only
    rw [hf, PxAcceptor.accept_snd]
    rcases (f.replica.acceptor.nodes req.entry.slot).accept_cases req.entry with
      ⟨p, -, -, hc⟩ | ⟨-, hc⟩
    · rw [hc]
      exact ackQuiet_same rfl rfl (by simp [Effect.ackRecord])
    · rw [hc]
      dsimp only
      rw [if_neg (by simp [hcfg])]
      exact ackQuiet_append rfl rfl (faithful_of_eq (.inl rfl)) (by simp [Effect.ackRecord])

theorem receive_ackQuiet {peer : ℕ} (hcfg : cfg.earlyAck = false) {lockoutExpired : Bool} {m : Msg}
    (h : r.receive cfg n peer lockoutExpired m = some o) : AckQuiet r o := by
  by_cases hm : ∃ req, m = .accept req
  · obtain ⟨req, rfl⟩ := hm
    cases h
    exact r.handleAccept_ackQuiet hcfg req
  · have hstep : ReplicaStep cfg n (.deliver n 0 lockoutExpired) [(peer, .send m)] r o :=
      step_of_receive rfl h
    refine hstep.ackQuiet (by simp) fun p req hmem => hm ⟨req, ?_⟩
    cases mem_singleton.mp hmem
    rfl

theorem act_ackQuiet {a : Act} (happended : ∀ i, a ≠ .appended i)
    (hrestart : ∀ records m ok, a ≠ .restart records m ok) (h : r.act cfg n a = some o) :
    AckQuiet r o := by
  have hstep : ReplicaStep cfg n (.act n a) [] r o := step_of_act hrestart h
  refine hstep.ackQuiet (fun i he => happended i ?_) (by simp)
  cases he
  rfl

end Replica

/-! ## Runs -/

namespace ReplyState

variable {s s' : ReplyState}

/-- Every positive reply is durable, and the appends under way carry the records of the
    replies that wait for them. -/
structure Inv (s : ReplyState) : Prop where
  durable : s.RepliesDurable
  pending : ∀ a ∈ s.replica.pending, a.Faithful

theorem Inv.quiet (h : Inv s) (ho : Replica.AckQuiet s.replica o) : Inv (s.after o) := by
  refine ⟨?_, fun a ha => (ho.pending a ha).elim (h.pending a) id⟩
  intro e he record hr
  show record ∈ o.1.wal
  rw [ho.wal]
  rcases mem_append.mp he with he | he
  · exact h.durable e he record hr
  · rw [ho.outs e he] at hr
    cases hr

theorem Inv.continue (h : Inv s) {i : ℕ} {a : Append} (hi : s.replica.pending[i]? = some a)
    {wal : List WALRecord} (hsub : s.replica.wal ⊆ wal)
    (hrecord : a.next.ackRecord.isSome → a.record ∈ wal) :
    Inv (s.after (Replica.continueWith cfg n
      { s.replica with pending := s.replica.pending.eraseIdx i, wal := wal } a.next)) := by
  set r : Replica := { s.replica with pending := s.replica.pending.eraseIdx i, wal := wal }
  obtain ⟨-, hwal, hpending⟩ := (r.continued cfg n a.next).storage
  constructor
  · intro e he record hrec
    show record ∈ (r.continueWith cfg n a.next).1.wal
    rw [hwal]
    rcases mem_append.mp he with he | he
    · exact hsub (h.durable e he record hrec)
    · have hack := (r.continued cfg n a.next).ackRecord he hrec
      have heq := h.pending a (List.mem_of_getElem? hi) record hack
      rw [heq]
      exact hrecord (by rw [hack]; rfl)
  · intro b hb
    have hb' : b ∈ r.pending := hpending ▸ hb
    exact h.pending b (mem_of_mem_eraseIdx hb')

theorem Inv.requestVote (h : Inv s) (req : VoteRequest) (lockoutExpired : Bool) :
    Inv (s.requestVote req lockoutExpired) := by
  unfold ReplyState.requestVote
  dsimp only
  split
  · have hq : Replica.AckQuiet s.replica (s.replica.writeVote req,
      [.supported req.term req.candidateId]) :=
      Replica.ackQuiet_same rfl rfl (by simp [Effect.ackRecord])
    exact ⟨(h.quiet hq).durable, (h.quiet hq).pending⟩
  · exact h.quiet (Replica.ackQuiet_same rfl rfl (by simp [Effect.ackRecord, Replica.voteReply]))

theorem Inv.restart (h : Inv s) {records : List WALRecord} {resumeFrom : ℕ} {ok : ℕ → Bool}
    (ho : s.replica.restart records resumeFrom ok = some o) :
    Inv { s.after o with granting := [] } := by
  unfold Replica.restart at ho
  split at ho
  · rename_i hperm
    cases ho
    refine ⟨fun e he record hr => ?_, by simp [after, Replica.restoreFromReplay, Replica.new]⟩
    have he' : e ∈ s.history := by simpa [after] using he
    exact (isPerm_iff.mp hperm.1).symm.subset (h.durable e he' record hr)
  · cases ho

/-- **Every step on which the persistence holds** keeps the invariant. -/
theorem Inv.step (hcfg : cfg.earlyAck = false) (h : Inv s) {e : ReplyEvent} (hok : s.PersistHolds e)
    (hs : s.step cfg n e = some s') : Inv s' := by
  cases e with
  | receive peer lockoutExpired m =>
    by_cases hm : ∃ req, m = .requestVote req
    · obtain ⟨req, rfl⟩ := hm
      simp only [ReplyState.step] at hs
      split at hs
      · cases hs
        exact h.requestVote req lockoutExpired
      · cases hs
    · have hstep : s.step cfg n (.receive peer lockoutExpired m) =
          (s.replica.receive cfg n peer lockoutExpired m).map s.after := by
        cases m <;> first | rfl | exact absurd ⟨_, rfl⟩ hm
      rw [hstep] at hs
      obtain ⟨o, ho, rfl⟩ := map_eq_some_iff.mp hs
      exact h.quiet (Replica.receive_ackQuiet hcfg ho)
  | act a =>
    by_cases hre : ∃ records m ok, a = .restart records m ok
    · obtain ⟨records, m, ok, rfl⟩ := hre
      obtain ⟨o, ho, rfl⟩ := map_eq_some_iff.mp hs
      exact h.restart ho
    · by_cases hap : ∃ i, a = .appended i
      · obtain ⟨i, rfl⟩ := hap
        cases hs
      · have hstep : s.step cfg n (.act a) = (s.replica.act cfg n a).map s.after := by
          cases a <;> first | rfl | exact absurd ⟨_, rfl⟩ hap | exact absurd ⟨_, _, _, rfl⟩ hre
        rw [hstep] at hs
        obtain ⟨o, ho, rfl⟩ := map_eq_some_iff.mp hs
        exact h.quiet (Replica.act_ackQuiet (fun i he => hap ⟨i, he⟩)
          (fun records m ok he => hre ⟨records, m, ok, he⟩) ho)
  | persistCurrentVote =>
    obtain ⟨req, hi, rfl⟩ := map_eq_some_iff.mp hs
    obtain ⟨hterm, hvote⟩ := hok req hi
    refine ⟨h.durable, forall_mem_concat h.pending ?_⟩
    refine Replica.faithful_of_eq (.inl ?_)
    simp [Continuation.ackRecord, Replica.currentVote, hterm, hvote, getD_some]
  | appendReturns i ok =>
    obtain ⟨o, ho, rfl⟩ := map_eq_some_iff.mp hs
    cases ok with
    | true =>
      obtain ⟨a, hi, rfl⟩ := map_eq_some_iff.mp ho
      exact h.continue hi (subset_append_left _ _) fun _ => by simp
    | false =>
      obtain ⟨a, hi, rfl⟩ := map_eq_some_iff.mp ho
      exact h.continue hi (List.Subset.refl _) fun hsome => absurd (hok a hi hsome) (by simp)

theorem initial_inv : Inv ({} : ReplyState) := ⟨by simp [RepliesDurable], by simp [Replica.new]⟩

/-- **No positive reply without durability**, with early acknowledgement off: each `Promised`,
    `Accepted` and granted vote has its record in the WAL. -/
theorem replies_durable_of_reach (hcfg : cfg.earlyAck = false)
    (h : Reach (ReplyState.step cfg n) PersistHolds {} s) : s.RepliesDurable :=
  (h.invariant initial_inv fun hi hok hs => hi.step hcfg hok hs).durable

instance (s : ReplyState) (e : ReplyEvent) : Decidable (s.PersistHolds e) := by
  cases e <;> unfold PersistHolds <;> infer_instance

/-- A group that acknowledges late. -/
def lateAckGroup : GroupConfig := { defaultGroup 3 with walEarlyAck := false }

/-- The record of some positive reply of the history is not in the WAL. -/
def replyMissing (s : ReplyState) : Bool :=
  s.history.any fun e => e.ackRecord.any fun record => decide (record ∉ s.replica.wal)

theorem not_repliesDurable (h : s.replyMissing = true) : ¬ s.RepliesDurable := by
  intro hd
  obtain ⟨e, he, hany⟩ := any_eq_true.mp h
  obtain ⟨record, hr, hnot⟩ := (any_eq_true _ _).mp hany
  exact of_decide_eq_true hnot (hd e he record hr)

/-- Replica 2 promises a ballot and votes, and both appends succeed. -/
theorem replies_durable_promise_and_vote :
    ∃ s, Reach (ReplyState.step lateAckGroup 2) PersistHolds {} s ∧ s.replica.wal.length = 2 ∧
      s.RepliesDurable := by
  exact Reach.exists_and_of_run [.receive 1 true (.prepare ⟨1, 0, 1, ⟨1, 1⟩, 1⟩),
    .appendReturns 0 true,
      .receive 3 true (.requestVote ⟨3, 0, 2, 0, 0⟩), .persistCurrentVote 0,
        .appendReturns 0 true] (by decide) fun s hr _ => replies_durable_of_reach rfl hr

/-- A `Promised` goes out although its append failed; and a vote of term 1 whose record is of term
    2, because a heartbeat came between. -/
theorem replies_without_record :
    (∃ s, Reach (ReplyState.step lateAckGroup 2) anyStep {} s ∧ s.replica.wal = [] ∧
      ¬ s.RepliesDurable) ∧
    ∃ s, Reach (ReplyState.step lateAckGroup 2) anyStep {} s ∧
      s.replica.wal = [.voteGranted 2 2] ∧ ¬ s.RepliesDurable := by
  constructor
  · exact Reach.exists_imp_of_run (fun s => s.replica.wal = [] ∧ s.replyMissing)
      [.receive 1 true (.prepare ⟨1, 0, 1, ⟨1, 1⟩, 1⟩), .appendReturns 0 false]
        (by decide) fun s _ ⟨hwal, hmiss⟩ => ⟨hwal, not_repliesDurable hmiss⟩
  · exact Reach.exists_imp_of_run (fun s => s.replica.wal = [.voteGranted 2 2] ∧ s.replyMissing)
      [.receive 1 true (.requestVote ⟨1, 0, 1, 0, 0⟩), .receive 3 true (.heartbeat ⟨2, 3, 0⟩),
        .persistCurrentVote 0, .appendReturns 0 true] (by decide) fun s _ ⟨hwal, hmiss⟩ => ⟨hwal,
          not_repliesDurable hmiss⟩

end ReplyState

end CrowDB
