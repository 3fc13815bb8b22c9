/-
  Agreement of a group that does not crash.

  The votes of a slot are a consistent voting history (`Lib.Voting`) with the round-`0` ballots as
  the fast ones, as long as no round-`0` `Accept` of a slot carries another payload than those sent
  before (`FastAcceptsAgree`).

  Round `0` is used by every leader in every term, at the ballot `(0, leader_id)`, so without the
  condition a payload chosen by a later leader with a lower id can lose against an unchosen one:
  `agreement_fails_across_leaders`.
-/
import CrowDB.Cluster.Ballots
import CrowDB.Lib.Voting

namespace CrowDB

open Lib Finset

instance : WellFoundedLT PxBallot where
  wf := by
    refine Subrelation.wf (r := InvImage (Prod.Lex (· < ·) (· < ·)) fun b => (b.round, b.leaderId))
      (fun {a b} h => ?_) (InvImage.wf _ (Prod.lex Nat.lt_wfRel Nat.lt_wfRel).wf)
    rcases PxBallot.lt_def.mp h with h | ⟨h, h'⟩
    · exact .left _ _ h
    · exact Prod.lex_def.mpr (.inr ⟨h, h'⟩)

/-! ## Votes -/

/-- The accepted entry of a slot is the highest the replica ever accepted, and a promise reports the
    highest below its ballot. -/
structure VoteInv (E : Set Effect) (r : Replica) : Prop where
  voted_accepted : ∀ {slot e}, r.acceptor.acceptedAt slot = some e → .voted e ∈ E
  le_accepted : ∀ {e}, .voted e ∈ E → ∃ e' ∈ r.acceptor.acceptedAt e.slot, e.ballot ≤ e'.ballot
  /-- a report names the highest entry accepted below its ballot -/
  le_report : ∀ {req acc e}, Reported E r (req, acc) → .voted e ∈ E → e.slot = req.slot →
    e.ballot < req.ballot → ∃ e' ∈ acc, e.ballot ≤ e'.ballot
  voted_report : ∀ {req e}, Reported E r (req, some e) →
    .voted e ∈ E ∧ e.slot = req.slot ∧ (1 ≤ req.ballot.round → e.ballot < req.ballot)
  voted_gap : ∀ {follower e}, .send (.fetchGapReply follower e) ∈ E → .voted e ∈ E
  voted_pending : ∀ a ∈ r.pending, ∀ {req}, a.next = .acceptReply req → .voted req.entry ∈ E
  /-- an acknowledged entry was accepted -/
  voted_ack : ∀ {req slot b}, .send (.acceptReply req (.accepted slot b)) ∈ E → .voted req.entry ∈ E

variable {req : AcceptRequest}

namespace AcceptorMove

variable {H : List (ℕ × Effect)} {E : Set Effect} {r : Replica} {o : Outcome}
  {e : PxLogEntry} {slot : ℕ}

variable (h : AcceptorMove H r o)
include h

theorem voted (he : .voted e ∈ o.2) :
    (r.acceptor.nodes e.slot).promisedBallot ≤ e.ballot ∧ o.1.acceptor.acceptedAt e.slot = some e ∧
      ((∃ p req, (p, Effect.send (.accept req)) ∈ H ∧ req.entry = e) ∨
        ∃ p follower, (p, Effect.send (.fetchGapReply follower e)) ∈ H) := by
  cases h with
  | quiet _ _ _ houts => simpa [Effect.acceptorIdle] using houts _ he
  | sendGap _ _ _ ho => simp [ho] at he
  | appended _ _ _ _ _ houts =>
    rcases houts _ he with hi | ⟨req, acc, -, heq⟩ | ⟨req, -, heq⟩
    · simp [Effect.acceptorIdle] at hi
    · simp at heq
    · simp at heq
  | promise _ _ _ _ _ _ _ houts => simp [houts] at he
  | vote entry hle _ haccepted _ _ _ _ houts hsent =>
    rcases houts _ he with heq | ⟨req, -, heq⟩
    · obtain rfl : e = entry := by simpa using heq
      exact ⟨hle, haccepted, hsent⟩
    · simp at heq

theorem acceptedAt_cases (slot : ℕ) :
    o.1.acceptor.acceptedAt slot = r.acceptor.acceptedAt slot ∨
      ∃ e, e.slot = slot ∧ .voted e ∈ o.2 ∧ o.1.acceptor.acceptedAt slot = some e := by
  unfold PxAcceptor.acceptedAt
  cases h with
  | quiet hnodes => exact .inl (by rw [hnodes])
  | sendGap _ _ _ ho => exact .inl (by rw [ho])
  | appended _ _ hnodes => exact .inl (by rw [hnodes])
  | promise req _ _ haccepted hother =>
    left
    by_cases hs : slot = req.slot
    · rw [hs, haccepted]
    · rw [hother slot hs]
  | vote entry _ _ haccepted hother _ _ hvoted =>
    by_cases hs : slot = entry.slot
    · exact .inr ⟨entry, hs.symm, hvoted, hs ▸ haccepted⟩
    · exact .inl (by rw [hother slot hs])

theorem gapReply {follower : ℕ} (he : .send (.fetchGapReply follower e) ∈ o.2) :
    ∃ slot, r.acceptor.acceptedAt slot = some e := by
  cases h with
  | quiet _ _ _ houts => simpa [Effect.acceptorIdle] using houts _ he
  | sendGap follower' slot entry ho hentry =>
    obtain ⟨-, rfl⟩ : follower = follower' ∧ e = entry := by simpa [ho] using he
    exact ⟨slot, hentry⟩
  | appended _ _ _ _ _ houts =>
    rcases houts _ he with hi | ⟨req, acc, -, heq⟩ | ⟨req, -, heq⟩
    · simp [Effect.acceptorIdle] at hi
    · simp at heq
    · simp at heq
  | promise _ _ _ _ _ _ _ houts => simp [houts] at he
  | vote _ _ _ _ _ _ _ _ houts =>
    rcases houts _ he with heq | ⟨req, -, heq⟩
    · simp at heq
    · simp at heq

theorem pending_accept {a : Append} (ha : a ∈ o.1.pending) (hnext : a.next = .acceptReply req) :
    a ∈ r.pending ∨ .voted req.entry ∈ o.2 ∧ ∃ p, (p, Effect.send (.accept req)) ∈ H := by
  cases h with
  | quiet _ _ hpending =>
    exact (hpending a ha).imp_right fun hi => by simp [Append.idle, hnext] at hi
  | sendGap _ _ _ ho =>
    subst ho
    exact .inl ha
  | appended _ _ _ _ hpending => exact .inl (hpending a ha)
  | promise _ _ _ _ _ _ hpending =>
    rw [hpending] at ha
    rcases List.mem_append.mp ha with ha | ha
    · exact .inl ha
    · obtain rfl := List.mem_singleton.mp ha
      simp at hnext
  | vote _ _ _ _ _ _ hpending hvoted =>
    rcases hpending a ha with ha | ⟨req', hnext', rfl, hsent⟩
    · exact .inl ha
    · obtain rfl : req = req' := by simpa [hnext] using hnext'
      exact .inr ⟨hvoted, hsent⟩

theorem acked {b : PxBallot}
    (he : .send (.acceptReply req (.accepted slot b)) ∈ o.2) :
    .voted req.entry ∈ o.2 ∨ ∃ a ∈ r.pending, a.next = .acceptReply req := by
  cases h with
  | quiet _ _ _ houts => simpa [Effect.acceptorIdle] using houts _ he
  | sendGap _ _ _ ho => simp [ho] at he
  | appended a ha _ _ _ houts =>
    rcases houts _ he with hi | ⟨req', acc, -, heq⟩ | ⟨req', hnext, heq⟩
    · simp [Effect.acceptorIdle] at hi
    · simp at heq
    · obtain ⟨rfl, -⟩ : req = req' ∧ _ := by simpa using heq
      exact .inr ⟨a, ha, hnext⟩
  | promise _ _ _ _ _ _ _ houts => simp [houts] at he
  | vote _ _ _ _ _ _ _ hvoted houts =>
    rcases houts _ he with heq | ⟨req', rfl, heq⟩
    · simp at heq
    · obtain ⟨rfl, -⟩ : req = req' ∧ _ := by simpa using heq
      exact .inl hvoted

theorem voteInv (hp : PromiseInv E r) (hinv : VoteInv E r) :
    VoteInv (E ∪ {e | e ∈ o.2}) o.1 where
  voted_accepted {slot e} ha := by
    rcases h.acceptedAt_cases slot with hc | ⟨e', -, hv, hc⟩
    · exact .inl (hinv.voted_accepted (hc ▸ ha))
    · obtain rfl : e' = e := by simpa [hc] using ha
      exact .inr hv
  le_accepted {e} he := by
    rcases he with he | he
    · obtain ⟨e', ha', hle⟩ := hinv.le_accepted he
      rcases h.acceptedAt_cases e.slot with hc | ⟨e'', hs, hv, hc⟩
      · exact ⟨e', hc ▸ ha', hle⟩
      · -- the entry replaced was at or below the promise, the new one is not below it
        have hle' : e'.ballot ≤ (r.acceptor.nodes e.slot).promisedBallot :=
          (r.acceptor.nodes e.slot).accepted_le e' ha'
        exact ⟨e'', hc, hle.trans (hle'.trans (hs ▸ (h.voted hv).1))⟩
    · exact ⟨e, (h.voted he).2.1, le_rfl⟩
  le_report {req acc e} hr he hslot hlt := by
    rcases h.reported hr with hr | hnew
    · rcases he with he | he
      · exact hinv.le_report hr he hslot hlt
      · -- an entry accepted now is not below a promise made before
        have hle := (hp.promised hr).trans (hslot ▸ (h.voted he).1)
        exact absurd hlt hle.not_gt
    · rcases he with he | he
      · obtain ⟨e', ha', hle⟩ := hinv.le_accepted he
        exact ⟨e', hnew.accepted ▸ hslot ▸ ha', hle⟩
      · simp [hnew.outs] at he
  voted_report {req e} hr := by
    rcases h.reported hr with hr | hnew
    · obtain ⟨hv, hrest⟩ := hinv.voted_report hr
      exact ⟨.inl hv, hrest⟩
    · have ha := hnew.accepted.symm
      refine ⟨.inl (hinv.voted_accepted ha), r.acceptor.slot_eq _ e ha, fun hround => ?_⟩
      have hle : e.ballot ≤ (r.acceptor.nodes req.slot).promisedBallot :=
        (r.acceptor.nodes req.slot).accepted_le e ha
      exact hle.trans_lt (PxSlotNode.promisedBallot_lt_of_lt hnew.lt hround)
  voted_gap {follower e} he := by
    rcases he with he | he
    · exact .inl (hinv.voted_gap he)
    · obtain ⟨slot, ha⟩ := h.gapReply he
      exact .inl (hinv.voted_accepted ha)
  voted_pending a ha {req} hnext := by
    rcases h.pending_accept ha hnext with ha | ⟨hv, -⟩
    · exact .inl (hinv.voted_pending a ha hnext)
    · exact .inr hv
  voted_ack {req slot b} he := by
    rcases he with he | he
    · exact .inl (hinv.voted_ack he)
    · rcases h.acked he with hv | ⟨a, ha, hnext⟩
      · exact .inr hv
      · exact .inl (hinv.voted_pending a ha hnext)

end AcceptorMove

/-! ## The group without restarts -/

namespace GroupState

variable {cfg : GroupConfig} {s s' : GroupState} {e : GroupEvent} {m slot : ℕ} {entry : PxLogEntry}
  {b : PxBallot}
  {v : Bytes}

theorem mem_votes : (m, entry) ∈ s.votes ↔ (m, Effect.voted entry) ∈ s.history := by
  unfold votes
  rw [List.mem_filterMap]
  constructor
  · rintro ⟨⟨n, e⟩, hp, he⟩
    split at he
    · next entry' heq =>
      obtain ⟨rfl, rfl⟩ := Prod.mk.inj (Option.some.inj he)
      simpa [← heq] using hp
    · simp at he
  · intro hm
    exact ⟨_, hm, rfl⟩

/-- What holds of the acceptors and proposers of a group that does not crash. -/
structure PaxosInv (cfg : GroupConfig) (s : GroupState) : Prop where
  promise : ∀ m, PromiseInv (s.effects m) (s.replicas m)
  proposer : s.ProposersInv cfg
  vote : ∀ m, VoteInv (s.effects m) (s.replicas m)
  /-- every entry accepted was sent in an `Accept`, also if it came as a gap reply -/
  voted_sent : ∀ {m entry}, (m, Effect.voted entry) ∈ s.history → ∃ req ∈ s.accepts, req.entry = entry

theorem PaxosInv.init : PaxosInv cfg .init where
  promise := promiseInv_of_reach (.refl : Reach (groupStep cfg) anyStep _ _)
  proposer := proposersInv_of_reach (.refl : Reach (groupStep cfg) anyStep _ _)
  vote m := by
    have hnone : ∀ {p}, ¬ Reported (GroupState.init.effects m) (GroupState.init.replicas m) p := by
      rintro p (⟨e, he, -⟩ | ⟨a, ha, -⟩)
      · simp [GroupState.init] at he
      · simp [GroupState.init, Replica.new] at ha
    have hempty : ∀ e, e ∉ GroupState.init.effects m := by simp [GroupState.init]
    refine ⟨fun {slot e} ha => ?_, fun he => absurd he (hempty _), fun hr => absurd hr hnone,
      fun hr => absurd hr hnone, fun he => absurd he (hempty _), fun a ha => ?_,
      fun he => absurd he (hempty _)⟩
    · simp [GroupState.init, Replica.new, PxAcceptor.acceptedAt, PxAcceptor.new, PxSlotNode.new] at ha
    · simp [GroupState.init, Replica.new] at ha
  voted_sent h := by simp [GroupState.init] at h

theorem PaxosInv.step (hinv : PaxosInv cfg s) (he : e.isRestart = false)
    (h : groupStep cfg s e = some s') : PaxosInv cfg s' := by
  have hpromise := promiseInv_step hinv.promise h
  have hproposer := proposersInv_step hinv.proposer h
  obtain ⟨o, hstep, rfl⟩ := replicaStep_of_groupStep he h
  have hmove := hstep.acceptorMove
  refine ⟨hpromise, hproposer, ?_, fun {m entry} hm => ?_⟩
  · exact forall_after hinv.vote (hmove.voteInv (hinv.promise _) (hinv.vote _))
  · -- an `Accept` sent before counts after the step too
    have hold : (∃ req ∈ s.accepts, req.entry = entry) →
      ∃ req ∈ (s.after e.replica o).accepts, req.entry = entry := by
      rintro ⟨req, hreq, rfl⟩
      exact ⟨req, mem_accepts_after.mpr (.inl hreq), rfl⟩
    rcases mem_history_after.mp hm with hm | ⟨-, hm⟩
    · exact hold (hinv.voted_sent hm)
    · obtain ⟨-, -, ⟨p, req, hreq, rfl⟩ | ⟨p, follower, hgap⟩⟩ := hmove.voted hm
      · exact hold ⟨req, mem_accepts.mpr ⟨p, hreq⟩, rfl⟩
      · exact hold (hinv.voted_sent ((hinv.vote p).voted_gap hgap))

/-! ## Fast proposals -/

/-- Slot and payload of the round-`0` `Accept` that a client proposal starts with. -/
def fastAccept (cfg : GroupConfig) (s : GroupState) : GroupEvent → Option (ℕ × Bytes)
  | .act n (.start k) =>
    match (s.replicas n).attempts k with
    | some ⟨.propose payload _ _ _, .assigned slot⟩ =>
      if cfg.forceClassic then none else some (slot, payload)
    | _ => none
  | _ => none

/-- The event does not send a round-`0` `Accept` for a slot for which one with another
    payload was sent before. -/
def FastAcceptsAgree (cfg : GroupConfig) (s : GroupState) (e : GroupEvent) : Prop :=
  ∀ p ∈ s.fastAccept cfg e, ∀ req ∈ s.accepts, req.entry.slot = p.1 →
    req.entry.ballot.round = 0 → req.entry.payload = p.2
deriving Decidable

/-- All round-`0` `Accept` requests of a slot carry one payload. -/
def OneFastPayload (s : GroupState) : Prop :=
  ∀ req ∈ s.accepts, ∀ req' ∈ s.accepts, req.entry.slot = req'.entry.slot →
    req.entry.ballot.round = 0 → req'.entry.ballot.round = 0 → req.entry.payload = req'.entry.payload

theorem fastAccept_of_sent {o : Outcome}
    (hmove : ProposerMove cfg e.replica e s.history (s.replicas e.replica) o)
    (hinv : s.ProposersInv cfg) (hreq : .send (.accept req) ∈ o.2)
    (hround : req.entry.ballot.round = 0) :
    s.fastAccept cfg e = some (req.entry.slot, req.entry.payload) := by
  cases hmove with
  | quiet _ houts => simpa [Effect.isRequest] using houts _ hreq
  | acceptZero k slot payload tags _ _ hev hclassic hk _ _ houts =>
    obtain rfl : req = ⟨e.replica, k,
      (s.replicas e.replica).baseEntry e.replica slot payload, tags⟩ := by
      simpa [houts] using hreq
    rw [hev]
    simp only [fastAccept, hk, hclassic]
    rfl
  | acceptPrepared k job entry entry' foreign replies hev hk hna hslot hballot hquorum hadopted hatt
      houts =>
    -- an attempt in Phase 1 is above round `0`
    obtain rfl : req = ⟨e.replica, k, entry', job.tags⟩ := by simpa [houts] using hreq
    have hpos := ((hinv _).gathered hk).round_pos
    rw [← hballot] at hpos
    exact absurd hround (Nat.one_le_iff_ne_zero.mp hpos)
  | prepare | reply | ack => rename_i houts; simp [houts] at hreq

theorem OneFastPayload.step (hone : s.OneFastPayload) (hinv : s.ProposersInv cfg)
    (he : e.isRestart = false) (hok : s.FastAcceptsAgree cfg e) (h : groupStep cfg s e = some s') :
    s'.OneFastPayload := by
  obtain ⟨o, hstep, rfl⟩ := replicaStep_of_groupStep he h
  have hmove := hstep.proposerMove
  intro req hreq req' hreq' hslot hround hround'
  rcases mem_accepts_after.mp hreq with hreq | hreq <;>
    rcases mem_accepts_after.mp hreq' with hreq' | hreq'
  · exact hone req hreq req' hreq' hslot hround hround'
  · exact hok _ (fastAccept_of_sent hmove hinv hreq' hround') req hreq hslot hround
  · exact (hok _ (fastAccept_of_sent hmove hinv hreq hround) req' hreq' hslot.symm hround').symm
  · have hfast := fastAccept_of_sent hmove hinv hreq hround
    rw [fastAccept_of_sent hmove hinv hreq' hround'] at hfast
    exact (Prod.mk.inj (Option.some.inj hfast)).2.symm

/-! ## Agreement -/

/-- The votes and proposals of a slot. -/
def voting (s : GroupState) (slot : ℕ) : VotingHistory ℕ PxBallot Bytes where
  vote n b v := s.VotedAt n slot b v
  proposed b v := ∃ req ∈ s.accepts, req.entry.slot = slot ∧ req.entry.ballot = b ∧
    req.entry.payload = v

theorem chosenAt_iff : s.ChosenAt cfg slot b v ↔ (s.voting slot).ChosenAt cfg.voters b v := by
  constructor
  · intro h
    exact ⟨_, ⟨filter_subset .., h⟩, fun n hn => (mem_filter.mp hn).2⟩
  · rintro ⟨Q, hQ, hv⟩
    refine hQ.le_card.trans (card_le_card fun n hn => ?_)
    exact mem_filter.mpr ⟨hQ.subset hn, hv n hn⟩

theorem PaxosInv.le_report (hinv : PaxosInv cfg s) {req : PrepareRequest} {acc : Option PxLogEntry}
    (hr : (m, Effect.send (.prepareReply req (.promised slot acc))) ∈ s.history)
    (hv : s.VotedAt m req.slot b v) (hlt : b < req.ballot) :
    ∃ e ∈ acc, b ≤ e.ballot := by
  obtain ⟨⟨m', e⟩, hmem, rfl, hs, rfl, rfl⟩ := hv
  exact (hinv.vote m').le_report (reported_of_mem hr) (mem_votes.mp hmem) hs hlt

/-- A payload sent after Phase 1 is safe: it is the one reported at the highest ballot. -/
theorem PaxosInv.safeAt (hinv : PaxosInv cfg s)
    {replies : List (ℕ × PxPrepareReply)} (hp : Prepared cfg s.history req entry replies) :
    (s.voting req.entry.slot).SafeAt cfg.voters req.entry.ballot req.entry.payload := by
  obtain ⟨Q, hQ, hmem⟩ := hp.exists_quorum
  refine ⟨Q, hQ, ?_⟩
  rw [hp.slot, hp.ballot]
  cases hadopted : (ReplyFold.ofPrepare cfg req.proposer replies).adopted with
  | none =>
    -- nobody in the quorum has accepted anything below the ballot
    left
    intro m hm b v hv
    by_contra hlt
    obtain ⟨slot, acc, hr⟩ := hmem m hm
    obtain ⟨e, he, -⟩ := hinv.le_report (hp.sent _ hr) hv (not_le.mp hlt)
    obtain rfl : acc = some e := he
    obtain ⟨prev, hprev, -⟩ := ReplyFold.le_adopted cfg req.proposer hr
    simp [hadopted] at hprev
  | some prev =>
    right
    obtain ⟨m₀, slot₀, hr₀⟩ := ReplyFold.adopted_mem hadopted
    obtain ⟨hvoted, hslot, hlt⟩ := (hinv.vote m₀).voted_report (reported_of_mem (hp.sent _ hr₀))
    obtain ⟨req₀, hreq₀, rfl⟩ := hinv.voted_sent hvoted
    refine ⟨req₀.entry.ballot, hlt hp.round_pos,
      ⟨req₀, hreq₀, hslot, rfl, (hp.adopted _ hadopted).symm⟩, fun m hm b v hv hb => ?_⟩
    obtain ⟨slot, acc, hr⟩ := hmem m hm
    obtain ⟨e, he, hle⟩ := hinv.le_report (hp.sent _ hr) hv hb
    obtain rfl : acc = some e := he
    obtain ⟨prev, hprev, hle'⟩ := ReplyFold.le_adopted cfg req.proposer hr
    obtain rfl : req₀.entry = prev := by simpa [hadopted] using hprev
    exact hle.trans hle'

theorem PaxosInv.consistent (hinv : PaxosInv cfg s) (hfast : s.OneFastPayload) (slot : ℕ) :
    (s.voting slot).Consistent cfg.voters fun b => b.round = 0 where
  vote_proposed := by
    rintro n b v ⟨⟨n', e⟩, hmem, rfl, hs, rfl, rfl⟩
    obtain ⟨req, hreq, rfl⟩ := hinv.voted_sent (mem_votes.mp hmem)
    exact ⟨req, hreq, hs, rfl, rfl⟩
  one_value := by
    rintro b v v' ⟨req, hreq, hs, rfl, rfl⟩ ⟨req', hreq', hs', hb, rfl⟩
    by_cases hround : req.entry.ballot.round = 0
    · exact hfast req hreq req' hreq' (hs.trans hs'.symm) hround (hb ▸ hround)
    · rw [accept_eq_of_prepared hinv.promise hinv.proposer hreq hreq' (hs.trans hs'.symm) hb.symm
        (Nat.one_le_iff_ne_zero.mpr hround)]
  safe := by
    rintro b v ⟨req, hreq, rfl, rfl, rfl⟩ hround
    obtain ⟨n, hn⟩ := mem_accepts.mp hreq
    rcases (hinv.proposer n).evidence hn with hb | ⟨entry, replies, hp⟩
    · exact absurd (by rw [hb]) hround
    · exact hinv.safeAt hp
  fast_agree := by
    rintro b b' v v' hb hb' ⟨req, hreq, hs, rfl, rfl⟩ ⟨req', hreq', hs', rfl, rfl⟩
    exact hfast req hreq req' hreq' (hs.trans hs'.symm) hb hb'
  fast_lt {b b'} hb hb' := PxBallot.lt_def.mpr (.inl (hb ▸ Nat.pos_of_ne_zero hb'))

theorem PaxosInv.chosen_eq (hinv : PaxosInv cfg s) (hfast : s.OneFastPayload)
    {v' : Bytes} (hv : s.Chosen cfg slot v) (hv' : s.Chosen cfg slot v') : v = v' := by
  obtain ⟨b, hb⟩ := hv
  obtain ⟨b', hb'⟩ := hv'
  exact (hinv.consistent hfast slot).agreement (chosenAt_iff.mp hb) (chosenAt_iff.mp hb')

/-- The steps of a run without crashes in which fast proposals of one slot agree. -/
def FastSafe (cfg : GroupConfig) (s : GroupState) (e : GroupEvent) : Prop :=
  e.isRestart = false ∧ s.FastAcceptsAgree cfg e
deriving Decidable

theorem inv_of_reach (h : Reach (groupStep cfg) (FastSafe cfg) .init s) :
    PaxosInv cfg s ∧ s.OneFastPayload := by
  refine Reach.invariant (P := fun s => PaxosInv cfg s ∧ s.OneFastPayload)
    ⟨PaxosInv.init, by simp [OneFastPayload, accepts, GroupState.init]⟩ (fun hinv hok hs => ?_) h
  exact ⟨hinv.1.step hok.1 hs, hinv.2.step hinv.1.proposer hok.1 hok.2 hs⟩

/-- **Agreement**: without conflicting fast proposals, a slot has one chosen payload. -/
theorem chosen_eq_of_reach (h : Reach (groupStep cfg) (FastSafe cfg) .init s) {slot : ℕ}
    {v v' : Bytes} (hv : s.Chosen cfg slot v) (hv' : s.Chosen cfg slot v') : v = v' := by
  obtain ⟨hinv, hfast⟩ := inv_of_reach h
  exact hinv.chosen_eq hfast hv hv'

/-- The leader's proposal for slot `1` is chosen by the other replica and itself. -/
theorem chosen_eq_after_one_tenure : ∃ s, Reach (groupStep (defaultGroup 3))
    (FastSafe (defaultGroup 3)) .init s ∧ s.Chosen (defaultGroup 3) 1 [65] ∧
      ∀ v, s.Chosen (defaultGroup 3) 1 v → v = [65] := by
  refine Reach.exists_imp_of_run (fun s => s.ChosenAt (defaultGroup 3) 1 ⟨0, 3⟩ [65])
    (firstWriteRun 3 1 none) (by decide +kernel) fun s hr hs => ?_
  have hc : s.Chosen (defaultGroup 3) 1 [65] := ⟨_, hs⟩
  exact ⟨hc, fun v hv => chosen_eq_of_reach hr hv hc⟩

/-- Leader `3` writes `[65]` to slot `1` at its own replica at `(0, 3)`; `[66]` is chosen there at
    `(0, 1)`; leader `2` recovers the slot from replicas `2` and `3`. -/
def fastConflictRun : List GroupEvent := electionRun 3 1 0 0 0 ++
  [.act 3 (.propose none [65]), .act 3 (.acquire 3), .act 3 (.start 3), .deliver 3 8 true] ++
  electionRun 1 2 11 0 0 ++
  [.act 1 (.propose none [66]), .act 1 (.acquire 3), .act 1 (.start 3), .deliver 1 19 true,
    .deliver 2 19 true] ++
  electionRun 2 3 23 1 0 ++
  [.act 2 (.acquire 2), .act 2 (.start 2), .deliver 2 31 true, .act 2 (.appended 1),
    .deliver 3 31 true, .act 3 (.appended 0), .deliver 2 32 true, .deliver 2 33 true,
    .act 2 (.prepareDone 2), .deliver 2 34 true, .deliver 3 34 true]

/-- Two payloads are chosen at one slot, without a crash. -/
theorem agreement_fails_across_leaders : ∃ s, Reach (groupStep (defaultGroup 3))
    (fun _ e => e.isRestart = false) .init s ∧ s.Chosen (defaultGroup 3) 1 [66] ∧
      s.Chosen (defaultGroup 3) 1 [65] := by
  exact Reach.exists_imp_of_run (fun s => s.ChosenAt (defaultGroup 3) 1 ⟨0, 1⟩ [66] ∧
      s.ChosenAt (defaultGroup 3) 1 ⟨1, 2⟩ [65])
    fastConflictRun (by decide +kernel) fun s _ ⟨h66, h65⟩ => ⟨⟨_, h66⟩, ⟨_, h65⟩⟩

end GroupState

end CrowDB
