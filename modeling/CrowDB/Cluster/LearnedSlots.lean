/-
  What the learners of a group that does not crash count as chosen.

  A learner counts a slot as chosen when its own accept phase ends with a quorum, when a notice
  names the ballot of the entry that its acceptor has, and when the answer to a gap request arrives.
  Where the acceptor has the entry then (`LearnsHeld`), it has one at or above a ballot at which the
  slot is chosen (`LearnedInv`), and so are all slots up to the frontier that heartbeats carry.
-/
import CrowDB.Cluster.Agreement

namespace CrowDB

open Lib Finset

/-- The reply is an acceptance. -/
def PxAcceptReply.isAccepted : PxAcceptReply → Bool
  | .accepted _ _ => true
  | _ => false

theorem PxAcceptReply.exists_of_isAccepted {reply : PxAcceptReply}
    (h : reply.isAccepted = true) : ∃ slot b, reply = .accepted slot b := by
  cases reply with
  | accepted slot b => exact ⟨slot, b, rfl⟩
  | rejected => simp [isAccepted] at h
  | termStale => simp [isAccepted] at h

namespace ReplyFold

variable {cfg : GroupConfig} {n : ℕ} {replies : List (ℕ × PxAcceptReply)}

@[simp] theorem ofAccept_concat (m : ℕ) (reply : PxAcceptReply) :
    ofAccept cfg n (replies ++ [(m, reply)]) = (ofAccept cfg n replies).foldAccept cfg n m reply := by
  simp [ofAccept]

theorem ofAccept_accepted : (ofAccept cfg n replies).accepted =
    replies.countP fun p => p.2.isAccepted && decide (p.1 ∈ cfg.voters) := by
  induction replies using List.reverseRecOn with
  | nil => rfl
  | append_singleton _ p ih =>
    obtain ⟨m, reply⟩ := p
    rw [ofAccept_concat, List.countP_append, ← ih]
    cases reply with
    | accepted =>
      by_cases hm : m ∈ cfg.voters <;> simp [foldAccept, weight, hm, PxAcceptReply.isAccepted]
    | rejected => rfl
    | termStale => rfl

end ReplyFold

namespace GroupState

variable {cfg : GroupConfig} {s s' : GroupState} {e : GroupEvent} {n slot : ℕ} {b : PxBallot}
  {v : Bytes} {o : Outcome}
  {entry : PxLogEntry}

/-! ## Chosen payloads -/

theorem votedAt_iff : s.VotedAt n slot b v ↔
    ∃ entry, (n, Effect.voted entry) ∈ s.history ∧ entry.slot = slot ∧ entry.ballot = b ∧
      entry.payload = v := by
  constructor
  · rintro ⟨⟨n', entry⟩, hmem, rfl, h⟩
    exact ⟨entry, mem_votes.mp hmem, h⟩
  · rintro ⟨entry, hmem, h⟩
    exact ⟨(n, entry), mem_votes.mpr hmem, rfl, h⟩

theorem ChosenAt.mono (h : s.ChosenAt cfg slot b v) (hH : s.history ⊆ s'.history) :
    s'.ChosenAt cfg slot b v := by
  refine le_trans h (card_le_card fun n hn => ?_)
  obtain ⟨hn, hv⟩ := mem_filter.mp hn
  obtain ⟨entry, hmem, hentry⟩ := votedAt_iff.mp hv
  exact mem_filter.mpr ⟨hn, votedAt_iff.mpr ⟨entry, hH hmem, hentry⟩⟩

theorem Chosen.after (h : s.Chosen cfg slot v) : (s.after n o).Chosen cfg slot v := by
  obtain ⟨b, hb⟩ := h
  exact ⟨b, hb.mono (List.subset_append_left ..)⟩

theorem PaxosInv.chosenAt_of_acks (hinv : PaxosInv cfg s) {k : ℕ} {job : Job}
    {foreign : Bool} {replies : List (ℕ × PxAcceptReply)}
    (hk : (s.replicas n).attempts k = some ⟨job, .accepting entry foreign replies⟩)
    (hquorum : cfg.quorum ≤ (ReplyFold.ofAccept cfg n replies).accepted) :
    s.ChosenAt cfg entry.slot entry.ballot entry.payload := by
  obtain ⟨-, hack⟩ := (hinv.proposer n).accepting hk
  obtain ⟨Q, hQ, hcard, hmem⟩ :=
    exists_voters_of_countP cfg.voters PxAcceptReply.isAccepted hack.nodup
  rw [ReplyFold.ofAccept_accepted, ← hcard] at hquorum
  refine hquorum.trans (card_le_card fun m hm => ?_)
  obtain ⟨reply, hr, hpos⟩ := hmem m hm
  obtain ⟨slot, b, rfl⟩ := PxAcceptReply.exists_of_isAccepted hpos
  have hvoted := (hinv.vote m).voted_ack (hack.sent _ hr)
  exact mem_filter.mpr ⟨hQ hm, votedAt_iff.mpr ⟨entry, hvoted, rfl, rfl, rfl⟩⟩

/-- The slot is chosen at a ballot at or below `b`. -/
def ChosenUpTo (cfg : GroupConfig) (s : GroupState) (slot : ℕ) (b : PxBallot) : Prop :=
  ∃ p ∈ s.votes, p.2.ballot ≤ b ∧ s.ChosenAt cfg slot p.2.ballot p.2.payload
deriving Decidable

theorem PaxosInv.chosen_of_sent (hinv : PaxosInv cfg s) (hfast : s.OneFastPayload)
    {req : AcceptRequest} (hreq : req ∈ s.accepts) (hslot : req.entry.slot = slot)
    (hchosen : s.ChosenUpTo cfg slot req.entry.ballot) : s.Chosen cfg slot req.entry.payload := by
  obtain ⟨p, -, hle, hc⟩ := hchosen
  have hpayload := (hinv.consistent hfast slot).proposed_eq (chosenAt_iff.mp hc)
    ⟨req, hreq, hslot, rfl, rfl⟩ hle
  exact ⟨_, hpayload ▸ hc⟩

theorem PaxosInv.chosen_of_accepted (hinv : PaxosInv cfg s) (hfast : s.OneFastPayload)
    (hentry : (s.replicas n).acceptor.acceptedAt slot = some entry)
    (hchosen : s.ChosenUpTo cfg slot entry.ballot) : s.Chosen cfg slot entry.payload := by
  have hslot := (s.replicas n).acceptor.slot_eq slot entry hentry
  obtain ⟨req, hreq, rfl⟩ := hinv.voted_sent ((hinv.vote n).voted_accepted hentry)
  exact hinv.chosen_of_sent hfast hreq hslot hchosen

theorem ChosenAt.upTo (h : s.ChosenAt cfg slot b v) : s.ChosenUpTo cfg slot b := by
  obtain ⟨n, hn⟩ := card_pos.1 (Nat.lt_of_lt_of_le (Nat.succ_pos _) h)
  obtain ⟨p, hp, -, -, rfl, rfl⟩ := (mem_filter.1 hn).2
  exact ⟨p, hp, le_rfl, h⟩

theorem ChosenUpTo.mono {b' : PxBallot} (h : s.ChosenUpTo cfg slot b) (hle : b ≤ b') :
    s.ChosenUpTo cfg slot b' := by
  obtain ⟨p, hp, hb, hc⟩ := h
  exact ⟨p, hp, hb.trans hle, hc⟩

theorem ChosenUpTo.after (h : s.ChosenUpTo cfg slot b) : (s.after n o).ChosenUpTo cfg slot b := by
  obtain ⟨p, hp, hb, hc⟩ := h
  refine ⟨p, ?_, hb, hc.mono (List.subset_append_left ..)⟩
  rw [votes, GroupState.after, List.filterMap_append]
  exact List.mem_append_left _ hp

end GroupState

/-! ## Learning -/

/-- The replica has accepted the entry, or one with a higher ballot at its slot. -/
def Replica.Holds (r : Replica) (entry : PxLogEntry) : Prop :=
  ∃ a ∈ r.acceptor.acceptedAt entry.slot, entry.ballot ≤ a.ballot
deriving Decidable

theorem AcceptorMove.held {H : List (ℕ × Effect)} {r : Replica} {o : Outcome} (h : AcceptorMove H r o)
    {slot : ℕ} {a : PxLogEntry} (ha : r.acceptor.acceptedAt slot = some a) :
    ∃ a' ∈ o.1.acceptor.acceptedAt slot, a.ballot ≤ a'.ballot := by
  rcases h.acceptedAt_cases slot with hsame | ⟨a', hslot, hvoted, hnew⟩
  · exact ⟨a, hsame ▸ ha, le_rfl⟩
  · have hle : a.ballot ≤ (r.acceptor.nodes slot).promisedBallot :=
      (r.acceptor.nodes slot).accepted_le a ha
    exact ⟨a', hnew, hle.trans (hslot ▸ (h.voted hvoted).1)⟩

namespace GroupState

/-- The entry for which the event ends an accept phase with a quorum. -/
def chosenEntry (cfg : GroupConfig) (s : GroupState) : GroupEvent → Option PxLogEntry
  | .act n (.acceptDone k _) =>
    match (s.replicas n).attempts k with
    | some ⟨_, .accepting entry _ replies⟩ =>
      if cfg.quorum ≤ (ReplyFold.ofAccept cfg n replies).accepted then some entry else none
    | _ => none
  | _ => none

/-- The slot of the gap request that the event delivers. -/
def gapRequest (s : GroupState) : GroupEvent → Option ℕ
  | .deliver _ i _ =>
    match s.history[i]? with
    | some (_, .send (.fetchGap slot _)) => some slot
    | _ => none
  | _ => none

/-- The entry of the gap reply that the event delivers. -/
def gapEntry (s : GroupState) : GroupEvent → Option PxLogEntry
  | .deliver _ i _ =>
    match s.history[i]? with
    | some (_, .send (.fetchGapReply _ entry)) => some entry
    | _ => none
  | _ => none

/-- What the event counts as chosen its replica has accepted: the entry of an accept phase that ends
    with a quorum, and the entry of a gap reply, which may also be accepted now.  A gap request is
    for a slot that the replica itself counts as chosen. -/
def LearnsHeld (cfg : GroupConfig) (s : GroupState) (e : GroupEvent) : Prop :=
  (∀ entry ∈ s.chosenEntry cfg e, (s.replicas e.replica).Holds entry) ∧
  (∀ slot ∈ s.gapRequest e, (s.replicas e.replica).learner.isChosen slot = true) ∧
  ∀ entry ∈ s.gapEntry e, (s.replicas e.replica).Holds entry ∨
    ((s.replicas e.replica).acceptor.nodes entry.slot).promisedBallot ≤ entry.ballot
deriving Decidable

/-- What a message says about chosen slots is true.  Slots are counted from `1` on. -/
def Supports (cfg : GroupConfig) (s : GroupState) : Effect → Prop
  | .send (.chosenNotice slot _ ballot) => s.ChosenUpTo cfg slot ballot
  | .send (.batchChosen startSlot endSlot _ ballot) =>
    ∀ slot, 0 < slot → startSlot ≤ slot → slot ≤ endSlot → s.ChosenUpTo cfg slot ballot
  | .send (.heartbeat req) => ∀ slot, 0 < slot → slot ≤ req.committedSafeSlot →
      ∃ v, s.Chosen cfg slot v
  | .send (.fetchGapReply _ entry) => 0 < entry.slot → s.ChosenUpTo cfg entry.slot entry.ballot
  | _ => True

/-- What the learners of a group stand for. -/
structure LearnedInv (cfg : GroupConfig) (s : GroupState) : Prop where
  held : ∀ {n slot}, 0 < slot → (s.replicas n).learner.chosen.Mem slot →
    ∃ a ∈ (s.replicas n).acceptor.acceptedAt slot, s.ChosenUpTo cfg slot a.ballot
  committed : ∀ {n slot}, 0 < slot → slot ≤ (s.replicas n).knownCommitSlot →
    ∃ v, s.Chosen cfg slot v
  pass : ∀ {n q}, q ∈ (s.replicas n).applyPass → 0 < q.1
  sent : ∀ {p}, p ∈ s.history → s.Supports cfg p.2

variable {cfg : GroupConfig} {s s' : GroupState} {e : GroupEvent} {n slot : ℕ} {b : PxBallot}
  {o : Outcome} {eff : Effect} {entry : PxLogEntry}

theorem Supports.after (h : s.Supports cfg eff) : (s.after n o).Supports cfg eff := by
  unfold Supports at h ⊢
  split at h
  · exact h.after
  · exact fun slot hpos hstart hend => (h slot hpos hstart hend).after
  · intro slot hpos hle
    obtain ⟨v, hv⟩ := h slot hpos hle
    exact ⟨v, hv.after⟩
  · exact fun hpos => (h hpos).after
  · trivial

theorem supports_of_idle (h : eff.frontierIdle = true) : s.Supports cfg eff := by
  unfold Supports
  split <;> trivial

namespace LearnedInv

theorem init : LearnedInv cfg .init where
  held hpos h := by
    simp [GroupState.init, Replica.new, PxLearner.new, Frontier.Mem, Frontier.upTo] at h
    omega
  committed hpos h := absurd h (Nat.not_le.2 hpos)
  pass := nofun
  sent := nofun

theorem after (h : LearnedInv cfg s)
    (hheld : ∀ slot, 0 < slot → o.1.learner.chosen.Mem slot →
      ∃ a ∈ o.1.acceptor.acceptedAt slot, s.ChosenUpTo cfg slot a.ballot)
    (hcommitted : ∀ slot, 0 < slot → slot ≤ o.1.knownCommitSlot → ∃ v, s.Chosen cfg slot v)
    (hpass : ∀ q ∈ o.1.applyPass, 0 < q.1) (houts : ∀ eff ∈ o.2, s.Supports cfg eff) :
    LearnedInv cfg (s.after n o) where
  held {m slot} hpos hm := by
    obtain ⟨a, ha, hc⟩ := forall_after (P := fun _ _ r => ∀ slot, 0 < slot →
      r.learner.chosen.Mem slot → ∃ a ∈ r.acceptor.acceptedAt slot, s.ChosenUpTo cfg slot a.ballot)
      (fun _ _ hpos hm => h.held hpos hm) hheld m slot hpos hm
    exact ⟨a, ha, hc.after⟩
  committed {m slot} hpos hle := by
    obtain ⟨v, hv⟩ := forall_after (P := fun _ _ r => ∀ slot, 0 < slot → slot ≤ r.knownCommitSlot →
      ∃ v, s.Chosen cfg slot v) (fun _ _ hpos hle => h.committed hpos hle) hcommitted m slot hpos hle
    exact ⟨v, hv.after⟩
  pass {m q} hq := forall_after (P := fun _ _ r => ∀ q ∈ r.applyPass, 0 < q.1)
    (fun _ _ hq => h.pass hq) hpass m q hq
  sent {p} hp := by
    rcases mem_history_after.mp hp with hp | ⟨-, hp⟩
    · exact (h.sent hp).after
    · exact (houts p.2 hp).after

theorem chosen_of_mem (h : LearnedInv cfg s) (hpos : 0 < slot)
    (hmem : (s.replicas n).learner.chosen.Mem slot) : ∃ v, s.Chosen cfg slot v := by
  obtain ⟨-, -, p, -, -, hc⟩ := h.held hpos hmem
  exact ⟨_, _, hc⟩

theorem chosenUpTo_of_noticed (h : LearnedInv cfg s) (hpos : 0 < slot)
    (hnoticed : Noticed s.history slot b) : s.ChosenUpTo cfg slot b := by
  rcases hnoticed with ⟨peer, term, hp⟩ | ⟨peer, startSlot, endSlot, term, hstart, hend, hp⟩
  · exact h.sent hp
  · exact h.sent hp slot hpos hstart hend

theorem step (h : LearnedInv cfg s) (hinv : PaxosInv cfg s) (he : e.isRestart = false)
    (hok : s.LearnsHeld cfg e) (hs : groupStep cfg s e = some s') : LearnedInv cfg s' := by
  obtain ⟨o, hstep, rfl⟩ := replicaStep_of_groupStep he hs
  obtain ⟨hquorumHeld, hasked, hfilled⟩ := hok
  -- what the acceptor has at or above a chosen ballot before the step, it has after it
  have hkeep : ∀ {slot a}, a ∈ (s.replicas e.replica).acceptor.acceptedAt slot →
      s.ChosenUpTo cfg slot a.ballot →
      ∃ a' ∈ o.1.acceptor.acceptedAt slot, s.ChosenUpTo cfg slot a'.ballot := by
    intro slot a ha hc
    obtain ⟨a', ha', hle⟩ := hstep.acceptorMove.held ha
    exact ⟨a', ha', hc.mono hle⟩
  have hold : ∀ slot, 0 < slot → (s.replicas e.replica).learner.chosen.Mem slot →
      ∃ a ∈ o.1.acceptor.acceptedAt slot, s.ChosenUpTo cfg slot a.ballot := by
    intro slot hpos hmem
    obtain ⟨a, ha, hc⟩ := h.held hpos hmem
    exact hkeep ha hc
  have hmark : ∀ slot, 0 < slot → slot ≤ (s.replicas e.replica).learner.contiguousChosen →
      ∃ v, s.Chosen cfg slot v :=
    fun slot hpos hle => h.chosen_of_mem hpos (.inl hle)
  have hpassed : o.1.applyPass = (s.replicas e.replica).applyPass → ∀ q ∈ o.1.applyPass, 0 < q.1 :=
    fun heq q hq => h.pass (heq ▸ hq)
  cases hstep.frontierMove with
  | quiet hchosen hknown hpass houts =>
    exact h.after (hchosen ▸ hold) (fun slot hpos hle => h.committed hpos (hknown ▸ hle))
      (fun q hq => (hpass q hq).elim h.pass id) fun eff heff => supports_of_idle (houts eff heff)
  | commit hchosen hknown hpass houts =>
    refine h.after (hchosen ▸ hold) (fun slot hpos hle => ?_) (hpassed hpass)
      fun eff heff => supports_of_idle (houts eff heff)
    rcases hknown slot hle with hle | hle | ⟨peer, req, hsent, hle⟩
    · exact h.committed hpos hle
    · exact hmark slot hpos hle
    · exact h.sent hsent slot hpos hle
  | chosen k job entry foreign replies ok hev hk hquorum hchosen hknown hpass houts =>
    have hc := (hinv.chosenAt_of_acks hk hquorum).upTo
    refine h.after (fun slot hpos hmem => ?_) (fun slot hpos hle => h.committed hpos (hknown ▸ hle))
      (hpassed hpass) (by simpa [houts, Supports] using hc)
    rcases Frontier.mem_advance.1 (hchosen ▸ hmem) with hmem | rfl
    · exact hold slot hpos hmem
    · obtain ⟨a, ha, hle⟩ := hquorumHeld entry (by rw [hev]; simp [chosenEntry, hk, hquorum])
      exact hkeep ha (hc.mono hle)
  | noticed hchosen hknown hpass houts =>
    refine h.after (fun slot hpos hmem => ?_) (fun slot hpos hle => h.committed hpos (hknown ▸ hle))
      (hpassed hpass) (by simp [houts])
    rcases hchosen slot hmem with hmem | ⟨ballot, hballot, hnoticed⟩
    · exact hold slot hpos hmem
    · obtain ⟨a, ha, rfl⟩ := Option.map_eq_some_iff.1 hballot
      exact hkeep ha (h.chosenUpTo_of_noticed hpos hnoticed)
  | sendBatch startSlot endSlot term ballot hall ho =>
    subst ho
    refine h.after hold (fun slot hpos hle => h.committed hpos hle) (hpassed rfl) ?_
    rintro eff heff
    obtain rfl := List.mem_singleton.1 heff
    intro slot hpos hstart hend
    obtain ⟨hchosen, hballot⟩ := hall slot hstart hend
    obtain ⟨a, ha, rfl⟩ := Option.map_eq_some_iff.1 hballot
    obtain ⟨a', ha', hc⟩ := h.held hpos (of_decide_eq_true hchosen)
    obtain rfl : a = a' := Option.some_inj.1 (ha.symm.trans ha')
    exact hc
  | heartbeat req hreq ho =>
    subst ho
    refine h.after hold (fun slot hpos hle => h.committed hpos hle) (hpassed rfl) ?_
    rintro eff heff
    obtain rfl := List.mem_singleton.1 heff
    exact fun slot hpos hle => hmark slot hpos (hreq ▸ hle)
  | sendGap follower slot i leader l entry hev hi hentry ho =>
    subst ho
    refine h.after hold (fun slot hpos hle => h.committed hpos hle) (hpassed rfl) ?_
    rintro eff heff
    obtain rfl := List.mem_singleton.1 heff
    obtain rfl := (s.replicas e.replica).acceptor.slot_eq slot entry hentry
    intro hpos
    have hchosen := hasked entry.slot (by rw [hev]; simp [gapRequest, hi])
    obtain ⟨a, ha, hc⟩ := h.held hpos (of_decide_eq_true hchosen)
    obtain rfl : entry = a := Option.some_inj.1 (hentry.symm.trans ha)
    exact hc
  | gap peer follower i l entry hev hi hacceptor hchosen hknown hpass houts =>
    refine h.after (fun slot hpos hmem => ?_) (fun slot hpos hle => h.committed hpos (hknown ▸ hle))
      (hpassed hpass) fun eff heff => supports_of_idle (houts eff heff)
    rcases Frontier.mem_advance.1 (hchosen ▸ hmem) with hmem | rfl
    · exact hold slot hpos hmem
    · have hc : s.ChosenUpTo cfg entry.slot entry.ballot := h.sent (List.mem_of_getElem? hi) hpos
      rcases hfilled entry (by rw [hev]; simp [gapEntry, hi]) with ⟨a, ha, hle⟩ | hle
      · exact hkeep ha (hc.mono hle)
      · exact ⟨entry, hacceptor ▸ PxAcceptor.acceptedAt_accept hle, hc⟩

end LearnedInv

theorem learnedInv_of_reach {ok : GroupState → GroupEvent → Prop}
    (hok : ∀ {s e}, ok s e → s.FastSafe cfg e ∧ s.LearnsHeld cfg e)
    (h : Reach (groupStep cfg) ok .init s) :
    (PaxosInv cfg s ∧ s.OneFastPayload) ∧ LearnedInv cfg s := by
  have hpaxos : ∀ {s}, Reach (groupStep cfg) ok .init s → PaxosInv cfg s ∧ s.OneFastPayload :=
    fun h => inv_of_reach (h.weaken fun _ _ hs => (hok hs).1)
  refine ⟨hpaxos h, Reach.invariant_of (Q := LearnedInv cfg) hpaxos .init ?_ h⟩
  rintro s e s' ⟨hinv, -⟩ hlearned hs
  exact hlearned.step hinv (hok hs).1.1 (hok hs).2

end GroupState

end CrowDB
