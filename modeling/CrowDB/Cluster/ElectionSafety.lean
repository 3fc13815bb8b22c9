/-
  Elections of a group that does not crash.

  A term has at most one leader where every candidacy is above the current term of the candidate
  and every `RequestVote` round starts with the candidate's own vote in place (`ElectionSafe`).
  Neither is checked by the candidate, which reads the term before the `PreVote` round
  and again after the append of its vote: `two_leaders_in_one_term`.
-/
import CrowDB.Cluster.Ballots

namespace CrowDB

open Lib List

/-! ## Election moves -/

/-- The `RequestVote` round under way. -/
def Campaign.voteRound : Campaign → Option (VoteRequest × List ℕ)
  | .requesting req granted _ => some (req, granted)
  | _ => none

/-- The vote that the append waits to grant. -/
def Append.vote (a : Append) : Option VoteRequest :=
  match a.next with
  | .voteReply req _ => some req
  | _ => none

/-- No support, no granted vote and no leader. -/
def Effect.electionIdle : Effect → Bool
  | .supported _ _ => false
  | .finalized _ => false
  | .send (.requestVoteReply _ reply) => !reply.granted
  | _ => true

theorem TermKept.le {r r' : Replica} (h : TermKept r r') : r.currentTerm ≤ r'.currentTerm := by
  rcases h with h | h
  · exact h.1.ge
  · exact h.le

theorem TermKept.refl (r : Replica) : TermKept r r := .inl ⟨rfl, rfl⟩

/-- What a step does to term, vote, campaign and the votes under way, given the history
    before the step. -/
inductive ElectionMove (cfg : GroupConfig) (n : ℕ) (ev : GroupEvent) (H : List (ℕ × Effect))
    (r : Replica) (o : Outcome) : Prop
  | quiet (hterm : TermKept r o.1)
      (hround : o.1.campaign.voteRound = r.campaign.voteRound ∨ o.1.campaign.voteRound = none)
      (hpending : ∀ a ∈ o.1.pending, a ∈ r.pending ∨ a.vote = none)
      (houts : ∀ e ∈ o.2, e.electionIdle = true)
  | candidate (term : ℕ)
      (hterm : term = r.currentTerm + 1 ∨ ∃ i lockoutExpired peer req reply,
        ev = .deliver n i lockoutExpired ∧
        H[i]? = some (peer, .send (.preVoteReply req reply)) ∧
        r.preVoteWon cfg n peer req reply = true ∧ term = req.term)
      (hcur : o.1.currentTerm = term) (hvote : o.1.votedFor = some n)
      (hround : o.1.campaign.voteRound = none)
      (hpending : ∀ a ∈ o.1.pending, a ∈ r.pending ∨ a.vote = none)
      (houts : o.2 = [.supported term n])
  | grant (req : VoteRequest) (hok : r.voteTermOk req = true)
      (hpeer : n ∈ cfg.votingPeers req.candidateId) (hcur : o.1.currentTerm = req.term)
      (hvote : o.1.votedFor = some req.candidateId) (hround : o.1.campaign = r.campaign)
      (hpending : ∀ a ∈ o.1.pending, a ∈ r.pending ∨ a.vote = some req)
      (houts : o.2 = [.supported req.term req.candidateId])
  | reply (a : Append) (req : VoteRequest) (reply : VoteReply) (ha : a ∈ r.pending)
      (hreq : a.vote = some req) (hterm : TermKept r o.1) (hround : o.1.campaign = r.campaign)
      (hpending : ∀ b ∈ o.1.pending, b ∈ r.pending)
      (houts : o.2 = [.send (.requestVoteReply req reply)])
  | candidacy (i : ℕ) (a : Append) (req : VoteRequest) (outs : List Effect)
      (hev : ev = .act n (.appended i)) (hi : r.pending[i]? = some a) (ha : a.next = .candidacy)
      (hreq : req.candidateId = n ∧ req.term = r.currentTerm)
      (hterm : o.1.currentTerm = r.currentTerm ∧ o.1.votedFor = r.votedFor)
      (hpending : ∀ b ∈ o.1.pending, b ∈ r.pending)
      (hself : outs = if n ∈ cfg.voters then [.supported req.term n] else [])
      (halone : Replica.alone cfg n = true → o.1.campaign.voteRound = none ∧
        o.2 = outs ++ [.finalized req.term])
      (hpeers : Replica.alone cfg n = false → o.1.campaign.voteRound = some (req, []) ∧
        o.2 = outs ++ [.send (.requestVote req)])
  | voteGrant (req : VoteRequest) (granted : List ℕ) (peer : ℕ) (reply : VoteReply)
      (hc : r.campaign.voteRound = some (req, granted)) (hpeer : peer ∉ granted)
      (hsent : (peer, .send (.requestVoteReply req reply)) ∈ H) (hgranted : reply.granted = true)
      (hterm : TermKept r o.1) (hpending : o.1.pending = r.pending)
      (hround : o.1.campaign.voteRound = some (req, peer :: granted)) (houts : o.2 = [])
  /-- the grant that completes the quorum arrives -/
  | finalize (req : VoteRequest) (granted : List ℕ) (peer : ℕ) (reply : VoteReply)
      (hc : r.campaign.voteRound = some (req, granted)) (hpeer : peer ∉ granted)
      (hsent : (peer, .send (.requestVoteReply req reply)) ∈ H) (hgranted : reply.granted = true)
      (hquorum : cfg.quorum ≤ Replica.selfVote cfg n + (peer :: granted).length)
      (hterm : TermKept r o.1) (hpending : o.1.pending = r.pending)
      (hround : o.1.campaign.voteRound = none) (houts : o.2 = [.finalized req.term])

variable {cfg : GroupConfig} {r : Replica} {H : List (ℕ × Effect)} {ev : GroupEvent}
  {E : Set Effect} {n : ℕ}
  {o : Outcome}

namespace Replica

theorem electionMove_kept (hterm : TermKept r o.1) (hc : o.1.campaign = r.campaign)
    (hpending : o.1.pending = r.pending) (houts : ∀ e ∈ o.2, e.electionIdle = true) :
    ElectionMove cfg n ev H r o :=
  .quiet hterm (.inl (by rw [hc])) (fun _ ha => .inl (hpending ▸ ha)) houts

theorem electionMove_append {a : Append} (hterm : TermKept r o.1) (hc : o.1.campaign = r.campaign)
    (hpending : o.1.pending = r.pending ++ [a]) (ha : a.vote = none)
    (houts : ∀ e ∈ o.2, e.electionIdle = true) : ElectionMove cfg n ev H r o := by
  refine .quiet hterm (.inl (by rw [hc])) (fun b hb => ?_) houts
  rw [hpending] at hb
  rcases mem_append.mp hb with hb | hb
  · exact .inl hb
  · exact .inr (mem_singleton.mp hb ▸ ha)

theorem electionMove_campaign (hterm : TermKept r o.1) (hc : o.1.campaign.voteRound = none)
    (hpending : o.1.pending = r.pending) (houts : ∀ e ∈ o.2, e.electionIdle = true) :
    ElectionMove cfg n ev H r o :=
  .quiet hterm (.inr hc) (fun _ ha => .inl (hpending ▸ ha)) houts

end Replica

open Replica in
theorem ReplicaStep.electionMove (h : ReplicaStep cfg n ev H r o) : ElectionMove cfg n ev H r o := by
  cases h with
  | preVote =>
    exact electionMove_campaign (.inl ⟨rfl, rfl⟩) rfl rfl (by simp [Effect.electionIdle])
  | candidate _ _ term _ hterm =>
    refine .candidate term ?_ rfl rfl rfl (fun a ha => ?_) rfl
    · refine hterm.imp_right ?_
      rintro ⟨i, lockoutExpired, peer, req, reply, granted, hev, hi, -, hwon, ht⟩
      exact ⟨i, lockoutExpired, peer, req, reply, hev, hi, hwon, ht⟩
    · rcases mem_append.mp ha with ha | ha
      · exact .inl ha
      · exact .inr (mem_singleton.mp ha ▸ rfl)
  | follow f c hc =>
    refine .quiet f.kept ?_ (fun a ha => .inl ha) (by simp)
    rcases hc with rfl | rfl
    · exact .inr rfl
    · exact .inl rfl
  | endCampaign | preVoteGrant | tenure | tenureBulk =>
    exact electionMove_campaign (.inl ⟨rfl, rfl⟩) rfl rfl (by simp)
  | voteGrant req granted _ peer reply hc hpeer hsent hgranted =>
    exact .voteGrant req granted peer reply (by rw [hc]; rfl) hpeer hsent hgranted
      (.inl ⟨rfl, rfl⟩) rfl rfl rfl
  | finalize req granted _ peer reply hc hpeer hsent hgranted hquorum =>
    exact .finalize req granted peer reply (by rw [hc]; rfl) hpeer hsent hgranted hquorum
      (.inl ⟨rfl, rfl⟩) rfl rfl rfl
  | grantVote req hok hpeer =>
    refine .grant req hok hpeer rfl rfl rfl (fun a ha => ?_) rfl
    rcases mem_append.mp ha with ha | ha
    · exact .inl ha
    · exact .inr (mem_singleton.mp ha ▸ rfl)
  | refuseVote _ _ hreply =>
    exact electionMove_kept (.refl r) rfl rfl (by simp [Effect.electionIdle, hreply])
  | takeHeartbeat req f | refusePrepare req f | refuseAccept req f | voteEarly req peer f =>
    exact electionMove_kept f.kept rfl rfl (by simp [Effect.electionIdle])
  | endSlot _ _ f _ _ hend => cases hend <;> exact electionMove_kept f.kept rfl rfl (by simp)
  | chosen _ _ _ _ _ _ _ _ _ _ _ hpending _ _ _ hend =>
    rcases hpending with rfl | rfl
    · cases hend <;> exact electionMove_kept (.inl ⟨rfl, rfl⟩) rfl rfl (by simp [Effect.electionIdle])
    · cases hend <;> exact electionMove_append (.inl ⟨rfl, rfl⟩) rfl rfl rfl
        (by simp [Effect.electionIdle])
  | promise _ f => exact electionMove_append f.kept rfl rfl rfl (by simp)
  | vote _ _ f => exact electionMove_append f.kept rfl rfl rfl (by simp [Effect.electionIdle])
  | appended i a c o hev hi hc ho =>
    have hpending : ∀ b ∈ o.1.pending, b ∈ r.pending :=
      fun b hb => mem_of_mem_eraseIdx (ho.storage.2.2 ▸ hb)
    cases ho with
    | granted req =>
      exact .reply a req _ (mem_of_getElem? hi) (by simp [Append.vote, hc])
        (.inl ⟨rfl, rfl⟩) rfl hpending rfl
    | elected halone =>
      exact .candidacy i a (r.voteRequest n r.currentTerm) _ hev hi hc ⟨rfl, rfl⟩
        ⟨rfl, rfl⟩ hpending rfl
        (fun _ => ⟨rfl, rfl⟩) fun h => by simp [halone] at h
    | campaign halone =>
      exact .candidacy i a (r.voteRequest n r.currentTerm) _ hev hi hc ⟨rfl, rfl⟩
        ⟨rfl, rfl⟩ hpending rfl
        (fun h => by simp [halone] at h) fun _ => ⟨rfl, rfl⟩
    | _ =>
      exact .quiet (.inl ⟨rfl, rfl⟩) (.inl rfl) (fun b hb => .inl (hpending b hb))
        (by simp [Effect.electionIdle])
  | _ =>
    exact electionMove_kept (.inl ⟨rfl, rfl⟩) rfl rfl
      (by simp [Effect.electionIdle, Replica.finishBulk, Replica.beginPrepare, beginAccept])

/-! ## Supports -/

/-- Whom a replica supports, over all terms. -/
structure SupportInv (E : Set Effect) (r : Replica) : Prop where
  le : ∀ {t c}, .supported t c ∈ E → t ≤ r.currentTerm
  /-- the support in the current term is the vote held -/
  vote : ∀ {c}, .supported r.currentTerm c ∈ E → r.votedFor = some c
  unique : ∀ {t c c'}, .supported t c ∈ E → .supported t c' ∈ E → c = c'

namespace SupportInv

variable {term candidate : ℕ} {r' : Replica} {outs : List Effect}

theorem kept (h : SupportInv E r) (hterm : TermKept r r') (houts : ∀ t c, .supported t c ∉ outs) :
    SupportInv (E ∪ {e | e ∈ outs}) r' := by
  have hold : ∀ {t c}, .supported t c ∈ E ∪ {e | e ∈ outs} → .supported t c ∈ E := fun hs =>
    hs.resolve_right (houts _ _)
  refine ⟨fun hs => (h.le (hold hs)).trans hterm.le, fun {c} hs => ?_, fun hs hs' =>
    h.unique (hold hs) (hold hs')⟩
  rcases hterm with ⟨ht, hv⟩ | hlt
  · rw [hv]
    exact h.vote (ht ▸ hold hs)
  · exact absurd (h.le (hold hs)) hlt.not_ge

theorem new (h : SupportInv E r) (houts : ∀ t c, .supported t c ∈ outs → t = term ∧ c = candidate)
    (hle : r.currentTerm ≤ term) (hcur : r'.currentTerm = term)
    (hvote : r'.votedFor = some candidate)
    (hsame : r.currentTerm = term → r.votedFor = none ∨ r.votedFor = some candidate) :
    SupportInv (E ∪ {e | e ∈ outs}) r' := by
  have hnew : ∀ c, .supported term c ∈ E ∪ {e | e ∈ outs} → c = candidate := by
    rintro c (hs | hs)
    · have he : r.currentTerm = term := le_antisymm hle (h.le hs)
      have hv := h.vote (he ▸ hs)
      rcases hsame he with hn | hc
      · simp [hn] at hv
      · simpa [hc] using hv.symm
    · exact (houts term c hs).2
  refine ⟨fun {t c} hs => ?_, fun {c} hs => ?_, fun {t c c'} hs hs' => ?_⟩
  · rw [hcur]
    rcases hs with hs | hs
    · exact (h.le hs).trans hle
    · exact (houts t c hs).1.le
  · rw [hvote, hnew c (hcur ▸ hs)]
  · by_cases ht : t = term
    · subst ht
      rw [hnew c hs, hnew c' hs']
    · exact h.unique (hs.resolve_right fun hs => ht (houts t c hs).1) (hs'.resolve_right fun hs =>
        ht (houts t c' hs).1)

end SupportInv

/-- Votes under way and the `RequestVote` round of a replica. -/
structure ElectionInv (cfg : GroupConfig) (H : List (ℕ × Effect)) (n : ℕ) (E : Set Effect)
    (r : Replica) : Prop extends SupportInv E r where
  pending : ∀ a ∈ r.pending, ∀ {req}, a.vote = some req →
    n ∈ cfg.votingPeers req.candidateId ∧ .supported req.term req.candidateId ∈ E
  granted : ∀ {req reply}, .send (.requestVoteReply req reply) ∈ E → reply.granted = true →
    n ∈ cfg.votingPeers req.candidateId ∧ .supported req.term req.candidateId ∈ E
  round : ∀ {req granted}, r.campaign.voteRound = some (req, granted) →
    req.candidateId = n ∧ granted.Nodup ∧ (n ∈ cfg.voters → .supported req.term n ∈ E) ∧
      ∀ m ∈ granted, ∃ reply, reply.granted = true ∧
        (m, Effect.send (.requestVoteReply req reply)) ∈ H

theorem ElectionInv.mono {H' : List (ℕ × Effect)} (h : ElectionInv cfg H n E r) (hH : H ⊆ H') :
    ElectionInv cfg H' n E r :=
  { h with
    round := fun hc => by
      obtain ⟨hn, hnd, hself, hg⟩ := h.round hc
      exact ⟨hn, hnd, hself, fun m hm => (hg m hm).imp fun _ ⟨hr, hs⟩ => ⟨hr, hH hs⟩⟩ }

/-! ## The conditions -/

namespace GroupState

/-- The term of the candidacy that the event starts by winning a `PreVote` round. -/
def candidacyTerm (cfg : GroupConfig) (s : GroupState) : GroupEvent → Option ℕ
  | .deliver n i _ =>
    match s.history[i]? with
    | some (peer, .send (.preVoteReply req reply)) =>
      if (s.replicas n).preVoteWon cfg n peer req reply then some req.term else none
    | _ => none
  | _ => none

/-- A candidacy is above the current term. -/
def CandidacyFresh (cfg : GroupConfig) (s : GroupState) (e : GroupEvent) : Prop :=
  ∀ term ∈ s.candidacyTerm cfg e, (s.replicas e.replica).currentTerm < term
deriving Decidable

/-- The event is the return of the append after which the `RequestVote` round starts. -/
def startsVoteRound (s : GroupState) : GroupEvent → Bool
  | .act n (.appended i) => (s.replicas n).pending[i]?.any fun a => a.next = .candidacy
  | _ => false

/-- The `RequestVote` round of a voting replica starts in a term in which it holds its own
    vote. -/
def SelfVoteStands (cfg : GroupConfig) (s : GroupState) (e : GroupEvent) : Prop :=
  s.startsVoteRound e = true → e.replica ∈ cfg.voters → (s.replicas e.replica).votedFor =
    some e.replica
deriving Decidable

/-- The steps of a run without crashes in which candidacies meet both conditions. -/
def ElectionSafe (cfg : GroupConfig) (s : GroupState) (e : GroupEvent) : Prop :=
  e.isRestart = false ∧ s.CandidacyFresh cfg e ∧ s.SelfVoteStands cfg e
deriving Decidable

end GroupState

/-! ## One step -/

variable {req : VoteRequest} {reply : VoteReply}

theorem Replica.le_of_voteTermOk (h : r.voteTermOk req = true) :
    r.currentTerm ≤ req.term ∧
      (r.currentTerm = req.term → r.votedFor = none ∨ r.votedFor = some req.candidateId) := by
  simp only [voteTermOk, Bool.or_eq_true, Bool.and_eq_true, decide_eq_true_eq, beq_iff_eq] at h
  rcases h with hlt | ⟨he, hv⟩
  · exact ⟨hlt.le, fun he => absurd he hlt.ne⟩
  · exact ⟨he.ge, fun _ => hv⟩

namespace ElectionMove

/-- The conditions on the step, for the replica that takes it. -/
structure Safe (cfg : GroupConfig) (n : ℕ) (ev : GroupEvent) (H : List (ℕ × Effect)) (r : Replica) :
    Prop where
  fresh : ∀ {i lockoutExpired peer req reply}, ev = .deliver n i lockoutExpired →
    H[i]? = some (peer, .send (.preVoteReply req reply)) →
    r.preVoteWon cfg n peer req reply = true → r.currentTerm < req.term
  stands : ∀ {i a}, ev = .act n (.appended i) → r.pending[i]? = some a → a.next = .candidacy →
    n ∈ cfg.voters → r.votedFor = some n

/-- A candidacy starts above the current term, if those after a `PreVote` round do. -/
theorem lt_of_fresh (hfresh : ∀ {i lockoutExpired peer req reply}, ev = .deliver n i lockoutExpired →
      H[i]? = some (peer, .send (.preVoteReply req reply)) →
      r.preVoteWon cfg n peer req reply = true → r.currentTerm < req.term) {term : ℕ}
    (hterm : term = r.currentTerm + 1 ∨ ∃ i lockoutExpired peer req reply,
      ev = .deliver n i lockoutExpired ∧ H[i]? = some (peer, .send (.preVoteReply req reply)) ∧
      r.preVoteWon cfg n peer req reply = true ∧ term = req.term) : r.currentTerm < term := by
  rcases hterm with rfl | ⟨i, lockoutExpired, peer, req, reply, hev, hi, hwon, rfl⟩
  · exact Nat.lt_succ_self _
  · exact hfresh hev hi hwon

variable (h : ElectionMove cfg n ev H r o)
include h

theorem currentTerm_le_of_fresh
    (hfresh : ∀ {i lockoutExpired peer req reply}, ev = .deliver n i lockoutExpired →
      H[i]? = some (peer, .send (.preVoteReply req reply)) →
      r.preVoteWon cfg n peer req reply = true → r.currentTerm < req.term) :
    r.currentTerm ≤ o.1.currentTerm := by
  cases h with
  | quiet hterm | reply a req reply ha hreq hterm
  | voteGrant req granted peer reply hc hpeer hsent hgranted hterm
  | finalize _ _ _ _ _ _ _ _ _ hterm => exact hterm.le
  | candidate _ hterm hcur => exact hcur ▸ (lt_of_fresh hfresh hterm).le
  | grant _ hok _ hcur => exact hcur ▸ (Replica.le_of_voteTermOk hok).1
  | candidacy _ _ _ _ _ _ _ _ hterm => exact hterm.1.ge

theorem currentTerm_le (hsafe : Safe cfg n ev H r) : r.currentTerm ≤ o.1.currentTerm :=
  h.currentTerm_le_of_fresh hsafe.fresh

omit h in
theorem self_outs {outs : List Effect}
    (hself : outs = if n ∈ cfg.voters then [.supported req.term n] else [])
    {last : Effect} {t c : ℕ} (hlast : ∀ t c, last ≠ .supported t c)
    (hs : .supported t c ∈ outs ++ [last]) :
    n ∈ cfg.voters ∧ t = req.term ∧ c = n := by
  rcases mem_append.mp hs with hs | hs
  · rw [hself] at hs
    split at hs
    · next hn => exact ⟨hn, by simpa using hs⟩
    · simp at hs
  · exact absurd (mem_singleton.mp hs).symm (hlast t c)

theorem supportInv (hsafe : Safe cfg n ev H r) (hinv : SupportInv E r) :
    SupportInv (E ∪ {e | e ∈ o.2}) o.1 := by
  cases h with
  | quiet hterm _ _ houts =>
    refine hinv.kept hterm fun t c hs => ?_
    simpa [Effect.electionIdle] using houts _ hs
  | candidate _ hterm hcur hvote _ _ houts =>
    have hlt := lt_of_fresh hsafe.fresh hterm
    exact hinv.new (by simp [houts]) hlt.le hcur hvote fun he => absurd he hlt.ne
  | grant _ hok _ hcur hvote _ _ houts =>
    have hle := Replica.le_of_voteTermOk hok
    exact hinv.new (by simp [houts]) hle.1 hcur hvote hle.2
  | reply _ _ _ _ _ hterm _ _ houts =>
    exact hinv.kept hterm (by simp [houts])
  | candidacy _ _ req _ hev hi ha hreq hterm _ hself halone hpeers =>
    have houts : ∀ t c, .supported t c ∈ o.2 → n ∈ cfg.voters ∧ t = req.term ∧ c = n := by
      intro t c hs
      cases hal : Replica.alone cfg n with
      | true =>
        rw [(halone hal).2] at hs
        exact self_outs hself (by simp) hs
      | false =>
        rw [(hpeers hal).2] at hs
        exact self_outs hself (by simp) hs
    by_cases hn : n ∈ cfg.voters
    · -- the candidate counts itself in the term it reads, where its vote stands
      have hstands := hsafe.stands hev hi ha hn
      exact hinv.new (fun t c hs => (houts t c hs).2) hreq.2.ge (hterm.1.trans hreq.2.symm)
        (hterm.2.trans hstands) fun _ => .inr hstands
    · exact hinv.kept (.inl hterm) fun t c hs => hn (houts t c hs).1
  | voteGrant | finalize =>
    rename_i hterm hpending hround houts
    exact hinv.kept hterm (by simp [houts])

theorem pending {a : Append} (ha : a ∈ o.1.pending) (hreq : a.vote = some req) :
    a ∈ r.pending ∨ (n ∈ cfg.votingPeers req.candidateId ∧
      .supported req.term req.candidateId ∈ o.2) := by
  cases h with
  | quiet | candidate =>
    rename_i hpending houts
    exact (hpending a ha).imp_right fun hn => by simp [hn] at hreq
  | grant req' _ hpeer _ _ _ hpending houts =>
    refine (hpending a ha).imp_right fun hn => ?_
    obtain rfl : req' = req := by simpa [hn] using hreq
    exact ⟨hpeer, by simp [houts]⟩
  | reply _ _ _ _ _ _ _ hpending => exact .inl (hpending a ha)
  | candidacy _ _ _ _ _ _ _ _ _ hpending => exact .inl (hpending a ha)
  | voteGrant | finalize =>
    rename_i hpending hround houts
    exact .inl (hpending ▸ ha)

theorem granted (he : .send (.requestVoteReply req reply) ∈ o.2)
    (hg : reply.granted = true) : ∃ a ∈ r.pending, a.vote = some req := by
  cases h with
  | quiet _ _ _ houts => simpa [Effect.electionIdle, hg] using houts _ he
  | reply a req' reply' ha hreq _ _ _ houts =>
    obtain ⟨rfl, -⟩ : req = req' ∧ reply = reply' := by simpa [houts] using he
    exact ⟨a, ha, hreq⟩
  | candidacy _ _ _ outs _ _ _ _ _ _ hself halone hpeers =>
    have houts : .send (.requestVoteReply req reply) ∉ outs := by
      rw [hself]
      split <;> simp
    cases hal : Replica.alone cfg n with
    | true => simp [(halone hal).2, houts] at he
    | false => simp [(hpeers hal).2, houts] at he
  | candidate | grant | voteGrant | finalize => rename_i houts; simp [houts] at he

theorem round {granted : List ℕ} (hc : o.1.campaign.voteRound = some (req, granted)) :
    r.campaign.voteRound = some (req, granted) ∨
    (req.candidateId = n ∧ granted = [] ∧ (n ∈ cfg.voters → .supported req.term n ∈ o.2)) ∨
    ∃ peer granted' reply, granted = peer :: granted' ∧ peer ∉ granted' ∧ reply.granted = true ∧
      r.campaign.voteRound = some (req, granted') ∧
      (peer, Effect.send (.requestVoteReply req reply)) ∈ H := by
  cases h with
  | quiet _ hround =>
    rcases hround with hr | hr
    · exact .inl (hr ▸ hc)
    · simp [hr] at hc
  | candidate _ _ _ _ hround => simp [hround] at hc
  | grant | reply =>
    rename_i hround hpending houts
    exact .inl (hround ▸ hc)
  | candidacy _ _ req' _ _ _ _ hreq _ _ hself halone hpeers =>
    cases hal : Replica.alone cfg n with
    | true => simp [(halone hal).1] at hc
    | false =>
      obtain ⟨rfl, rfl⟩ : req' = req ∧ [] = granted := by simpa [(hpeers hal).1] using hc
      refine .inr (.inl ⟨hreq.1, rfl, fun hn => ?_⟩)
      rw [(hpeers hal).2, hself, if_pos hn]
      exact mem_append_left _ (mem_singleton.mpr rfl)
  | voteGrant req' granted' peer reply hc' hpeer hsent hgranted _ _ hround =>
    obtain ⟨rfl, rfl⟩ : req' = req ∧ peer :: granted' = granted := by simpa [hround] using hc
    exact .inr (.inr ⟨peer, granted', reply, rfl, hpeer, hgranted, hc', hsent⟩)
  | finalize _ _ _ _ _ _ _ _ _ _ _ hround =>
    simp [hround] at hc

theorem electionInv (hsafe : Safe cfg n ev H r)
    (hinv : ElectionInv cfg H n E r) : ElectionInv cfg H n (E ∪ {e | e ∈ o.2}) o.1 where
  toSupportInv := h.supportInv hsafe hinv.toSupportInv
  pending a ha {req} hreq := by
    rcases h.pending ha hreq with ha | ⟨hn, hs⟩
    · exact (hinv.pending a ha hreq).imp_right .inl
    · exact ⟨hn, .inr hs⟩
  granted {req reply} he hg := by
    rcases he with he | he
    · exact (hinv.granted he hg).imp_right .inl
    · obtain ⟨a, ha, hreq⟩ := h.granted he hg
      exact (hinv.pending a ha hreq).imp_right .inl
  round {req granted} hc := by
    rcases h.round hc with hc | ⟨hn, rfl, hself⟩ | ⟨peer, granted', reply, rfl, hpeer, hg, hc, hsent⟩
    · obtain ⟨hn, hnd, hself, hall⟩ := hinv.round hc
      exact ⟨hn, hnd, fun hv => .inl (hself hv), hall⟩
    · exact ⟨hn, nodup_nil, fun hv => .inr (hself hv), by simp⟩
    · obtain ⟨hn, hnd, hself, hall⟩ := hinv.round hc
      refine ⟨hn, nodup_cons.mpr ⟨hpeer, hnd⟩, fun hv => .inl (hself hv), fun m hm => ?_⟩
      rcases mem_cons.mp hm with rfl | hm
      · exact ⟨reply, hg, hsent⟩
      · exact hall m hm

theorem finalized {t : ℕ} (he : .finalized t ∈ o.2) :
    (Replica.alone cfg n = true ∧ .supported t n ∈ o.2) ∨
    ∃ req granted peer reply, r.campaign.voteRound = some (req, granted) ∧ t = req.term ∧
      peer ∉ granted ∧ (peer, Effect.send (.requestVoteReply req reply)) ∈ H ∧
      reply.granted = true ∧ cfg.quorum ≤ Replica.selfVote cfg n + (peer :: granted).length := by
  cases h with
  | quiet _ _ _ houts => simpa [Effect.electionIdle] using houts _ he
  | candidacy _ _ req outs _ _ _ _ _ _ hself halone hpeers =>
    have hno : .finalized t ∉ outs := by
      rw [hself]
      split <;> simp
    cases hal : Replica.alone cfg n with
    | true =>
      obtain rfl : t = req.term := by simpa [(halone hal).2, hno] using he
      have hn : n ∈ cfg.voters := by
        simp only [Replica.alone, Bool.and_eq_true, decide_eq_true_eq] at hal
        exact hal.2
      refine .inl ⟨rfl, ?_⟩
      rw [(halone hal).2, hself, if_pos hn]
      exact mem_append_left _ (mem_singleton.mpr rfl)
    | false => simp [(hpeers hal).2, hno] at he
  | candidate | grant | reply | voteGrant => rename_i houts; simp [houts] at he
  | finalize req granted peer reply hc hpeer hsent hgranted hquorum _ _ _ houts =>
    obtain rfl : t = req.term := by simpa [houts] using he
    exact .inr ⟨req, granted, peer, reply, hc, rfl, hpeer, hsent, hgranted, hquorum⟩

end ElectionMove

/-! ## Runs -/

namespace GroupState

variable {s s' : GroupState} {e : GroupEvent} {t : ℕ} {peer : ℕ}

/-- Replica `n` has the support of a quorum in the term. -/
def Won (cfg : GroupConfig) (s : GroupState) (n t : ℕ) : Prop :=
  ∃ Q, IsQuorum cfg.voters (majority cfg.voters.card) Q ∧
    ∀ m ∈ Q, (m, Effect.supported t n) ∈ s.history

/-- `ElectionInv` of every replica. -/
structure ElectionsInv (cfg : GroupConfig) (s : GroupState) : Prop where
  replica : ∀ n, ElectionInv cfg s.history n (s.effects n) (s.replicas n)
  won : ∀ {n t}, (n, Effect.finalized t) ∈ s.history → s.Won cfg n t

theorem Won.mono (h : s.Won cfg n t) (hH : s.history ⊆ s'.history) : s'.Won cfg n t := by
  obtain ⟨Q, hQ, hs⟩ := h
  exact ⟨Q, hQ, fun m hm => hH (hs m hm)⟩

theorem isQuorum_of_alone (halone : Replica.alone cfg n = true) :
    IsQuorum cfg.voters (majority cfg.voters.card) {n} := by
  obtain ⟨hpeers, hn⟩ := Bool.and_eq_true_iff.mp halone
  have hV : cfg.voters = {n} := by
    rcases (Finset.erase_eq_empty_iff _ _).mp (of_decide_eq_true hpeers) with h | h
    · simp [h] at hn
    · exact h
  exact ⟨by simp [hV], by simp [hV, majority]⟩

theorem won_alone (halone : Replica.alone cfg n = true)
    (hs : (n, Effect.supported t n) ∈ s.history) : s.Won cfg n t := by
  refine ⟨{n}, isQuorum_of_alone halone, fun m hm => ?_⟩
  obtain rfl := Finset.mem_singleton.mp hm
  exact hs

theorem exists_quorum_of_grants {grants : List ℕ} (hnd : grants.Nodup)
    (hpeers : ∀ m ∈ grants, m ∈ cfg.votingPeers n)
    (hquorum : cfg.quorum ≤ Replica.selfVote cfg n + grants.length) :
    ∃ Q, IsQuorum cfg.voters (majority cfg.voters.card) Q ∧ ∀ m ∈ Q, m ∈ grants ∨
      (m = n ∧ n ∈ cfg.voters) := by
  have hcard : grants.toFinset.card = grants.length := toFinset_card_of_nodup hnd
  have hsub : grants.toFinset ⊆ cfg.voters := fun m hm =>
    Finset.mem_of_mem_erase (hpeers m (mem_toFinset.mp hm))
  by_cases hv : n ∈ cfg.voters
  · have hn : n ∉ grants.toFinset := fun hm =>
      Finset.notMem_erase _ _ (hpeers n (mem_toFinset.mp hm))
    refine ⟨insert n grants.toFinset, ⟨Finset.insert_subset hv hsub, ?_⟩, fun m hm => ?_⟩
    · rw [Finset.card_insert_of_notMem hn, hcard]
      simp only [Replica.selfVote, hv, if_true] at hquorum
      exact hquorum.trans (by omega)
    · rcases Finset.mem_insert.mp hm with rfl | hm
      · exact .inr ⟨rfl, hv⟩
      · exact .inl (mem_toFinset.mp hm)
  · refine ⟨grants.toFinset, ⟨hsub, ?_⟩, fun m hm => .inl (mem_toFinset.mp hm)⟩
    rw [hcard]
    simp only [Replica.selfVote, hv, if_false, Nat.zero_add] at hquorum
    exact hquorum

theorem ElectionsInv.won_round (hinv : ElectionsInv cfg s) {granted : List ℕ}
    (hc : (s.replicas n).campaign.voteRound = some (req, granted)) (hpeer : peer ∉ granted)
    (hsent : (peer, Effect.send (.requestVoteReply req reply)) ∈ s.history)
    (hgranted : reply.granted = true)
    (hquorum : cfg.quorum ≤ Replica.selfVote cfg n + (peer :: granted).length) :
    s.Won cfg n req.term := by
  obtain ⟨rfl, hnd, hself, hall⟩ := (hinv.replica n).round hc
  have hmem : ∀ m ∈ peer :: granted, m ∈ cfg.votingPeers req.candidateId ∧
      (m, Effect.supported req.term req.candidateId) ∈ s.history := by
    intro m hm
    rcases mem_cons.mp hm with rfl | hm
    · exact (hinv.replica m).granted hsent hgranted
    · obtain ⟨reply', hg', hs'⟩ := hall m hm
      exact (hinv.replica m).granted hs' hg'
  obtain ⟨Q, hQ, hgrants⟩ := exists_quorum_of_grants (nodup_cons.mpr ⟨hpeer, hnd⟩)
    (fun m hm => (hmem m hm).1) hquorum
  refine ⟨Q, hQ, fun m hm => ?_⟩
  rcases hgrants m hm with hg | ⟨rfl, hv⟩
  · exact (hmem m hg).2
  · exact hself hv

theorem CandidacyFresh.fresh (hok : s.CandidacyFresh cfg e) {i : ℕ} {lockoutExpired : Bool}
    (hev : e = .deliver e.replica i lockoutExpired)
    (hi : s.history[i]? = some (peer, .send (.preVoteReply req reply)))
    (hwon : (s.replicas e.replica).preVoteWon cfg e.replica peer req reply = true) :
    (s.replicas e.replica).currentTerm < req.term := by
  refine hok req.term ?_
  cases e with
  | deliver n i' lockoutExpired' =>
    obtain ⟨-, rfl, rfl⟩ : _ ∧ i' = i ∧ lockoutExpired' = lockoutExpired := by simpa using hev
    simp only [candidacyTerm, hi]
    exact if_pos hwon
  | act => simp at hev

theorem ElectionSafe.safe (hok : s.ElectionSafe cfg e) :
    ElectionMove.Safe cfg e.replica e s.history (s.replicas e.replica) where
  fresh hev hi hwon := hok.2.1.fresh hev hi hwon
  stands {i a} hev hi ha hn := by
    refine hok.2.2 ?_ hn
    cases e with
    | deliver => simp at hev
    | act n act =>
      obtain ⟨-, rfl⟩ : _ ∧ act = .appended i := by simpa using hev
      simp only [GroupEvent.replica] at hi
      simp [startsVoteRound, hi, ha]

theorem ElectionsInv.step (hinv : ElectionsInv cfg s) (hok : s.ElectionSafe cfg e)
    (h : groupStep cfg s e = some s') : ElectionsInv cfg s' := by
  obtain ⟨o, hstep, rfl⟩ := replicaStep_of_groupStep hok.1 h
  have hmove := hstep.electionMove
  have hH : s.history ⊆ (s.after e.replica o).history := subset_append_left ..
  refine ⟨?_, fun {n t} hn => ?_⟩
  · exact forall_after (fun m => (hinv.replica m).mono hH)
      ((hmove.electionInv hok.safe (hinv.replica _)).mono hH)
  · rcases mem_history_after.mp hn with hn | ⟨rfl, hn⟩
    · exact (hinv.won hn).mono hH
    · rcases hmove.finalized hn with ⟨halone, hs⟩ |
        ⟨req, granted, peer, reply, hc, rfl, hpeer, hsent, hgranted, hquorum⟩
      · exact won_alone halone (mem_history_after.mpr (.inr ⟨rfl, hs⟩))
      · exact (hinv.won_round hc hpeer hsent hgranted hquorum).mono hH

theorem electionsInv_of_reach (h : Reach (groupStep cfg) (ElectionSafe cfg) .init s) :
    ElectionsInv cfg s := by
  refine Reach.invariant (P := ElectionsInv cfg) ⟨fun n => ?_, ?_⟩ (fun hinv hok hs =>
    hinv.step hok hs) h
  · refine ⟨⟨?_, ?_, ?_⟩, ?_, ?_, ?_⟩ <;>
      simp [GroupState.init, Replica.new, Campaign.voteRound]
  · simp [GroupState.init]

/-- Two winners of one term share a supporter, who supports one candidate only. -/
theorem ElectionsInv.won_unique (hinv : ElectionsInv cfg s) {n' : ℕ} (h : s.Won cfg n t)
    (h' : s.Won cfg n' t) : n = n' := by
  obtain ⟨Q, hQ, hs⟩ := h
  obtain ⟨Q', hQ', hs'⟩ := h'
  obtain ⟨m, hm, hm'⟩ := hQ.majority_inter hQ'
  exact (hinv.replica m).unique (hs m hm) (hs' m hm')

theorem currentTerm_le_of_step (hok : s.ElectionSafe cfg e) (h : groupStep cfg s e = some s')
    (n : ℕ) : (s.replicas n).currentTerm ≤ (s'.replicas n).currentTerm := by
  obtain ⟨o, hstep, rfl⟩ := replicaStep_of_groupStep hok.1 h
  have hle := hstep.electionMove.currentTerm_le hok.safe
  exact forall_after (P := fun m _ r => (s.replicas m).currentTerm ≤ r.currentTerm)
    (fun _ => le_rfl) hle n

/-- **Election safety**, if candidacies are fresh and the own vote stands when it is counted. -/
theorem election_safety_of_reach (h : Reach (groupStep cfg) (ElectionSafe cfg) .init s) :
    (∀ s', Reach (groupStep cfg) (ElectionSafe cfg) s s' →
      ∀ n, (s.replicas n).currentTerm ≤ (s'.replicas n).currentTerm) ∧
    (∀ n t c c', (n, Effect.supported t c) ∈ s.history →
      (n, Effect.supported t c') ∈ s.history → c = c') ∧
    ∀ t n n', (n, Effect.finalized t) ∈ s.history →
      (n', Effect.finalized t) ∈ s.history → n = n' := by
  have hinv := electionsInv_of_reach h
  refine ⟨fun s' hs' n => ?_, fun n t c c' hc hc' => (hinv.replica n).unique hc hc',
    fun t n n' hn hn' => hinv.won_unique (hinv.won hn) (hinv.won hn')⟩
  refine Reach.invariant (P := fun s' => (s.replicas n).currentTerm ≤ (s'.replicas n).currentTerm)
    le_rfl (fun hle hok hstep => hle.trans (currentTerm_le_of_step hok hstep n)) hs'

/-- Replica `3` is the leader of term `1` after an undisturbed election. -/
theorem election_safety_after_one_election : ∃ s, Reach (groupStep (defaultGroup 3))
    (ElectionSafe (defaultGroup 3)) .init s ∧ (3, Effect.finalized 1) ∈ s.history ∧
      ∀ n, (n, Effect.finalized 1) ∈ s.history → n = 3 := by
  exact Reach.exists_and_of_run (electionRun 3 1 0 0 0) (by decide +kernel) fun s hr hf =>
    fun n hn => (election_safety_of_reach hr).2.2 1 n 3 hn hf

/-- Replica `3` wins term `1` with the vote of replica `1`; then the last `PreVote` reply makes
    replica `1` a candidate of term `1`, which wins with the vote of replica `2`. -/
def overtakenPreVoteRun : List GroupEvent :=
  [.act 1 .electionDeadline, .deliver 2 0 true, .act 3 .electionDeadline, .deliver 2 2 true,
    .deliver 3 3 true, .act 3 (.appended 0), .deliver 1 6 true, .act 1 (.appended 0),
    .deliver 3 8 true, .deliver 1 1 true, .act 1 (.appended 0), .deliver 2 12 true,
    .act 2 (.appended 0), .deliver 1 14 true]

/-- Two replicas finalize in one term, and one supported both. -/
theorem two_leaders_in_one_term : ∃ s, Reach (groupStep (defaultGroup 3))
    (fun _ e => e.isRestart = false) .init s ∧ (3, Effect.finalized 1) ∈ s.history ∧
      (1, Effect.finalized 1) ∈ s.history ∧ (1, Effect.supported 1 3) ∈ s.history ∧
      (1, Effect.supported 1 1) ∈ s.history := by
  exact Reach.exists_of_run overtakenPreVoteRun (by decide +kernel)

end GroupState

end CrowDB
