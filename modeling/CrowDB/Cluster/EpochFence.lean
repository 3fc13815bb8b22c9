/-
  When the membership-epoch fence protects quorum intersection.

  Equal numbers mean intersecting quorums when the cluster follows one sequence of voting sets, one
  per epoch (`plan`): a node at epoch `e` makes only the change from `plan e` to `plan (e + 1)`, a
  node without remotes is wired to the voting set of its epoch before it takes part, endpoint updates
  touch members only, and no wired node adopts the epoch of a different voting set (`FollowsPlan`).

  Without that discipline the fence lets requests through between voting sets with disjoint quorums
  (`quorums_disjoint_after_adoption`).
-/
import CrowDB.Lib.Lists
import CrowDB.Cluster.Membership

namespace CrowDB

open Lib List Finset

/-! ## Voting sets under the operations -/

variable {g : PxMembers}

namespace PxMembers

variable {r : RemoteReplica} {id : ℕ}

theorem mem_votingSet : id ∈ g.votingSet ↔
    (g.localVoting = true ∧ id = g.localId) ∨ ∃ x ∈ g.remotes, x.voting = true ∧ x.nodeId = id := by
  unfold votingSet
  cases g.localVoting <;> simp [and_assoc]

theorem wasVoting_iff : g.wasVoting id = true ↔ ∃ x ∈ g.remotes, x.nodeId = id ∧ x.voting = true := by
  simp [wasVoting]

theorem card_votingSet_le : g.votingSet.card ≤
    (g.remotes.filter RemoteReplica.voting).length + if g.localVoting then 1 else 0 := by
  have hrem := toFinset_card_le ((g.remotes.filter RemoteReplica.voting).map RemoteReplica.nodeId)
  rw [length_map] at hrem
  refine (card_union_le _ _).trans ?_
  split
  · rw [card_singleton]; omega
  · rw [card_empty]; omega

theorem mem_upsert {remotes : List RemoteReplica} {x : RemoteReplica} :
    x ∈ upsert remotes r ↔ (x ∈ remotes ∧ x.nodeId ≠ r.nodeId) ∨ x = r := by
  simp [upsert]

theorem mem_votingSet_upsert (hid : r.nodeId ≠ g.localId) :
    id ∈ votingSet { g with remotes := upsert g.remotes r } ↔
      (id ∈ g.votingSet ∧ id ≠ r.nodeId) ∨ (r.voting = true ∧ id = r.nodeId) := by
  simp only [mem_votingSet, mem_upsert]
  constructor
  · rintro (⟨hl, rfl⟩ | ⟨x, ⟨hx, hne⟩ | rfl, hv, rfl⟩)
    · exact .inl ⟨.inl ⟨hl, rfl⟩, hid.symm⟩
    · exact .inl ⟨.inr ⟨x, hx, hv, rfl⟩, hne⟩
    · exact .inr ⟨hv, rfl⟩
  · rintro (⟨⟨hl, rfl⟩ | ⟨x, hx, hv, rfl⟩, hne⟩ | ⟨hv, rfl⟩)
    · exact .inl ⟨hl, rfl⟩
    · exact .inr ⟨x, .inl ⟨hx, hne⟩, hv, rfl⟩
    · exact .inr ⟨r, .inr rfl, hv, rfl⟩

/-- The voting set that a changed voting flag leads to. -/
def withVoter (V : Finset ℕ) (id : ℕ) (voting : Bool) : Finset ℕ :=
  if voting then insert id V else V.erase id

theorem votingSet_addRemoteReplica (hid : r.nodeId ≠ g.localId) : (g.addRemoteReplica r).votingSet =
      if g.wasVoting r.nodeId ≠ r.voting then withVoter g.votingSet r.nodeId r.voting
      else g.votingSet := by
  have hset : (g.addRemoteReplica r).votingSet = votingSet
    { g with remotes := upsert g.remotes r } := by
    unfold addRemoteReplica
    split <;> rfl
  ext id
  rw [hset, mem_votingSet_upsert hid]
  split
  · next hne =>
    unfold withVoter
    cases hv : r.voting <;> by_cases he : id = r.nodeId <;> simp [he]
  · next heq =>
    -- the flag did not change: the node was in the voting set iff it is now
    rw [not_not] at heq
    have hmem : r.nodeId ∈ g.votingSet ↔ r.voting = true := by
      rw [← heq, wasVoting_iff, mem_votingSet]
      constructor
      · rintro (⟨-, h⟩ | ⟨x, hx, hv, he⟩)
        · exact absurd h hid
        · exact ⟨x, hx, he, hv⟩
      · rintro ⟨x, hx, he, hv⟩
        exact .inr ⟨x, hx, hv, he⟩
    by_cases he : id = r.nodeId
    · subst he; simp [hmem]
    · simp [he]

theorem votingSet_removeRemoteReplica (hid : id ≠ g.localId) : (g.removeRemoteReplica id).votingSet =
      if g.wasVoting id then g.votingSet.erase id else g.votingSet := by
  have hset : (g.removeRemoteReplica id).votingSet =
      votingSet { g with remotes := g.remotes.filter fun x => x.nodeId ≠ id } := by
    unfold removeRemoteReplica
    split <;> rfl
  have herase : votingSet { g with remotes := g.remotes.filter fun x => x.nodeId ≠ id } =
    g.votingSet.erase id := by
    ext id'
    rw [mem_erase, mem_votingSet, mem_votingSet]
    constructor
    · rintro (⟨hl, rfl⟩ | ⟨x, hx, hv, rfl⟩)
      · exact ⟨hid.symm, .inl ⟨hl, rfl⟩⟩
      · obtain ⟨hx, hne⟩ := mem_filter.mp hx
        exact ⟨by simpa using hne, .inr ⟨x, hx, hv, rfl⟩⟩
    · rintro ⟨hne, ⟨hl, rfl⟩ | ⟨x, hx, hv, rfl⟩⟩
      · exact .inl ⟨hl, rfl⟩
      · exact .inr ⟨x, mem_filter.mpr ⟨hx, by simpa using hne⟩, hv, rfl⟩
  rw [hset, herase]
  split
  · rfl
  · next hw =>
    refine erase_eq_of_notMem fun hmem => hw ?_
    rcases mem_votingSet.mp hmem with ⟨-, h⟩ | ⟨x, hx, hv, he⟩
    · exact absurd h hid
    · exact wasVoting_iff.mpr ⟨x, hx, he, hv⟩

theorem votingSet_updateMemberEndpoint {endpoint : String} (h : ∃ x ∈ g.remotes, x.nodeId = id) :
    (g.updateMemberEndpoint id endpoint).votingSet = g.votingSet := by
  have hany : (g.remotes.any fun x => x.nodeId = id) = true := by simpa using h
  ext id'
  rw [updateMemberEndpoint, if_pos hany, mem_votingSet, mem_votingSet]
  refine or_congr Iff.rfl ?_
  constructor
  · rintro ⟨x, hx, hv, he⟩
    obtain ⟨y, hy, rfl⟩ := mem_map.mp hx
    refine ⟨y, hy, ?_, ?_⟩
    · split at hv <;> exact hv
    · split at he <;> exact he
  · rintro ⟨x, hx, hv, he⟩
    refine ⟨_, mem_map_of_mem hx, ?_, ?_⟩
    · split <;> exact hv
    · split <;> exact he

end PxMembers

/-! ## One sequence of voting sets -/

section

variable (plan : ℕ → Finset ℕ)

/-- The node is wired to other members, or it is the voting set of its epoch. -/
def TakesPart (g : PxMembers) : Prop := g.remotes ≠ [] ∨ g.votingSet = plan g.membershipEpoch
deriving Decidable

/-- Raising the epoch of a wired node does not change the voting set it stands for. -/
def MayAdopt (g : PxMembers) (epoch : ℕ) : Prop :=
  g.membershipEpoch < epoch → g.remotes = [] ∨ plan epoch = plan g.membershipEpoch
deriving Decidable

/-- A request of this epoch finds the node taking part, or free to adopt. -/
def PassesFence (g : PxMembers) (epoch : ℕ) : Prop :=
  if epoch = g.membershipEpoch then TakesPart plan g else MayAdopt plan g epoch
deriving Decidable

/-- Every voting-set change among these additions is the next one of the plan. -/
def AddsFollow : PxMembers → List RemoteReplica → Prop
  | _, [] => True
  | g, r :: rs =>
    (g.wasVoting r.nodeId ≠ r.voting → plan (g.membershipEpoch + 1) =
      PxMembers.withVoter (plan g.membershipEpoch) r.nodeId r.voting) ∧
    AddsFollow (g.addRemoteReplica r) rs

/-- The condition on a step: the whole cluster follows the plan. -/
def FollowsPlan (s : EpochState) : EpochEvent → Prop
  | .addRemotes n remotes =>
    if (s.nodes n).remotes = [] then
      ((s.nodes n).setRemoteReplicas remotes).votingSet = plan (s.nodes n).membershipEpoch
    else AddsFollow plan (s.nodes n) remotes
  | .removeRemote n id => (s.nodes n).wasVoting id = true →
      plan ((s.nodes n).membershipEpoch + 1) = (plan (s.nodes n).membershipEpoch).erase id
  | .updateEndpoint n id _ => ∃ x ∈ (s.nodes n).remotes, x.nodeId = id
  | .send n _ => TakesPart plan (s.nodes n)
  | .deliver i => ∀ m ∈ s.requests[i]?, PassesFence plan (s.nodes m.acceptor) m.membershipEpoch
  | .reply proposer epoch => MayAdopt plan (s.nodes proposer) epoch

instance AddsFollow.decidable :
    ∀ (g : PxMembers) (rs : List RemoteReplica), Decidable (AddsFollow plan g rs)
  | _, [] => isTrue trivial
  | g, r :: rs =>
    haveI := AddsFollow.decidable (g.addRemoteReplica r) rs
    inferInstanceAs (Decidable (_ ∧ _))

instance : ∀ (s : EpochState) (e : EpochEvent), Decidable (FollowsPlan plan s e)
  | s, .addRemotes n _ => inferInstanceAs (Decidable (if (s.nodes n).remotes = [] then _ else _))
  | _, .removeRemote _ _ => inferInstanceAs (Decidable (_ → _))
  | _, .updateEndpoint _ _ _ => inferInstanceAs (Decidable (∃ _ ∈ _, _))
  | s, .send n _ => inferInstanceAs (Decidable (TakesPart plan (s.nodes n)))
  | _, .deliver _ => inferInstanceAs (Decidable (∀ _ ∈ _, _))
  | s, .reply proposer epoch => inferInstanceAs (Decidable (MayAdopt plan (s.nodes proposer) epoch))

/-! ## Every node that takes part has the voting set of its epoch -/

/-- A wired node has the voting set of its epoch. -/
def PxMembers.Planned (g : PxMembers) : Prop := g.remotes = [] ∨ g.votingSet = plan g.membershipEpoch

variable {plan}

theorem PxMembers.Planned.of_takesPart (h : g.Planned plan) (ht : TakesPart plan g) :
    g.votingSet = plan g.membershipEpoch := by
  rcases h with h | h
  · exact ht.resolve_left (not_not.mpr h)
  · exact h

theorem PxMembers.Planned.adopt (h : g.Planned plan) {epoch : ℕ} (hm : MayAdopt plan g epoch) :
    (g.adoptMembershipEpoch epoch).Planned plan := by
  unfold PxMembers.adoptMembershipEpoch
  split
  · next hlt =>
    rcases hm hlt with hn | he
    · exact .inl hn
    · exact h.imp id fun h => h.trans he.symm
  · exact h

theorem addRemoteReplica_planned (h : g.votingSet = plan g.membershipEpoch) {r : RemoteReplica}
    (hid : r.nodeId ≠ g.localId)
    (hf : g.wasVoting r.nodeId ≠ r.voting → plan (g.membershipEpoch + 1) =
        PxMembers.withVoter (plan g.membershipEpoch) r.nodeId r.voting) :
    (g.addRemoteReplica r).votingSet = plan (g.addRemoteReplica r).membershipEpoch := by
  rw [PxMembers.votingSet_addRemoteReplica hid]
  unfold PxMembers.addRemoteReplica
  split
  · next hne => rw [h, ← hf hne]; rfl
  · exact h

/-- Additions one by one: each starts from the voting set that the one before has led to. -/
theorem foldl_addRemoteReplica_planned : ∀ {rs : List RemoteReplica} {g : PxMembers},
    g.votingSet = plan g.membershipEpoch → (∀ r ∈ rs, r.nodeId ≠ g.localId) →
    AddsFollow plan g rs → (rs.foldl PxMembers.addRemoteReplica g).votingSet =
      plan (rs.foldl PxMembers.addRemoteReplica g).membershipEpoch
  | [], _, h, _, _ => h
  | r :: rs, g, h, hid, hf => by
    have hloc : (g.addRemoteReplica r).localId = g.localId := by
      unfold PxMembers.addRemoteReplica
      split <;> rfl
    rw [foldl_cons]
    refine foldl_addRemoteReplica_planned
      (addRemoteReplica_planned h (hid r mem_cons_self) hf.1) (fun r' hr' => ?_) hf.2
    rw [hloc]
    exact hid r' (mem_cons_of_mem _ hr')

/-- Nodes and requests in flight have the voting set of their epoch, and quorums are majorities. -/
structure EpochState.Planned (plan : ℕ → Finset ℕ) (s : EpochState) : Prop where
  nodes : ∀ n, (s.nodes n).Planned plan
  requests : ∀ m ∈ s.requests, m.voters = plan m.membershipEpoch ∧ ∃ k, m.voters.card ≤ k ∧
    m.quorum = majority k
  processed : ∀ x ∈ s.processed, x.QuorumsIntersect

variable {s s' : EpochState}

theorem EpochState.Planned.setNode (h : s.Planned plan) {n : ℕ} (hg : g.Planned plan) :
    (s.setNode n g).Planned plan := by
  refine ⟨fun k => ?_, h.requests, h.processed⟩
  by_cases hk : k = n
  · subst hk
    simpa [EpochState.setNode] using hg
  · simpa [EpochState.setNode, Function.update_of_ne hk] using h.nodes k

/-- A request that passes the fence was sent from the acceptor's own voting set. -/
theorem EpochState.Planned.handleRequest (h : s.Planned plan) {m : EpochRequest}
    (hm : m ∈ s.requests) (hok : PassesFence plan (s.nodes m.acceptor) m.membershipEpoch) :
    (s.handleRequest m).Planned plan := by
  obtain ⟨hv, k, hk, hq⟩ := h.requests m hm
  unfold PassesFence at hok
  unfold EpochState.handleRequest
  dsimp only
  split
  · next hne =>
    rw [if_neg hne] at hok
    have hn := h.setNode (n := m.acceptor) ((h.nodes m.acceptor).adopt hok)
    exact { hn with }
  · next heq =>
    rw [not_not] at heq
    rw [if_pos heq] at hok
    refine ⟨h.nodes, h.requests, fun x hx => ?_⟩
    rcases mem_cons.mp hx with rfl | hx
    · have hset : m.voters = (s.nodes m.acceptor).votingSet := by
        rw [hv, heq, (h.nodes m.acceptor).of_takesPart hok]
      intro Q Q' hQ hQ'
      have hQV : IsQuorum m.voters (s.nodes m.acceptor).quorum Q' := by rw [hset]; exact hQ'
      have hcard := PxMembers.card_votingSet_le (g := s.nodes m.acceptor)
      rw [← hset] at hcard
      refine IsQuorum.inter_nonempty hQ hQV ?_
      show m.voters.card < m.quorum + (s.nodes m.acceptor).quorum
      rw [hq]
      exact lt_majority_add_majority hk hcard
    · exact h.processed x hx

theorem EpochState.Planned.step (h : s.Planned plan) {e : EpochEvent} (hok : FollowsPlan plan s e)
    (hs : epochStep s e = some s') : s'.Planned plan := by
  cases e with
  | addRemotes n remotes =>
    simp only [epochStep] at hs
    split at hs
    · cases hs; exact h
    · next hany =>
      cases hs
      refine h.setNode ?_
      have hid : ∀ r ∈ remotes, r.nodeId ≠ (s.nodes n).localId := by simpa using hany
      simp only [FollowsPlan] at hok
      unfold PxMembers.rebuildWithNewRemotes
      split
      · next hn => rw [if_pos hn] at hok; exact .inr hok
      · next hn =>
        rw [if_neg hn] at hok
        exact .inr (foldl_addRemoteReplica_planned ((h.nodes n).resolve_left hn) hid hok)
  | removeRemote n =>
    simp only [epochStep] at hs
    split at hs
    · cases hs; exact h
    · next hid =>
      cases hs
      refine h.setNode ?_
      rcases h.nodes n with hn | hn
      · left
        unfold PxMembers.removeRemoteReplica
        split <;> simp [hn, PxMembers.bumpMembershipEpoch]
      · refine .inr ?_
        rw [PxMembers.votingSet_removeRemoteReplica hid]
        unfold PxMembers.removeRemoteReplica
        split
        · next hw => rw [hn, ← hok hw]; rfl
        · exact hn
  | updateEndpoint n =>
    cases hs
    refine h.setNode ?_
    have hne : (s.nodes n).remotes ≠ [] := by
      obtain ⟨x, hx, -⟩ := hok
      exact ne_nil_of_mem hx
    refine .inr ?_
    rw [PxMembers.votingSet_updateMemberEndpoint hok, (h.nodes n).resolve_left hne]
    unfold PxMembers.updateMemberEndpoint
    split <;> rfl
  | send n =>
    cases hs
    exact ⟨h.nodes, forall_mem_concat h.requests
      ⟨(h.nodes n).of_takesPart hok, _, PxMembers.card_votingSet_le, rfl⟩, h.processed⟩
  | deliver =>
    obtain ⟨m, hm, rfl⟩ := Option.map_eq_some_iff.mp hs
    exact h.handleRequest (mem_of_getElem? hm) (hok m hm)
  | reply proposer =>
    simp only [epochStep] at hs
    split at hs
    · cases hs
      exact h.setNode ((h.nodes proposer).adopt hok)
    · simp at hs

end

/-- **The fence protects quorum intersection** in every run that follows one sequence
    of voting sets. -/
theorem quorumsIntersect_of_reach (plan : ℕ → Finset ℕ) (localVoting : ℕ → Bool) {s : EpochState}
    (hr : Reach epochStep (FollowsPlan plan) (EpochState.init localVoting) s) :
    ∀ x ∈ s.processed, x.QuorumsIntersect := by
  have hp : s.Planned plan := by
    refine Reach.invariant (P := EpochState.Planned plan) ?_ (fun h hok hs => h.step hok hs) hr
    exact ⟨fun n => .inl rfl, by simp [EpochState.init], by simp [EpochState.init]⟩
  exact hp.processed

/-- Three nodes are wired, two of them add node `4`, and a request between them passes. -/
theorem quorumsIntersect_planned_run : ∃ s,
    Reach epochStep (FollowsPlan fun e => if e = 0 then {1, 2, 3} else {1, 2, 3, 4})
      (EpochState.init fun _ => true) s ∧
    s.processed ≠ [] ∧ ∀ x ∈ s.processed, x.QuorumsIntersect := by
  exact Reach.exists_imp_of_run (fun s => ¬ s.processed.isEmpty)
    [.addRemotes 1 [⟨2, "b", true⟩, ⟨3, "c", true⟩], .addRemotes 2 [⟨1, "a", true⟩, ⟨3, "c", true⟩],
        .addRemotes 1 [⟨4, "d", true⟩], .addRemotes 2 [⟨4, "d", true⟩], .send 1 2,
          .deliver 0] (by decide) fun s hr hne => ⟨by simpa using hne,
          quorumsIntersect_of_reach _ _ hr⟩

/-- Node `1` adds `4` and `5`; node `2`, with `{1, 2, 3}`, adopts the number `2`. The next request
    passes, although `{1, 4, 5}` and `{2, 3}` are quorums. -/
theorem quorums_disjoint_after_adoption :
    ∃ s, Reach epochStep anyStep (EpochState.init fun _ => true) s ∧
    ∃ x ∈ s.processed, ¬ x.QuorumsIntersect := by
  refine Reach.exists_imp_of_run (fun s => ∃ x ∈ s.processed, x.voters = {1, 2, 3, 4, 5} ∧
    x.quorum = 3 ∧
      x.voters' = {1, 2, 3} ∧ x.quorum' = 2)
    [.addRemotes 1 [⟨2, "b", true⟩, ⟨3, "c", true⟩], .addRemotes 2 [⟨1, "a", true⟩, ⟨3, "c", true⟩],
        .addRemotes 1 [⟨4, "d", true⟩, ⟨5, "e", true⟩], .send 1 2, .deliver 0, .send 1 2,
          .deliver 1] (by decide) fun s _ ⟨x, hx, hv, hq, hv', hq'⟩ => ?_
  refine ⟨x, hx, fun h => ?_⟩
  have hne := h {1, 4, 5} {2, 3} ⟨by rw [hv]; decide, by rw [hq]; decide⟩
    ⟨by rw [hv']; decide, by rw [hq']; decide⟩
  exact not_nonempty_empty hne

end CrowDB
