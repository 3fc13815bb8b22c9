/-
  The slots in which a client request is chosen.

  A proposal whose slot failed takes the next slot with the same payload, and so does the
  retry of a client that finds no dedup entry.  The slot left behind may hold the payload
  at some acceptors, and it may be chosen there without the proposer knowing.

  The proposer does not close the slot it abandons: `request_chosen_twice`.
-/
import CrowDB.Cluster.DedupAnswers

namespace CrowDB

open Lib Option Finset

/-! ## Restarts that keep the accepted entries -/

theorem VoteInv.restart {E : Set Effect} {r : Replica} {records : List WALRecord} {resumeFrom : ℕ}
    {ok : ℕ → Bool} (hinv : VoteInv E r)
    (hkept : ∀ slot, (r.restoreFromReplay records resumeFrom ok).acceptor.acceptedAt slot =
      r.acceptor.acceptedAt slot) :
    VoteInv E (r.restoreFromReplay records resumeFrom ok) := by
  -- nothing is pending after a restart
  have hpending : (r.restoreFromReplay records resumeFrom ok).pending = [] := by
    simp [Replica.restoreFromReplay, Replica.new]
  have hold : ∀ {p}, Reported E (r.restoreFromReplay records resumeFrom ok) p → Reported E r p := by
    rintro p (he | ⟨a, ha, -⟩)
    · exact .inl he
    · simp [hpending] at ha
  refine ⟨fun {slot e} ha => hinv.voted_accepted (hkept slot ▸ ha), fun {e} he => ?_,
    fun hr => hinv.le_report (hold hr), fun hr => hinv.voted_report (hold hr), hinv.voted_gap,
    fun a ha => ?_, hinv.voted_ack⟩
  · rw [hkept]
    exact hinv.le_accepted he
  · simp [hpending] at ha

namespace GroupState

variable {cfg : GroupConfig} {s s' : GroupState} {e : GroupEvent} {tag : DedupTag}
  {req req' : AcceptRequest}
  {o : Outcome}

/-- A replica that restarts finds the accepted entry of every slot in its WAL. -/
def AcceptedKept (s : GroupState) (e : GroupEvent) : Prop :=
  ∀ n records resumeFrom ok, e = .act n (.restart records resumeFrom ok) → ∀ slot,
    ((s.replicas n).restoreFromReplay records resumeFrom ok).acceptor.acceptedAt slot =
      (s.replicas n).acceptor.acceptedAt slot

theorem acceptedKept_of_not_restart (h : e.isRestart = false) : s.AcceptedKept e := by
  rintro n records resumeFrom ok rfl
  simp [GroupEvent.isRestart] at h

theorem history_restart (he : e.isRestart = true) (h : groupStep cfg s e = some s') :
    s'.history = s.history := by
  obtain ⟨n, records, resumeFrom, ok, rfl, -, -, rfl⟩ := restart_of_groupStep he h
  simp [after]

theorem PaxosInv.restart (hinv : PaxosInv cfg s) (he : e.isRestart = true) (hkept : s.AcceptedKept e)
    (h : groupStep cfg s e = some s') : PaxosInv cfg s' := by
  have hhistory := history_restart he h
  have hpromise := promiseInv_step hinv.promise h
  have hproposer := proposersInv_step hinv.proposer h
  obtain ⟨n, records, resumeFrom, ok, rfl, -, -, rfl⟩ := restart_of_groupStep he h
  refine ⟨hpromise, hproposer, ?_, fun hm => ?_⟩
  · refine forall_after hinv.vote ?_
    simpa using (hinv.vote n).restart (hkept n records resumeFrom ok rfl)
  · rw [hhistory] at hm
    obtain ⟨req, hreq, hentry⟩ := hinv.voted_sent hm
    exact ⟨req, by rwa [accepts, hhistory], hentry⟩

/-- The steps of a run whose restarts keep the accepted entries, and in which fast
    proposals of one slot agree. -/
def RestartSafe (cfg : GroupConfig) (s : GroupState) (e : GroupEvent) : Prop :=
  s.AcceptedKept e ∧ s.FastAcceptsAgree cfg e

theorem paxosInv_of_reach (h : Reach (groupStep cfg) (RestartSafe cfg) .init s) :
    PaxosInv cfg s ∧ s.OneFastPayload := by
  refine Reach.invariant (P := fun s => PaxosInv cfg s ∧ s.OneFastPayload)
    ⟨PaxosInv.init, by simp [OneFastPayload, accepts, GroupState.init]⟩ ?_ h
  rintro s e s' ⟨hinv, hfast⟩ ⟨hkept, hagree⟩ hs
  cases he : e.isRestart with
  | false => exact ⟨hinv.step he hs, hfast.step hinv.proposer he hagree hs⟩
  | true =>
    refine ⟨hinv.restart he hkept hs, ?_⟩
    unfold OneFastPayload accepts
    rw [history_restart he hs]
    exact hfast

/-! ## The slots of a request -/

variable (cfg)

/-- The `Accept` carries the payload of the request. -/
def Submits (req : AcceptRequest) (tag : DedupTag) : Prop :=
  tag ∈ req.tags ∧ cfg.Carries req.entry.payload tag

variable (s)

/-- The payload of the request was sent for the slot, and is chosen there. -/
def PlacedAt (tag : DedupTag) (slot : ℕ) : Prop :=
  ∃ req ∈ s.accepts, Submits cfg req tag ∧ req.entry.slot = slot ∧ s.Chosen cfg slot req.entry.payload

/-- Another payload than that of the `Accept` is chosen at its slot. -/
def Superseded (req : AcceptRequest) : Prop :=
  ∃ v, v ≠ req.entry.payload ∧ s.Chosen cfg req.entry.slot v

/-- The `Accept` requests that the event sends. -/
def sentAccepts (e : GroupEvent) : List AcceptRequest :=
  ((s.outcome cfg e).elim [] Prod.snd).filterMap fun
    | .send (.accept req) => some req
    | _ => none

/-- A payload that is sent again has lost every other slot it was sent for. -/
def ClosedBehind (e : GroupEvent) : Prop :=
  ∀ req ∈ s.sentAccepts cfg e, ∀ tag, Submits cfg req tag →
    ∀ earlier ∈ s.accepts, Submits cfg earlier tag → earlier.entry.slot ≠ req.entry.slot →
      s.Superseded cfg earlier

variable {s}

variable {cfg}

theorem mem_sentAccepts (ho : s.outcome cfg e = some o) :
    req ∈ s.sentAccepts cfg e ↔ .send (.accept req) ∈ o.2 := by
  unfold sentAccepts
  rw [ho, elim_some, List.mem_filterMap]
  constructor
  · rintro ⟨out, hout, heq⟩
    split at heq
    · cases heq
      exact hout
    · simp at heq
  · intro h
    exact ⟨_, h, rfl⟩

/-- Of two slots for which a request was sent, at least one has another payload. -/
def OneSlotOpen (cfg : GroupConfig) (s : GroupState) : Prop :=
  ∀ req ∈ s.accepts, ∀ req' ∈ s.accepts, ∀ tag, Submits cfg req tag → Submits cfg req' tag →
    req.entry.slot ≠ req'.entry.slot → s.Superseded cfg req ∨ s.Superseded cfg req'

theorem chosen_after {n : ℕ} {slot : ℕ} {v : Bytes} (h : s.Chosen cfg slot v) :
    (s.after n o).Chosen cfg slot v := by
  obtain ⟨b, hb⟩ := h
  refine ⟨b, hb.trans (card_le_card fun m hm => ?_)⟩
  obtain ⟨hvoter, ⟨p, hp, hrest⟩⟩ := mem_filter.mp hm
  refine mem_filter.mpr ⟨hvoter, p, ?_, hrest⟩
  exact mem_votes.mpr (mem_history_after.mpr (.inl (mem_votes.mp hp)))

theorem Superseded.after {n : ℕ} (h : s.Superseded cfg req) : (s.after n o).Superseded cfg req := by
  obtain ⟨v, hne, hv⟩ := h
  exact ⟨v, hne, chosen_after hv⟩

theorem accept_sent_unique
    (hmove : ProposerMove cfg e.replica e s.history (s.replicas e.replica) o)
    (hreq : .send (.accept req) ∈ o.2) (hreq' : .send (.accept req') ∈ o.2) : req = req' := by
  cases hmove with
  | quiet _ houts => simpa [Effect.isRequest] using houts _ hreq
  | acceptZero k slot payload tags p q hev hclassic hk hna hatt houts
  | acceptPrepared k job entry entry' foreign replies hev hk hna hslot hballot hquorum hadopted hatt
      houts =>
    simp only [houts, List.mem_singleton, Effect.send.injEq, Msg.accept.injEq] at hreq hreq'
    exact hreq.trans hreq'.symm
  | prepare | reply | ack => rename_i houts; simp [houts] at hreq

theorem accept_unique_of_outcome
    (ho : s.outcome cfg e = some o) (hreq : .send (.accept req) ∈ o.2)
    (hreq' : .send (.accept req') ∈ o.2) : req = req' := by
  cases he : e.isRestart with
  | false => exact accept_sent_unique (replicaStep_of_outcome he ho).proposerMove hreq hreq'
  | true =>
    -- a restart sends nothing
    have hhistory := history_restart he (map_eq_some_iff.mpr ⟨o, ho, rfl⟩)
    have hnone : o.2 = [] := by simpa [after] using hhistory
    simp [hnone] at hreq

theorem OneSlotOpen.step (hopen : s.OneSlotOpen cfg) (hok : s.ClosedBehind cfg e)
    (h : groupStep cfg s e = some s') : s'.OneSlotOpen cfg := by
  obtain ⟨o, ho, rfl⟩ := map_eq_some_iff.mp h
  -- an `Accept` of this step against one sent before
  have hnew : ∀ {req earlier : AcceptRequest}, .send (.accept req) ∈ o.2 → earlier ∈ s.accepts →
      ∀ tag, Submits cfg req tag → Submits cfg earlier tag → earlier.entry.slot ≠ req.entry.slot →
        (s.after e.replica o).Superseded cfg earlier := fun hreq hearlier tag ht ht' hne =>
    (hok _ ((mem_sentAccepts ho).mpr hreq) tag ht _ hearlier ht' hne).after
  intro req hreq req' hreq' tag ht ht' hne
  rcases mem_accepts_after.mp hreq with hreq | hreq <;>
    rcases mem_accepts_after.mp hreq' with hreq' | hreq'
  · exact (hopen req hreq req' hreq' tag ht ht' hne).imp Superseded.after Superseded.after
  · exact .inl (hnew hreq' hreq tag ht' ht hne)
  · exact .inr (hnew hreq hreq' tag ht ht' hne.symm)
  · exact absurd (by rw [accept_unique_of_outcome ho hreq hreq']) hne

theorem oneSlotOpen_of_reach {ok : GroupState → GroupEvent → Prop}
    (hok : ∀ s e, ok s e → s.ClosedBehind cfg e) (h : Reach (groupStep cfg) ok .init s) :
    s.OneSlotOpen cfg := by
  refine Reach.invariant (P := fun s => s.OneSlotOpen cfg)
    (by simp [OneSlotOpen, accepts, GroupState.init]) (fun hopen he hs => ?_) h
  exact hopen.step (hok _ _ he) hs

/-- **One slot per request**, if restarts keep accepted entries, fast proposals of a slot agree, and
    a payload goes to another slot only when the former ones are chosen otherwise. -/
theorem placed_slot_unique
    (h : Reach (groupStep cfg) (fun s e => s.RestartSafe cfg e ∧ s.ClosedBehind cfg e) .init s)
    {slot slot' : ℕ} (hp : s.PlacedAt cfg tag slot) (hp' : s.PlacedAt cfg tag slot') :
    slot = slot' := by
  obtain ⟨hinv, hfast⟩ := paxosInv_of_reach (h.weaken fun _ _ hok => hok.1)
  have hopen : s.OneSlotOpen cfg := oneSlotOpen_of_reach (fun _ _ hok => hok.2) h
  obtain ⟨req, hreq, ht, rfl, hchosen⟩ := hp
  obtain ⟨req', hreq', ht', rfl, hchosen'⟩ := hp'
  by_contra hne
  rcases hopen req hreq req' hreq' tag ht ht' hne with ⟨v, hv, hc⟩ | ⟨v, hv, hc⟩
  · exact hv (hinv.chosen_eq hfast hc hchosen)
  · exact hv (hinv.chosen_eq hfast hc hchosen')

/-! ## Runs -/

/-- `ClosedBehind`, read off the tags and the votes alone. -/
def TagsClosedBehind (cfg : GroupConfig) (s : GroupState) (e : GroupEvent) : Prop :=
  ∀ req ∈ s.sentAccepts cfg e, ∀ tag ∈ req.tags, ∀ earlier ∈ s.accepts, tag ∈ earlier.tags →
    earlier.entry.slot ≠ req.entry.slot → ∃ p ∈ s.votes, p.2.payload ≠ earlier.entry.payload ∧
      s.ChosenAt cfg earlier.entry.slot p.2.ballot p.2.payload
deriving Decidable

theorem TagsClosedBehind.closedBehind (h : s.TagsClosedBehind cfg e) : s.ClosedBehind cfg e := by
  intro req hreq tag ht earlier hearlier ht' hne
  obtain ⟨p, -, hpayload, hchosen⟩ := h req hreq tag ht.1 earlier hearlier ht'.1 hne
  exact ⟨p.2.payload, hpayload, p.2.ballot, hchosen⟩

/-- The client's value at slot `1` is outvoted by a `NoOp`, and the retry is chosen at slot `3`. -/
def closedSlotRun : List GroupEvent := outvotedRun (some ⟨7, 1⟩) ++
  [.act 3 (.propose (some ⟨7, 1⟩) [65]), .act 3 (.acquire 3), .act 3 (.start 3), .deliver 3 28 true,
    .deliver 1 28 true]

/-- The retry is the only slot of the request. -/
theorem placed_slot_unique_after_retry : ∃ s, Reach (groupStep taggedGroup)
    (fun s e => s.RestartSafe taggedGroup e ∧ s.ClosedBehind taggedGroup e) .init s ∧
      s.PlacedAt taggedGroup ⟨7, 1⟩ 3 ∧ ∀ slot, s.PlacedAt taggedGroup ⟨7, 1⟩ slot → slot = 3 := by
  obtain ⟨s, hr, hs⟩ : ∃ s, Reach (groupStep taggedGroup) (fun s e => s.FastSafe taggedGroup e ∧
    s.TagsClosedBehind taggedGroup e) .init s ∧
        ⟨3, 3, ⟨3, ⟨0, 3⟩, 2, [65]⟩, [⟨7, 1⟩]⟩ ∈ s.accepts ∧
        s.ChosenAt taggedGroup 3 ⟨0, 3⟩ [65] :=
    Reach.exists_of_run closedSlotRun (by decide +kernel)
  obtain ⟨hsent, hchosen⟩ := hs
  have hreach : Reach (groupStep taggedGroup)
      (fun s e => s.RestartSafe taggedGroup e ∧ s.ClosedBehind taggedGroup e) .init s :=
    hr.weaken fun _ _ hok =>
      ⟨⟨acceptedKept_of_not_restart hok.1.1, hok.1.2⟩, hok.2.closedBehind⟩
  have hplaced : s.PlacedAt taggedGroup ⟨7, 1⟩ 3 := ⟨_, hsent, ⟨by simp, .inl rfl⟩, rfl, _, hchosen⟩
  exact ⟨s, hreach, hplaced, fun slot hp => placed_slot_unique hreach hp hplaced⟩

/-- Slot `1` is chosen by replicas `3` and `1`, but leader `3` has only its own reply, and proposes
    at slot `2` again. -/
def openSlotRun : List GroupEvent := firstWriteRun 3 1 (some ⟨7, 1⟩) ++
  [.deliver 3 10 true, .act 3 (.acceptDone 3 true), .act 3 (.start 4), .deliver 3 12 true,
    .deliver 1 12 true]

/-- A request is chosen in two slots, in one tenure, without a crash. -/
theorem request_chosen_twice : ∃ s, Reach (groupStep taggedGroup) (FastSafe taggedGroup) .init s ∧
    s.PlacedAt taggedGroup ⟨7, 1⟩ 1 ∧ s.PlacedAt taggedGroup ⟨7, 1⟩ 2 := by
  exact Reach.exists_imp_of_run (fun s => (⟨3, 3, ⟨1, ⟨0, 3⟩, 1, [65]⟩, [⟨7, 1⟩]⟩ ∈ s.accepts ∧
      s.ChosenAt taggedGroup 1 ⟨0, 3⟩ [65]) ∧ ⟨3, 4, ⟨2, ⟨0, 3⟩, 1, [65]⟩, [⟨7, 1⟩]⟩ ∈ s.accepts ∧
      s.ChosenAt taggedGroup 2 ⟨0, 3⟩ [65])
    openSlotRun (by decide +kernel) fun s _ ⟨⟨hsent, hchosen⟩, hsent', hchosen'⟩ =>
      ⟨⟨_, hsent, ⟨by simp,
      .inl rfl⟩, rfl, _, hchosen⟩, ⟨_, hsent', ⟨by simp, .inl rfl⟩, rfl, _, hchosen'⟩⟩

end GroupState

end CrowDB
