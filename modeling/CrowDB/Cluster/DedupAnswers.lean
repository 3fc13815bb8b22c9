/-
  Answers from the dedup windows.

  A client tag is recorded against a slot by every follower that accepts a request with the tag, and
  by the leader that gets the request chosen; a retry that finds its tag is answered with the slot.

  A follower records the tag when it accepts, before the slot is chosen, and never drops it:
  `answer_for_replaced_value`.  Where no replica replaces a value whose tag it has recorded, the
  acceptor of each window holds what the client submitted (`DedupInv`), and it is chosen once the
  learner counts the slot.
-/
import CrowDB.Cluster.ApplySafety

namespace CrowDB

open Lib Option

/-- The payload is what the client submitted under the tag, alone or in a round of the
    coalescer. -/
def GroupConfig.Carries (cfg : GroupConfig) (payload : Bytes) (tag : DedupTag) : Prop :=
  payload = cfg.submitted tag ∨
    ∃ ops, (some tag, cfg.submitted tag) ∈ ops ∧ payload = roundPayload ops

/-! ## What proposals carry -/

/-- The payload of the job is what was submitted under each of its tags. -/
def Job.Tagged (cfg : GroupConfig) (job : Job) : Prop := ∀ tag ∈ job.tags, cfg.Carries job.payload tag

/-- The job is tagged right, and Phase 1 runs with its payload. -/
structure Attempt.Tagged (cfg : GroupConfig) (a : Attempt) : Prop where
  job : a.job.Tagged cfg
  preparing : ∀ {entry replies}, a.phase = .preparing entry replies → entry.payload = a.job.payload

/-- The proposals of a replica and its open batch. -/
structure TagInv (cfg : GroupConfig) (r : Replica) : Prop where
  attempt : ∀ {k a}, r.attempts k = some a → a.Tagged cfg
  batch : ∀ {tag payload}, (some tag, payload) ∈ r.batch → payload = cfg.submitted tag

variable {cfg : GroupConfig} {a : Attempt} {job : Job} {o : Outcome} {H : List (ℕ × Effect)}
  {ev : GroupEvent}
  {r : Replica}

section

variable {payload : Bytes}

theorem Job.Tagged.of_tags_eq_nil (h : job.tags = []) : job.Tagged cfg := by
  intro tag ht
  simp [h] at ht

theorem Job.Tagged.attempt (h : job.Tagged cfg) {phase : Phase}
    (hp : ∀ entry replies, phase ≠ .preparing entry replies) : Attempt.Tagged cfg ⟨job, phase⟩ :=
  ⟨h, fun heq => absurd heq (hp _ _)⟩

theorem Job.Tagged.propose {tag : Option DedupTag} (h : ∀ t ∈ tag, payload = cfg.submitted t) :
    Job.Tagged cfg (.propose payload tag.toList 0 0) := by
  intro t ht
  exact .inl (h t (mem_toList.mp ht))

theorem Job.Tagged.round {ops : List (Option DedupTag × Bytes)}
    (h : ∀ {tag payload}, (some tag, payload) ∈ ops → payload = cfg.submitted tag) :
    Job.Tagged cfg (.propose (roundPayload ops) (roundTags ops) 0 0) := by
  intro tag ht
  obtain ⟨⟨_, payload⟩, hop, rfl⟩ := List.mem_filterMap.mp ht
  exact .inr ⟨ops, h hop ▸ hop, rfl⟩

end

namespace TagInv

variable {n k : ℕ} {r' : Replica}

variable (h : TagInv cfg r)
include h

theorem same (hatt : r'.attempts = r.attempts) (hbatch : r'.batch = r.batch) : TagInv cfg r' :=
  ⟨fun hk => h.attempt (hatt ▸ hk), fun hb => h.batch (hbatch ▸ hb)⟩

theorem setAttempt {o : Option Attempt}
    (ho : ∀ a ∈ o, a.Tagged cfg) : TagInv cfg (r.setAttempt k o) := by
  refine ⟨fun {k' a} hk => ?_, h.batch⟩
  by_cases he : k' = k
  · subst he
    simp only [Replica.setAttempt, Function.update_self] at hk
    exact ho a hk
  · simp only [Replica.setAttempt, Function.update_of_ne he] at hk
    exact h.attempt hk

theorem drop : TagInv cfg (r.setAttempt k none) := h.setAttempt (by simp)

theorem newAttempt (ha : a.Tagged cfg) : TagInv cfg (r.newAttempt a) :=
  (h.setAttempt (k := r.nextAttempt) (o := some a) (by simpa using ha)).same rfl rfl

theorem renewAttempt (ha : a.Tagged cfg) : TagInv cfg (r.renewAttempt k a) :=
  (h.drop (k := k)).newAttempt ha

theorem beginPrepare (hjob : job.Tagged cfg) (slot minRound : ℕ) :
    TagInv cfg (r.beginPrepare n k job slot minRound).1 := by
  refine h.setAttempt fun a ha => ?_
  obtain rfl := mem_some_iff.mp ha
  refine ⟨hjob, fun {entry replies} heq => ?_⟩
  obtain ⟨rfl, -⟩ := Phase.preparing.inj heq
  rfl

theorem slotEnd (hjob : job.Tagged cfg) (hend : SlotEnd r k job r') : TagInv cfg r' := by
  cases hend with
  | ended => exact (h.drop (k := k)).same rfl rfl
  | renew next _ _ hearly hpayload htags =>
    have hsame : TagInv cfg { r with nextSlot := next } := h.same rfl rfl
    refine hsame.renewAttempt ⟨?_, fun hp => ?_⟩
    · unfold Job.Tagged
      rw [htags, hpayload]
      exact hjob
    · rw [hp] at hearly
      cases hearly

end TagInv

open Replica in
theorem ReplicaStep.tagInv {n : ℕ} (h : ReplicaStep cfg n ev H r o) (hinv : TagInv cfg r) :
    TagInv cfg o.1 := by
  cases h with
  | tenureBulk =>
    have htenure : TagInv cfg { r with
        campaign := .leading r.currentTerm
        proposingTerm := r.currentTerm
        pendingHandoff := none } := hinv.same rfl rfl
    exact htenure.newAttempt ((Job.Tagged.of_tags_eq_nil rfl).attempt (by simp))
  | enqueue tag payload hpay =>
    refine ⟨hinv.attempt, fun {t p} hb => ?_⟩
    rcases List.mem_append.mp hb with hb | hb
    · exact hinv.batch hb
    · obtain ⟨rfl, rfl⟩ : some t = tag ∧ p = payload := by simpa using hb
      exact hpay t rfl
  | propose _ _ hpay => exact hinv.newAttempt ((Job.Tagged.propose hpay).attempt (by simp))
  | flush =>
    have hempty : TagInv cfg { r with batch := [] } := ⟨hinv.attempt, by simp⟩
    exact hempty.newAttempt ((Job.Tagged.round hinv.batch).attempt (by simp))
  | flushClosed => exact ⟨hinv.attempt, by simp⟩
  | assign _ _ _ _ _ hk =>
    have hnext : TagInv cfg { r with nextSlot := r.nextSlot + 1 } := hinv.same rfl rfl
    exact hnext.setAttempt (by simpa using (hinv.attempt hk).job.attempt (by simp))
  | planBulk =>
    exact hinv.setAttempt (by simpa using (Job.Tagged.of_tags_eq_nil rfl).attempt (by simp))
  | drop => exact hinv.drop
  | finishBulk k =>
    exact (hinv.drop (k := k)).same rfl rfl
  | beginPrepare _ slot minRound _ hk =>
    exact hinv.beginPrepare (hinv.attempt hk).job slot minRound
  | repair slot =>
    have hnumber : TagInv cfg { r with nextAttempt := r.nextAttempt + 1 } := hinv.same rfl rfl
    exact hnumber.beginPrepare (Job.Tagged.of_tags_eq_nil rfl) slot 0
  | acceptZero k slot payload tags p s hev hclassic hk
  | acceptPrepared k job entry entry' foreign replies hev hk
  | acceptReply _ _ _ _ _ _ _ hk =>
    exact hinv.setAttempt (by simpa using (hinv.attempt hk).job.attempt (by simp))
  | endSlot _ _ f _ hk hend =>
    have hfence : TagInv cfg f.replica := hinv.same rfl rfl
    exact hfence.slotEnd (hinv.attempt hk).job hend
  | chosen _ _ _ _ _ pending learner applying _ hk _ _ _ _ _ hend =>
    have hlearned : TagInv cfg
        { r with pending := pending, learner := learner, applying := applying } := hinv.same rfl rfl
    exact hlearned.slotEnd (hinv.attempt hk).job hend
  | prepareReply _ _ _ _ _ _ hk =>
    have hold := hinv.attempt hk
    refine hinv.setAttempt fun a ha => ?_
    obtain rfl := mem_some_iff.mp ha
    refine ⟨hold.job, fun {entry' replies'} heq => ?_⟩
    obtain ⟨rfl, -⟩ := Phase.preparing.inj heq
    exact hold.preparing rfl
  | appended _ _ _ _ _ _ _ ho => cases ho <;> exact hinv.same rfl rfl
  | _ => exact hinv.same rfl rfl

/-! ## Answers -/

theorem ReplicaStep.answered {n : ℕ} (h : ReplicaStep cfg n ev H r o) {tag : DedupTag} {slot : ℕ}
    (ha : .answered tag slot ∈ o.2) : (∃ payload, ev = .act n (.propose (some tag) payload)) ∧
      r.learner.dedupLookup tag.clientId tag.seq = some slot := by
  cases h with
  | answer tag' slot' payload hev hhit =>
    obtain ⟨rfl, rfl⟩ : tag = tag' ∧ slot = slot' := by simpa using ha
    exact ⟨⟨payload, hev⟩, hhit⟩
  | appended _ _ _ _ _ _ _ ho => cases ho <;> simp at ha
  | _ =>
    simp [Replica.becomeCandidate, Replica.finalizeLeader, Replica.grantVote, Replica.beginPrepare,
      Replica.beginAccept, Replica.finishBulk] at ha

/-- An entry is accepted when an `Accept` or the answer to a gap request arrives with it. -/
theorem ReplicaStep.offered {n : ℕ} (h : ReplicaStep cfg n ev H r o) {entry : PxLogEntry}
    (hv : .voted entry ∈ o.2) : ∃ i lockoutExpired peer, ev = .deliver n i lockoutExpired ∧
      ((∃ req, H[i]? = some (peer, .send (.accept req)) ∧ req.entry = entry) ∨
        ∃ follower, H[i]? = some (peer, .send (.fetchGapReply follower entry))) := by
  cases h with
  | vote req peer _ _ _ _ i lockoutExpired hev hi
  | voteEarly req peer _ _ _ _ i lockoutExpired hev hi =>
    obtain rfl : entry = req.entry := by simpa using hv
    exact ⟨i, lockoutExpired, peer, hev, .inl ⟨req, hi, rfl⟩⟩
  | fillGap peer follower entry' _ _ _ i lockoutExpired hev hi =>
    obtain rfl : entry = entry' := by simpa using hv
    exact ⟨i, lockoutExpired, peer, hev, .inr ⟨follower, hi⟩⟩
  | appended _ _ _ _ _ _ _ ho => cases ho <;> simp at hv
  | _ =>
    simp [Replica.becomeCandidate, Replica.finalizeLeader, Replica.grantVote, Replica.beginPrepare,
      Replica.beginAccept, Replica.finishBulk] at hv

/-! ## What a replica remembers -/

/-- The tags that the continuation of an append records against the slot. -/
def Continuation.tagsAt (slot : ℕ) : Continuation → List DedupTag
  | .acceptReply req => if req.entry.slot = slot then req.tags else []
  | _ => []

/-- A window of the replica has the tag with the slot, or will once an append returns. -/
def Replica.Remembers (r : Replica) (slot : ℕ) (tag : DedupTag) : Prop :=
  (tag.seq, slot) ∈ (r.learner.dedup tag.clientId).entries ∨ ∃ a ∈ r.pending, tag ∈ a.next.tagsAt slot
deriving Decidable

/-- The learner counts the slot as chosen.  Slots are numbered from `1` on. -/
def Replica.counts (r : Replica) (slot : ℕ) : Bool := decide (0 < slot) && r.learner.isChosen slot

namespace GroupState

variable {s s' : GroupState} {e : GroupEvent} {n slot : ℕ} {tag : DedupTag}

/-- The event takes a tagged proposal from Phase 1 to Phase 2 with an adopted payload that
    is not its own. -/
def adoptsForeign (cfg : GroupConfig) (s : GroupState) : GroupEvent → Bool
  | .act n (.prepareDone k) =>
    match (s.replicas n).attempts k with
    | some ⟨job, .preparing entry replies⟩ =>
      match prepareAttempt cfg (ReplyFold.ofPrepare cfg n replies) entry with
      | .proceed _ foreign => foreign && !job.tags.isEmpty
      | _ => false
    | _ => false
  | _ => false

/-- The tag and the slot with which the event answers a retry. -/
def dedupHit (s : GroupState) : GroupEvent → Option (DedupTag × ℕ)
  | .act n (.propose (some tag) _) =>
    ((s.replicas n).learner.dedupLookup tag.clientId tag.seq).map (tag, ·)
  | _ => none

/-- The entry that the event offers to an acceptor. -/
def offeredEntry (s : GroupState) : GroupEvent → Option PxLogEntry
  | .deliver _ i _ =>
    match s.history[i]? with
    | some (_, .send (.accept req)) => some req.entry
    | some (_, .send (.fetchGapReply _ entry)) => some entry
    | _ => none
  | _ => none

/-- The event does not replace an accepted payload of a slot that the learner does not count as
    chosen and of which the replica remembers a tag. -/
def KeepsTagged (s : GroupState) (e : GroupEvent) : Prop :=
  ∀ entry ∈ s.offeredEntry e, ∀ a ∈ (s.replicas e.replica).acceptor.acceptedAt entry.slot,
    ((s.replicas e.replica).acceptor.nodes entry.slot).promisedBallot ≤ entry.ballot →
    a.payload ≠ entry.payload → (s.replicas e.replica).counts entry.slot = false →
    ∀ req ∈ s.accepts, req.entry.slot = entry.slot →
      ∀ tag ∈ req.tags, ¬ (s.replicas e.replica).Remembers entry.slot tag
deriving Decidable

/-- No crash and no conflicting fast proposal; the learners hold what they count as chosen; no tagged
    proposal adopts a payload, and no tagged payload is replaced; answers are for slots that the
    learner counts as chosen. -/
def DedupSafe (cfg : GroupConfig) (s : GroupState) (e : GroupEvent) : Prop :=
  s.FastSafe cfg e ∧ s.LearnsHeld cfg e ∧ s.adoptsForeign cfg e = false ∧ s.KeepsTagged e ∧
    ∀ p ∈ s.dedupHit e, (s.replicas e.replica).counts p.2 = true
deriving Decidable

theorem carries_of_sent {req : AcceptRequest}
    (hmove : ProposerMove cfg e.replica e s.history (s.replicas e.replica) o)
    (hinv : TagInv cfg (s.replicas e.replica)) (hok : s.adoptsForeign cfg e = false)
    (hreq : .send (.accept req) ∈ o.2) : ∀ tag ∈ req.tags, cfg.Carries req.entry.payload tag := by
  cases hmove with
  | quiet _ houts => simpa [Effect.isRequest] using houts _ hreq
  | acceptZero k slot payload tags _ _ _ _ hk _ _ houts =>
    obtain rfl : req = ⟨e.replica, k,
      (s.replicas e.replica).baseEntry e.replica slot payload, tags⟩ := by
      simpa [houts] using hreq
    exact (hinv.attempt hk).job
  | acceptPrepared k job entry entry' foreign replies hev hk hna hslot hballot hquorum hadopted hatt
      houts hproceed =>
    obtain rfl : req = ⟨e.replica, k, entry', job.tags⟩ := by simpa [houts] using hreq
    obtain ⟨entry₀, hproceed, rfl⟩ := hproceed
    intro tag htag
    -- the proposal has a tag, so the payload is its own
    have hforeign : foreign = false := by
      rw [hev] at hok
      simp only [adoptsForeign, hk, hproceed] at hok
      cases htags : job.tags with
      | nil => simp [htags] at htag
      | cons => simpa [htags] using hok
    obtain ⟨-, -, -, -, hkeep⟩ := Replica.of_prepareAttempt_proceed hproceed
    have hpayload : (Replica.acceptEntry job entry₀).payload = job.payload := by
      rw [Replica.acceptEntry_payload, hkeep hforeign, (hinv.attempt hk).preparing rfl]
    rw [hpayload]
    exact (hinv.attempt hk).job tag htag
  | prepare | reply | ack => rename_i houts; simp [houts] at hreq

/-- An `Accept` of the slot with the tag was sent, and the replica has accepted what the client
    submitted. -/
structure Backed (cfg : GroupConfig) (s : GroupState) (r : Replica) (slot : ℕ) (tag : DedupTag) :
    Prop where
  sent : ∃ req ∈ s.accepts, req.entry.slot = slot ∧ tag ∈ req.tags
  accepted : ∃ a ∈ r.acceptor.acceptedAt slot, cfg.Carries a.payload tag

/-- What the dedup windows, and the replies that will fill them, stand for. -/
structure DedupInv (cfg : GroupConfig) (s : GroupState) : Prop where
  tagged : ∀ m, TagInv cfg (s.replicas m)
  carries : ∀ {req}, req ∈ s.accepts → ∀ tag ∈ req.tags, cfg.Carries req.entry.payload tag
  pending : ∀ {m a req}, a ∈ (s.replicas m).pending → a.next = .acceptReply req →
    ∀ tag ∈ req.tags, s.Backed cfg (s.replicas m) req.entry.slot tag
  window : ∀ {m c p}, p ∈ ((s.replicas m).learner.dedup c).entries →
    s.Backed cfg (s.replicas m) p.2 ⟨c, p.1⟩

theorem DedupInv.init : DedupInv cfg .init := by
  constructor
  · intro m
    constructor <;> simp [GroupState.init, Replica.new]
  · simp [accepts, GroupState.init]
  · simp [GroupState.init, Replica.new]
  · simp [GroupState.init, Replica.new, PxLearner.new, DedupWindow.empty]

theorem offeredEntry_of_voted {entry : PxLogEntry}
    (hstep : ReplicaStep cfg e.replica e s.history (s.replicas e.replica) o)
    (hv : .voted entry ∈ o.2) : s.offeredEntry e = some entry := by
  obtain ⟨i, lockoutExpired, peer, hev, ⟨req, hi, rfl⟩ | ⟨follower, hi⟩⟩ := hstep.offered hv <;>
  · rw [hev]
    simp [offeredEntry, hi]

section step

variable (hstep : ReplicaStep cfg e.replica e s.history (s.replicas e.replica) o)
  (hinv : PaxosInv cfg (s.after e.replica o)) (hfast : (s.after e.replica o).OneFastPayload)
include hstep hinv hfast

/-- An accepted payload that is chosen stays: whatever replaces it has the chosen payload. -/
theorem payload_kept_of_chosen {a : PxLogEntry}
    (ha : (s.replicas e.replica).acceptor.acceptedAt slot = some a)
    (hpayload : s.Chosen cfg slot a.payload) (hchosen : s.ChosenUpTo cfg slot a.ballot) :
    ∃ a' ∈ o.1.acceptor.acceptedAt slot, a'.payload = a.payload := by
  obtain ⟨a', ha', hle⟩ := hstep.acceptorMove.held ha
  refine ⟨a', ha', ?_⟩
  have hsame : ((s.after e.replica o).replicas e.replica).acceptor.acceptedAt slot = some a' := by
    rw [replicas_after_self]
    exact ha'
  exact hinv.chosen_eq hfast (hinv.chosen_of_accepted hfast hsame (hchosen.mono hle).after)
    hpayload.after

/-- What backs a remembered tag backs it after the step. -/
theorem Backed.step (hback : s.Backed cfg (s.replicas e.replica) slot tag) (hbefore : PaxosInv cfg s)
    (hfastBefore : s.OneFastPayload) (hlearned : LearnedInv cfg s) (hok : s.KeepsTagged e)
    (hrem : (s.replicas e.replica).Remembers slot tag) : s.Backed cfg o.1 slot tag := by
  obtain ⟨⟨req, hreq, hslot, htag⟩, a, ha, hcarries⟩ := hback
  refine ⟨⟨req, hreq, hslot, htag⟩, ?_⟩
  rcases hstep.acceptorMove.acceptedAt_cases slot with hsame | ⟨a', rfl, hvoted, hnew⟩
  · exact ⟨a, hsame ▸ ha, hcarries⟩
  · by_cases hpayload : a.payload = a'.payload
    · exact ⟨a', hnew, hpayload ▸ hcarries⟩
    · cases hcounts : (s.replicas e.replica).counts a'.slot with
      | false =>
        -- the replica remembers the tag, so the step may not replace the payload
        have hle := (hstep.acceptorMove.voted hvoted).1
        exact absurd hrem (hok a' (offeredEntry_of_voted hstep hvoted) a ha hle hpayload
          hcounts req hreq hslot
          tag htag)
      | true =>
        -- the payload is chosen, so the step does not replace it
        obtain ⟨hpos, hchosen⟩ := Bool.and_eq_true_iff.1 hcounts
        obtain ⟨b, hb, hc⟩ := hlearned.held (of_decide_eq_true hpos) (of_decide_eq_true hchosen)
        obtain rfl : a = b := some_inj.1 (ha.symm.trans hb)
        have hvalue := hbefore.chosen_of_accepted hfastBefore ha hc
        obtain ⟨a'', ha'', heq⟩ := payload_kept_of_chosen hstep hinv hfast ha hvalue hc
        exact ⟨a'', ha'', heq ▸ hcarries⟩

end step

theorem Backed.after {r : Replica} (h : s.Backed cfg r slot tag) :
    (s.after n o).Backed cfg r slot tag := by
  obtain ⟨⟨req, hreq, hslot, htag⟩, haccepted⟩ := h
  exact ⟨⟨req, mem_accepts_after.mpr (.inl hreq), hslot, htag⟩, haccepted⟩

theorem DedupInv.step (hdedup : DedupInv cfg s) (hinv : PaxosInv cfg s) (hfast : s.OneFastPayload)
    (hlearned : LearnedInv cfg s) (hok : s.DedupSafe cfg e) (hs : groupStep cfg s e = some s') :
    DedupInv cfg s' := by
  have hinv' := hinv.step hok.1.1 hs
  have hfast' := hfast.step hinv.proposer hok.1.1 hok.1.2 hs
  obtain ⟨hsafe, hheld, hforeign, hkeeps, -⟩ := hok
  obtain ⟨o, hstep, rfl⟩ := replicaStep_of_groupStep hsafe.1 hs
  have hkept : ∀ {slot tag}, s.Backed cfg (s.replicas e.replica) slot tag →
      (s.replicas e.replica).Remembers slot tag → s.Backed cfg o.1 slot tag := fun hback hrem =>
    hback.step hstep hinv' hfast' hinv hfast hlearned hkeeps hrem
  have hwindow : ∀ c, ∀ p ∈ ((s.replicas e.replica).learner.dedup c).entries,
      s.Backed cfg o.1 p.2 ⟨c, p.1⟩ := fun c p hp => hkept (hdedup.window hp) (.inl hp)
  have hpending : ∀ a ∈ (s.replicas e.replica).pending, ∀ req, a.next = .acceptReply req →
      ∀ tag ∈ req.tags, s.Backed cfg o.1 req.entry.slot tag := by
    intro a ha req hnext tag htag
    refine hkept (hdedup.pending ha hnext tag htag) (.inr ⟨a, ha, ?_⟩)
    simpa [hnext, Continuation.tagsAt] using htag
  refine ⟨?_, fun {req} hreq => ?_, fun {m a req} ha hnext tag htag => ?_, fun {m c p} hp => ?_⟩
  · exact forall_after (P := fun _ _ r => TagInv cfg r) hdedup.tagged (hstep.tagInv (hdedup.tagged _))
  · rcases mem_accepts_after.mp hreq with hreq | hreq
    · exact hdedup.carries hreq
    · exact carries_of_sent hstep.proposerMove (hdedup.tagged _) hforeign hreq
  · refine (forall_after (P := fun _ _ r => ∀ a ∈ r.pending, ∀ req, a.next = .acceptReply req →
      ∀ tag ∈ req.tags, s.Backed cfg r req.entry.slot tag)
      (fun _ _ ha _ hnext => hdedup.pending ha hnext) ?_ m a ha req hnext tag htag).after
    intro a ha req hnext tag htag
    rcases hstep.acceptorMove.pending_accept ha hnext with ha | ⟨hvoted, p, hsent⟩
    · exact hpending a ha req hnext tag htag
    · have hreq : req ∈ s.accepts := mem_accepts.mpr ⟨p, hsent⟩
      exact ⟨⟨req, hreq, rfl, htag⟩, req.entry, (hstep.acceptorMove.voted hvoted).2.1,
        hdedup.carries hreq tag htag⟩
  · refine (forall_after (P := fun _ _ r => ∀ c, ∀ p ∈ (r.learner.dedup c).entries,
      s.Backed cfg r p.2 ⟨c, p.1⟩) (fun _ _ _ hp => hdedup.window hp) ?_ m c p hp).after
    intro c p hp
    cases hstep.learnerMove with
    | quiet hengine hsame | deferred entry hentry hengine hsame
    | handOver _ _ _ _ _ _ _ _ _ _ hsame => exact hwindow c p (hsame ▸ hp)
    | record a req ha hnext _ hfrom =>
      rcases hfrom c p hp with hp | ⟨tag, htag, rfl, rfl⟩
      · exact hwindow c p hp
      · exact hpending a ha req hnext tag htag
    | chosen k job entry foreign replies hk hquorum _ hfrom _ _ ok hev =>
      rcases hfrom c p hp with hp | ⟨tag, htag, rfl, rfl⟩
      · exact hwindow c p hp
      · -- the leader has accepted its own entry, or one with the same chosen payload
        have hc := hinv.chosenAt_of_acks hk hquorum
        have hreq : _ ∈ s.accepts := mem_accepts.mpr ⟨_, ((hinv.proposer _).accepting hk).1⟩
        obtain ⟨a, ha, hle⟩ := hheld.1 entry (by rw [hev]; simp [chosenEntry, hk, hquorum])
        have hvalue := hinv.chosen_of_accepted hfast ha (hc.upTo.mono hle)
        have hpayload : a.payload = entry.payload := hinv.chosen_eq hfast hvalue ⟨_, hc⟩
        obtain ⟨a', ha', heq⟩ := payload_kept_of_chosen hstep hinv' hfast' ha hvalue
          (hc.upTo.mono hle)
        refine ⟨⟨_, hreq, rfl, htag⟩, a', ha', ?_⟩
        rw [heq, hpayload]
        exact hdedup.carries hreq tag htag

/-- Every answer given so far names a slot whose chosen payload the client submitted. -/
def AnswersTrue (cfg : GroupConfig) (s : GroupState) : Prop :=
  ∀ n tag slot, (n, Effect.answered tag slot) ∈ s.history →
    ∃ v, s.Chosen cfg slot v ∧ cfg.Carries v tag

theorem AnswersTrue.step (htrue : s.AnswersTrue cfg) (hdedup : DedupInv cfg s)
    (hinv : PaxosInv cfg s) (hfast : s.OneFastPayload) (hlearned : LearnedInv cfg s)
    (hok : s.DedupSafe cfg e) (hs : groupStep cfg s e = some s') : s'.AnswersTrue cfg := by
  obtain ⟨hsafe, -, -, -, hhits⟩ := hok
  obtain ⟨o, hstep, rfl⟩ := replicaStep_of_groupStep hsafe.1 hs
  intro n tag slot ha
  have hbefore : ∃ v, s.Chosen cfg slot v ∧ cfg.Carries v tag := by
    rcases mem_history_after.mp ha with ha | ⟨-, ha⟩
    · exact htrue n tag slot ha
    · obtain ⟨⟨payload, hev⟩, hhit⟩ := hstep.answered ha
      have hcounts := hhits (tag, slot) (by rw [hev]; simp [dedupHit, hhit])
      obtain ⟨hpos, hchosen⟩ := Bool.and_eq_true_iff.1 hcounts
      obtain ⟨-, a, haccepted, hcarries⟩ := hdedup.window (PxLearner.mem_of_dedupLookup hhit)
      obtain ⟨b, hb, hc⟩ := hlearned.held (of_decide_eq_true hpos) (of_decide_eq_true hchosen)
      obtain rfl : a = b := some_inj.1 (haccepted.symm.trans hb)
      exact ⟨_, hinv.chosen_of_accepted hfast haccepted hc, hcarries⟩
  obtain ⟨v, hv, hcarries⟩ := hbefore
  exact ⟨v, hv.after, hcarries⟩

/-- Three voters, and a client that submits `[65]`. -/
def taggedGroup : GroupConfig := { defaultGroup 3 with submitted := fun _ => [65] }

end GroupState

end CrowDB
