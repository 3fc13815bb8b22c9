/-
  What a replica learns when it restarts (`cluster/local_replica_replay.rs`, Pass 2).

  Pass 2 learns every accepted entry above the engine's durable prefix: it moves the
  chosen frontier over the slot and feeds the engine.

  The WAL says what was accepted, not what was chosen: `unchosen_entry_restored`.
-/
import CrowDB.Cluster.ApplySafety

namespace CrowDB

open Lib List Option

/-! ## Where records come from -/

/-- The record is in the WAL, or its append is in flight. -/
def Replica.Records (r : Replica) (record : WALRecord) : Prop :=
  record ∈ r.wal ∨ ∃ a ∈ r.pending, a.record = record

/-- An `Accepted` record that comes in is of a received `Accept`, or of one of its own. -/
def RecordMove (H : List (ℕ × Effect)) (r : Replica) (o : Outcome) : Prop :=
  ∀ entry, o.1.Records (.accepted entry) → r.Records (.accepted entry) ∨
    (∃ p req, (p, Effect.send (.accept req)) ∈ H ∧ req.entry = entry) ∨
    ∃ k job foreign replies, r.attempts k = some ⟨job, .accepting entry foreign replies⟩

variable {cfg : GroupConfig} {n slot resumeFrom : ℕ} {ok : ℕ → Bool}

namespace Replica

variable {H : List (ℕ × Effect)} {r : Replica} {o : Outcome} {a : Append}

theorem recordMove_same (hwal : o.1.wal = r.wal) (hpending : o.1.pending = r.pending) :
    RecordMove H r o := by
  intro entry h
  unfold Records at h ⊢
  rw [hwal, hpending] at h
  exact .inl h

theorem recordMove_append (hwal : o.1.wal = r.wal) (hpending : o.1.pending = r.pending ++ [a])
    (ha : ∀ entry, a.record = .accepted entry → (∃ p req, (p, Effect.send (.accept req)) ∈ H ∧
      req.entry = entry) ∨
      ∃ k job foreign replies, r.attempts k = some ⟨job, .accepting entry foreign replies⟩) :
    RecordMove H r o := by
  rintro entry (h | ⟨b, hb, hrec⟩)
  · exact .inl (.inl (hwal ▸ h))
  · rw [hpending] at hb
    rcases mem_append.mp hb with hb | hb
    · exact .inl (.inr ⟨b, hb, hrec⟩)
    · obtain rfl := mem_singleton.mp hb
      exact .inr (ha entry hrec)

theorem recordMove_appended (ha : a ∈ r.pending) (hwal : o.1.wal = r.wal ++ [a.record])
    (hpending : ∀ b ∈ o.1.pending, b ∈ r.pending) : RecordMove H r o := by
  rintro entry (h | ⟨b, hb, hrec⟩)
  · rw [hwal] at h
    rcases mem_append.mp h with h | h
    · exact .inl (.inl h)
    · exact .inl (.inr ⟨a, ha, (mem_singleton.mp h).symm⟩)
  · exact .inl (.inr ⟨b, hpending b hb, hrec⟩)

end Replica

open Replica in
theorem ReplicaStep.recordMove {ev : GroupEvent}
    {H : List (ℕ × Effect)} {r : Replica} {o : Outcome} (h : ReplicaStep cfg n ev H r o) :
    RecordMove H r o := by
  cases h with
  | candidate | grantVote | promise => exact recordMove_append rfl rfl (by simp)
  | endSlot _ _ _ _ _ hend => cases hend <;> exact recordMove_same rfl rfl
  | chosen k job entry foreign replies _ _ _ _ hk _ hpending _ _ _ hend =>
    rcases hpending with rfl | rfl
    · cases hend <;> exact recordMove_same rfl rfl
    · -- the leader's own record, spawned once the entry is chosen
      have hown : ∀ entry', WALRecord.accepted entry = .accepted entry' →
          r.attempts k = some ⟨job, .accepting entry' foreign replies⟩ := by
        rintro _ ⟨⟩
        exact hk
      cases hend <;>
        exact recordMove_append rfl rfl fun entry' heq =>
          .inr ⟨k, job, foreign, replies, hown entry' heq⟩
  | vote req peer f hsent =>
    exact recordMove_append rfl rfl fun entry heq => .inl ⟨peer, req, hsent, by simpa using heq⟩
  | appended _ _ _ _ _ hi _ ho =>
    obtain ⟨-, hwal, hpending⟩ := ho.storage
    refine recordMove_appended (mem_of_getElem? hi) hwal fun b hb => ?_
    rw [hpending] at hb
    exact mem_of_mem_eraseIdx hb
  | _ => exact recordMove_same rfl rfl

/-! ## Pass 2 -/

/-- The slots that Pass 2 walks: from the engine's durable prefix to the highest slot the
    rebuilt acceptor has seen. -/
def replayedSlots (a : PxAcceptor) (resumeFrom : ℕ) : List ℕ :=
  List.range' (min resumeFrom a.highestSeenSlot + 1)
    (a.highestSeenSlot - min resumeFrom a.highestSeenSlot)

theorem lt_of_mem_replayedSlots {a : PxAcceptor} (h : slot ∈ replayedSlots a resumeFrom) :
    resumeFrom < slot := by
  rw [replayedSlots, mem_range'_1] at h
  omega

namespace Replica

variable {a : PxAcceptor} {l : PxLearner} {slots : List ℕ} {engine : List (ℕ × Bytes)} {p : ℕ × Bytes}

theorem relearn_concat (a : PxAcceptor) (ok : ℕ → Bool) (l : PxLearner) (slots : List ℕ) (slot : ℕ) :
    relearn a ok l (slots ++ [slot]) = (a.acceptedAt slot).elim (relearn a ok l slots)
        fun entry => (relearn a ok l slots).learn entry [] (ok slot) := by
  simp [relearn]

theorem mem_relearn_engine (h : p ∈ (relearn a ok l slots).engine) :
    p ∈ l.engine ∨ p.1 ∈ slots ∧ ∃ entry ∈ a.acceptedAt p.1, entry.payload = p.2 := by
  induction slots using reverseRecOn with
  | nil => exact .inl h
  | append_singleton slots slot ih =>
    rw [relearn_concat] at h
    have hold : p ∈ (relearn a ok l slots).engine → p ∈ l.engine ∨
        p.1 ∈ slots ++ [slot] ∧ ∃ entry ∈ a.acceptedAt p.1, entry.payload = p.2 := fun h =>
      (ih h).imp_right (And.imp_left (mem_append_left _))
    cases hentry : a.acceptedAt slot with
    | none =>
      rw [hentry] at h
      exact hold h
    | some entry =>
      rw [hentry, elim_some, PxLearner.learn_engine] at h
      rcases PxLearner.mem_applyAndAdvance_engine h with h | rfl
      · exact hold h
      · have hslot := a.slot_eq slot entry hentry
        exact .inr ⟨by simp [hslot], entry, hslot ▸ hentry, rfl⟩

theorem mem_relearn_chosen (h : (relearn a ok l slots).chosen.Mem slot) :
    l.chosen.Mem slot ∨ slot ∈ slots ∧ (a.acceptedAt slot).isSome := by
  induction slots using reverseRecOn with
  | nil => exact .inl h
  | append_singleton slots slot' ih =>
    rw [relearn_concat] at h
    have hold : (relearn a ok l slots).chosen.Mem slot → l.chosen.Mem slot ∨
        slot ∈ slots ++ [slot'] ∧ (a.acceptedAt slot).isSome := fun h =>
      (ih h).imp_right (And.imp_left (mem_append_left _))
    cases hentry : a.acceptedAt slot' with
    | none =>
      rw [hentry] at h
      exact hold h
    | some entry =>
      rw [hentry, elim_some, PxLearner.learn_chosen] at h
      rcases Frontier.mem_advance.mp h with h | rfl
      · exact hold h
      · have hslot := a.slot_eq slot' entry hentry
        exact .inr ⟨by simp [hslot], by simp [hslot, hentry]⟩

theorem subset_relearn_engine : l.engine ⊆ (relearn a ok l slots).engine := by
  induction slots using reverseRecOn with
  | nil => exact Subset.refl _
  | append_singleton _ slot ih =>
    rw [relearn_concat]
    cases a.acceptedAt slot with
    | none => exact ih
    | some =>
      rw [elim_some, PxLearner.learn_engine]
      exact Subset.trans ih PxLearner.subset_applyAndAdvance_engine

theorem restoreLearner_eq (a : PxAcceptor) (engine : List (ℕ × Bytes)) (resumeFrom : ℕ)
    (ok : ℕ → Bool) : ∃ l : PxLearner, l.engine = engine ∧
      (∀ slot, l.chosen.Mem slot → slot ≤ resumeFrom) ∧
      restoreLearner a engine resumeFrom ok = relearn a ok l (replayedSlots a resumeFrom) := by
  have hzero : ∀ slot, PxLearner.new.chosen.Mem slot → slot ≤ resumeFrom := by
    rintro slot (h | h)
    · exact (Nat.le_zero.mp h).trans_le (Nat.zero_le _)
    · simp [PxLearner.new, Frontier.upTo] at h
  refine ⟨_, ?_, fun slot h => ?_, rfl⟩
  · split
    · cases a.acceptedAt (min resumeFrom a.highestSeenSlot) <;> rfl
    · rfl
  · split at h
    · cases hentry : a.acceptedAt (min resumeFrom a.highestSeenSlot) with
      | none => exact hzero slot (by simpa [hentry] using h)
      | some =>
        rw [hentry, elim_some] at h
        have hle : slot ≤ min resumeFrom a.highestSeenSlot := by
          simpa [PxLearner.seedResumeFrontier, Frontier.Mem, Frontier.upTo] using h
        exact hle.trans (min_le_left ..)
    · exact hzero slot h

theorem mem_restoreLearner_engine
    (h : p ∈ (restoreLearner a engine resumeFrom ok).engine) :
    p ∈ engine ∨ p.1 ∈ replayedSlots a resumeFrom ∧ ∃ entry ∈ a.acceptedAt p.1,
      entry.payload = p.2 := by
  obtain ⟨l, rfl, -, heq⟩ := restoreLearner_eq a engine resumeFrom ok
  exact mem_relearn_engine (heq ▸ h)

theorem subset_restoreLearner_engine : engine ⊆ (restoreLearner a engine resumeFrom ok).engine := by
  obtain ⟨l, rfl, -, heq⟩ := restoreLearner_eq a engine resumeFrom ok
  rw [heq]
  exact subset_relearn_engine

theorem mem_restoreLearner_chosen
    (h : (restoreLearner a engine resumeFrom ok).chosen.Mem slot) :
    slot ≤ resumeFrom ∨ slot ∈ replayedSlots a resumeFrom ∧ (a.acceptedAt slot).isSome := by
  obtain ⟨l, -, hle, heq⟩ := restoreLearner_eq a engine resumeFrom ok
  exact (mem_relearn_chosen (heq ▸ h)).imp_left (hle slot)

end Replica

/-- The value that a restored replica has at the slot: in the engine, or in an accepted
    entry that Pass 2 learned. -/
def Replica.Carries (r : Replica) (resumeFrom slot : ℕ) (v : Bytes) : Prop :=
  (slot, v) ∈ r.learner.engine ∨ slot ∈ replayedSlots r.acceptor resumeFrom ∧
    ∃ entry ∈ r.acceptor.acceptedAt slot, entry.payload = v

/-! ## The group -/

namespace GroupState

variable {s s' : GroupState} {e : GroupEvent} {n resumeFrom slot : ℕ} {records : List WALRecord}
  {ok : ℕ → Bool}
  {v : Bytes}

/-- Every `Accepted` record is the entry of an `Accept` that was sent. -/
def RecordInv (s : GroupState) : Prop :=
  ∀ m entry, (s.replicas m).Records (.accepted entry) → ∃ req ∈ s.accepts, req.entry = entry

theorem RecordInv.step (hinv : s.RecordInv) (hprop : s.ProposersInv cfg) (he : e.isRestart = false)
    (hs : groupStep cfg s e = some s') : s'.RecordInv := by
  obtain ⟨o, hstep, rfl⟩ := replicaStep_of_groupStep he hs
  -- after the step too, every record is the entry of an `Accept` sent before it
  have hsent : ∀ entry, o.1.Records (.accepted entry) → ∃ req ∈ s.accepts, req.entry = entry := by
    intro entry hm
    rcases hstep.recordMove entry hm with hm | ⟨p, req, hreq, hentry⟩ | ⟨k, job, foreign, replies, hk⟩
    · exact hinv _ entry hm
    · exact ⟨req, mem_accepts.mpr ⟨p, hreq⟩, hentry⟩
    · exact ⟨_, mem_accepts.mpr ⟨_, ((hprop _).accepting hk).1⟩, rfl⟩
  intro m entry hm
  obtain ⟨req, hreq, hentry⟩ := forall_after (P := fun _ _ r => ∀ entry,
    r.Records (.accepted entry) → ∃ req ∈ s.accepts, req.entry = entry) hinv hsent m entry hm
  exact ⟨req, mem_accepts_after.mpr (.inl hreq), hentry⟩

theorem recordInv_of_reach (h : Reach (groupStep cfg) (ApplySafe cfg) .init s) : s.RecordInv := by
  refine Reach.invariant_of (P := ProposersInv cfg) (Q := RecordInv) proposersInv_of_reach ?_
    (fun hprop hinv hok hs => hinv.step hprop hok.1.1 hs) h
  simp [RecordInv, Replica.Records, GroupState.init, Replica.new]

/-- Above the engine's durable prefix the records are of slots that the replica took as chosen before
    the crash, its accepted entry among them and unshadowed. -/
def RecoversLearned (cfg : GroupConfig) (s : GroupState) (n : ℕ) (records : List WALRecord)
    (resumeFrom : ℕ) : Prop :=
  ∀ entry, .accepted entry ∈ records → resumeFrom < entry.slot →
    (s.replicas n).takenAsChosen entry.slot = true ∧ TopAcceptUnshadowed records entry.slot ∧
    ∃ a ∈ (s.replicas n).acceptor.acceptedAt entry.slot, .accepted a ∈ records ∧
      ((s.replicas n).learner.isChosen entry.slot = true ∨ ¬ s.Stale cfg a)

/-- The restored entry of a replayed slot is not below the one that the replica had before. -/
theorem LearnedInv.chosenUpTo_of_restored {entry : PxLogEntry} (h : LearnedInv cfg s)
    (hrec : s.RecoversLearned cfg n records resumeFrom)
    (hslot : slot ∈ replayedSlots (restoreAcceptor records) resumeFrom)
    (hentry : (restoreAcceptor records).acceptedAt slot = some entry) :
    s.ChosenUpTo cfg slot entry.ballot := by
  obtain ⟨hmem, rfl⟩ := restore_acceptedAt_mem hentry
  have hlt : resumeFrom < entry.slot := lt_of_mem_replayedSlots hslot
  obtain ⟨htaken, htop, a, ha, harec, hfresh⟩ := hrec entry hmem hlt
  have haslot := (s.replicas n).acceptor.slot_eq entry.slot a ha
  rw [← haslot] at ha htaken hfresh
  have hc := h.chosenUpTo_of_taken (haslot ▸ Nat.zero_lt_of_lt hlt) ha htaken hfresh
  obtain ⟨entry', hentry', hle⟩ := htop.restores harec haslot
  obtain rfl : entry = entry' := some_inj.1 (hentry.symm.trans hentry')
  exact haslot ▸ hc.mono hle

/-- A record of the WAL at or above a ballot at which its slot is chosen carries the chosen
    payload. -/
theorem PaxosInv.chosen_of_restored (hinv : PaxosInv cfg s) (hfast : s.OneFastPayload)
    (hrec : s.RecordInv) (hperm : records.Perm (s.replicas n).wal) {entry : PxLogEntry}
    (hentry : (restoreAcceptor records).acceptedAt slot = some entry)
    (hchosen : s.ChosenUpTo cfg slot entry.ballot) : s.Chosen cfg slot entry.payload := by
  have hslot := (restoreAcceptor records).slot_eq slot entry hentry
  have hmem := hperm.mem_iff.mp (restore_acceptedAt_mem hentry).1
  obtain ⟨req, hreq, rfl⟩ := hrec n entry (.inl hmem)
  exact hinv.chosen_of_sent hfast hreq hslot hchosen

/-- **Restore learns only chosen values**, and has one at every slot up to its chosen frontier, if the
    records are those of what the replica had learned. -/
theorem restore_chosen_of_reach (h : Reach (groupStep cfg) (ApplySafe cfg) .init s)
    (hs : groupStep cfg s (.act n (.restart records resumeFrom ok)) = some s')
    (hrec : s.RecoversLearned cfg n records resumeFrom) :
    (∀ slot v, (s'.replicas n).Carries resumeFrom slot v →
      s'.Chosen cfg slot v ∧ ∀ v', s'.Chosen cfg slot v' → v' = v) ∧
    ∀ slot, 1 ≤ slot → slot ≤ (s'.replicas n).learner.contiguousChosen →
      ∃ v, (s'.replicas n).Carries resumeFrom slot v := by
  obtain ⟨hinv, hfast, hlearned, heng⟩ := enginesChosen_of_reach h
  obtain ⟨n', records', resumeFrom', ok', heq, hperm, hdurable, rfl⟩ := restart_of_groupStep rfl hs
  obtain ⟨rfl, rfl, rfl, rfl⟩ : n = n' ∧ records = records' ∧ resumeFrom = resumeFrom' ∧
    ok = ok' := by
    simpa using heq
  rw [replicas_after_self]
  -- a restart sends nothing and accepts nothing
  have hsame : ∀ {slot v}, (s.after n ((s.replicas n).restoreFromReplay records resumeFrom ok,
      [])).Chosen cfg slot v → s.Chosen cfg slot v := by
    rintro slot v ⟨b, hb⟩
    exact ⟨b, hb.mono (by simp [GroupState.after])⟩
  have hreplayed : ∀ {slot entry}, slot ∈ replayedSlots (restoreAcceptor records) resumeFrom →
      (restoreAcceptor records).acceptedAt slot = some entry → s.Chosen cfg slot entry.payload :=
    fun hslot hentry => hinv.chosen_of_restored hfast (recordInv_of_reach h) hperm hentry
      (hlearned.chosenUpTo_of_restored hrec hslot hentry)
  have hchosen : ∀ {slot v}, ((s.replicas n).restoreFromReplay records resumeFrom ok).Carries
      resumeFrom slot v → s.Chosen cfg slot v := by
    rintro slot v (hv | ⟨hslot, entry, hentry, rfl⟩)
    · rcases Replica.mem_restoreLearner_engine hv with hv | ⟨hslot, entry, hentry, rfl⟩
      · exact heng.engine (mem_of_mem_filter hv)
      · exact hreplayed hslot hentry
    · exact hreplayed hslot hentry
  refine ⟨fun slot v hv => ⟨(hchosen hv).after, fun v' hv' =>
    hinv.chosen_eq hfast (hsame hv') (hchosen hv)⟩, fun slot hpos hle => ?_⟩
  rcases Replica.mem_restoreLearner_chosen (.inl hle) with hle | ⟨hslot, hsome⟩
  · obtain ⟨⟨_, v⟩, hv, rfl⟩ := mem_map.mp (hdurable slot hpos hle)
    refine ⟨v, .inl (Replica.subset_restoreLearner_engine (mem_filter.mpr ⟨hv, ?_⟩))⟩
    exact decide_eq_true hle
  · obtain ⟨entry, hentry⟩ := isSome_iff_exists.mp hsome
    exact ⟨entry.payload, .inr ⟨hslot, entry, hentry, rfl⟩⟩

/-- The WAL of replica `1`, a follower. -/
def quorumRecords : List WALRecord := [.voteGranted 1 3, .accepted ⟨1, ⟨0, 3⟩, 1, [65]⟩]

/-- A follower restores the entry that the leader's notice confirmed. -/
theorem restore_chosen_after_quorum : ∃ s s',
    Reach (groupStep (defaultGroup 3)) (ApplySafe (defaultGroup 3)) .init s ∧
      groupStep (defaultGroup 3) s (.act 1 (.restart quorumRecords 0 fun _ => true)) = some s' ∧
      (s'.replicas 1).learner.contiguousChosen = 1 ∧ s'.Chosen (defaultGroup 3) 1 [65] := by
  obtain ⟨s, hr, hchosen, haccepted, s', hs', hmark, hmem⟩ :
      ∃ s, Reach (groupStep (defaultGroup 3)) (ApplySafe (defaultGroup 3)) .init s ∧
        (s.replicas 1).learner.isChosen 1 = true ∧
        (s.replicas 1).acceptor.acceptedAt 1 = some ⟨1, ⟨0, 3⟩, 1, [65]⟩ ∧
        ∃ s' ∈ groupStep (defaultGroup 3) s (.act 1 (.restart quorumRecords 0 fun _ => true)),
          (s'.replicas 1).learner.contiguousChosen = 1 ∧ (1, [65]) ∈ (s'.replicas 1).learner.engine :=
    Reach.exists_of_run (firstWriteRun 3 1 none ++ [.act 1 (.appended 0), .deliver 3 10 true,
      .deliver 3 12 true, .act 3 (.acceptDone 3 true), .deliver 1 13 true]) (by decide +kernel)
  have hrec : s.RecoversLearned (defaultGroup 3) 1 quorumRecords 0 := by
    intro entry hentry _
    obtain rfl : entry = ⟨1, ⟨0, 3⟩, 1, [65]⟩ := by simpa [quorumRecords] using hentry
    refine ⟨by simp [Replica.takenAsChosen, hchosen], ?_, _, haccepted, hentry, .inl hchosen⟩
    exact .inr ⟨[.voteGranted 1 3], _, [], rfl, rfl, by simp [quorumRecords], by simp⟩
  have hvalue := (restore_chosen_of_reach hr hs' hrec).1 1 [65] (.inl hmem)
  exact ⟨s, s', hr, hs', hmark, hvalue.1⟩

/-- The WAL of replica `2`. -/
def outvotedRecords : List WALRecord := [.voteGranted 1 1, .accepted ⟨1, ⟨0, 1⟩, 1, [65]⟩]

/-- Replica `2` restarts, takes slot `1` as chosen and feeds its engine `[65]`. -/
theorem unchosen_entry_restored :
    ∃ s s', Reach (groupStep (defaultGroup 3)) (ApplySafe (defaultGroup 3)) .init s ∧
      groupStep (defaultGroup 3) s (.act 2 (.restart outvotedRecords 0 fun _ => true)) = some s' ∧
      (s'.replicas 2).learner.contiguousChosen = 1 ∧ (s'.replicas 2).learner.engine = [(1, [65])] ∧
      s'.Chosen (defaultGroup 3) 1 [] ∧ ¬ s'.Chosen (defaultGroup 3) 1 [65] := by
  obtain ⟨s, hr, hc, s', hs', hhistory, hmark, hengine⟩ :
      ∃ s, Reach (groupStep (defaultGroup 3)) (ApplySafe (defaultGroup 3)) .init s ∧
        s.ChosenAt (defaultGroup 3) 1 ⟨1, 3⟩ [] ∧
        ∃ s' ∈ groupStep (defaultGroup 3) s (.act 2 (.restart outvotedRecords 0 fun _ => true)),
          s'.history = s.history ∧ (s'.replicas 2).learner.contiguousChosen = 1 ∧
            (s'.replicas 2).learner.engine = [(1, [65])] :=
    Reach.exists_of_run (outvotedRun none) (by decide +kernel)
  obtain ⟨hinv, hfast, -⟩ := enginesChosen_of_reach hr
  -- the restart adds nothing to the history
  have hsub : s.history ⊆ s'.history := hhistory ▸ Subset.refl _
  have hsub' : s'.history ⊆ s.history := hhistory ▸ Subset.refl _
  refine ⟨s, s', hr, hs', hmark, hengine, ⟨_, hc.mono hsub⟩, ?_⟩
  rintro ⟨b, hb⟩
  have heq := hinv.chosen_eq hfast ⟨_, hc⟩ ⟨b, hb.mono hsub'⟩
  simp at heq

end GroupState

end CrowDB
