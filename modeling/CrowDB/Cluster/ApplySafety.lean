/-
  What reaches the engines of a group that does not crash.

  The apply loop itself does not compare ballots: it takes whatever is accepted at a slot
  at or below the commit frontier.  Where the learner counts the slot as chosen that is the chosen
  payload; `stale_entry_applied` is a run in which only the frontier of a heartbeat covers it, and it
  was never chosen.
-/
import CrowDB.Cluster.LearnedSlots

namespace CrowDB

open Lib Finset

namespace GroupState

variable {cfg : GroupConfig} {s s' : GroupState} {e : GroupEvent} {n slot : ℕ}
  {v : Bytes} {o : Outcome}
  {entry : PxLogEntry}

/-! ## The apply loop -/

/-- The entry that the event hands from the apply loop to the engine. -/
def handover (s : GroupState) : GroupEvent → Option PxLogEntry
  | .act n (.applyPassStep _) =>
    match (s.replicas n).applyPass with
    | some (next, last) =>
      if next ≤ last ∧ (s.replicas n).takenAsChosen next then
        (s.replicas n).acceptor.acceptedAt next
      else none
    | none => none
  | _ => none

/-- The slot of the entry is chosen, but only above the entry's ballot. -/
def Stale (cfg : GroupConfig) (s : GroupState) (entry : PxLogEntry) : Prop :=
  ¬ s.ChosenUpTo cfg entry.slot entry.ballot ∧
    ∃ p ∈ s.votes, s.ChosenAt cfg entry.slot p.2.ballot p.2.payload
deriving Decidable

/-- The event does not hand over a stale entry because of the commit frontier of a heartbeat alone. -/
def AppliesFresh (cfg : GroupConfig) (s : GroupState) (e : GroupEvent) : Prop :=
  ∀ entry ∈ s.handover e,
    (s.replicas e.replica).learner.isChosen entry.slot = true ∨ ¬ s.Stale cfg entry
deriving Decidable

/-- The steps of a run without crashes and conflicting fast proposals, in which the learners hold what
    they count as chosen and no stale entry is handed over. -/
def ApplySafe (cfg : GroupConfig) (s : GroupState) (e : GroupEvent) : Prop :=
  s.FastSafe cfg e ∧ s.LearnsHeld cfg e ∧ s.AppliesFresh cfg e
deriving Decidable

/-- An accepted entry that the replica takes as chosen is at or above a chosen ballot: the learner
    counts its slot, or a heartbeat's frontier covers it and it is not stale. -/
theorem LearnedInv.chosenUpTo_of_taken (h : LearnedInv cfg s) (hpos : 0 < entry.slot)
    (hentry : (s.replicas n).acceptor.acceptedAt entry.slot = some entry)
    (htaken : (s.replicas n).takenAsChosen entry.slot = true)
    (hfresh : (s.replicas n).learner.isChosen entry.slot = true ∨ ¬ s.Stale cfg entry) :
    s.ChosenUpTo cfg entry.slot entry.ballot := by
  rcases hfresh with hchosen | hfresh
  · obtain ⟨a, ha, hc⟩ := h.held hpos (of_decide_eq_true hchosen)
    obtain rfl : entry = a := Option.some_inj.1 (hentry.symm.trans ha)
    exact hc
  · have hchosen : ∃ v, s.Chosen cfg entry.slot v := by
      rcases Bool.or_eq_true_iff.1 htaken with hknown | hchosen
      · exact h.committed hpos (of_decide_eq_true hknown)
      · exact h.chosen_of_mem hpos (of_decide_eq_true hchosen)
    obtain ⟨v, b, hv⟩ := hchosen
    obtain ⟨p, hp, -, hc⟩ := hv.upTo
    by_contra hnot
    exact hfresh ⟨hnot, p, hp, hc⟩

/-- Everything in an engine, on its way to one, or handed over is chosen. -/
structure EnginesChosen (cfg : GroupConfig) (s : GroupState) : Prop where
  engine : ∀ {n p}, p ∈ (s.replicas n).learner.engine → s.Chosen cfg p.1 p.2
  applying : ∀ {n entry}, entry ∈ (s.replicas n).applying → s.Chosen cfg entry.slot entry.payload
  handed : ∀ {n slot v}, (n, Effect.handed slot v) ∈ s.history → s.Chosen cfg slot v

theorem EnginesChosen.after (h : s.EnginesChosen cfg)
    (hengine : ∀ p ∈ o.1.learner.engine, p ∈ (s.replicas n).learner.engine ∨ s.Chosen cfg p.1 p.2)
    (happlying : ∀ a ∈ o.1.applying, a ∈ (s.replicas n).applying ∨ s.Chosen cfg a.slot a.payload)
    (houts : ∀ slot v, .handed slot v ∈ o.2 → s.Chosen cfg slot v) :
    (s.after n o).EnginesChosen cfg where
  engine {m p} hp := by
    have hchosen : ∀ p ∈ o.1.learner.engine, s.Chosen cfg p.1 p.2 := by
      intro p hp
      rcases hengine p hp with hp | hc
      · exact h.engine hp
      · exact hc
    exact (forall_after (P := fun _ _ r => ∀ p ∈ r.learner.engine, s.Chosen cfg p.1 p.2)
      (fun _ _ hp => h.engine hp) hchosen m p hp).after
  applying {m a} ha := by
    have hchosen : ∀ a ∈ o.1.applying, s.Chosen cfg a.slot a.payload := by
      intro a ha
      rcases happlying a ha with ha | hc
      · exact h.applying ha
      · exact hc
    exact (forall_after (P := fun _ _ r => ∀ a ∈ r.applying, s.Chosen cfg a.slot a.payload)
      (fun _ _ ha => h.applying ha) hchosen m a ha).after
  handed {m slot v} hm := by
    rcases mem_history_after.mp hm with hm | ⟨-, hm⟩
    · exact (h.handed hm).after
    · exact (houts slot v hm).after

theorem EnginesChosen.step (h : s.EnginesChosen cfg) (hinv : PaxosInv cfg s)
    (hfast : s.OneFastPayload) (hlearned : LearnedInv cfg s) (hok : s.ApplySafe cfg e)
    (hs : groupStep cfg s e = some s') : s'.EnginesChosen cfg := by
  obtain ⟨o, hstep, rfl⟩ := replicaStep_of_groupStep hok.1.1 hs
  cases hstep.learnerMove with
  | quiet hengine hdedup happlying houts | record a req ha hnext hengine hdedup happlying houts =>
    exact h.after (fun p hp => .inl (hengine ▸ hp)) (fun a ha => .inl (happlying ▸ ha))
      fun slot v hv => absurd hv (houts slot v)
  | chosen _ _ entry _ _ hk hquorum hengine _ happlying houts =>
    have hc : s.Chosen cfg entry.slot entry.payload := ⟨_, hinv.chosenAt_of_acks hk hquorum⟩
    refine h.after ?_ ?_ fun slot v hv => absurd hv (houts slot v)
    · intro p hp
      rcases hengine p hp with hp | rfl
      · exact .inl hp
      · exact .inr hc
    · intro a ha
      rcases happlying a ha with ha | rfl
      · exact .inl ha
      · exact .inr hc
  | deferred _ hentry hengine _ happlying houts =>
    have hc := h.applying hentry
    refine h.after ?_ (fun a ha => .inl (happlying a ha)) fun slot v hv => absurd hv (houts slot v)
    intro p hp
    rcases hengine p hp with hp | rfl
    · exact .inl hp
    · exact .inr hc
  | handOver slot _ _ entry hev hpass hle hentry htaken hengine _ happlying houts =>
    have hhand : s.handover e = some entry := by
      rw [hev]
      simp [handover, hpass, hle, htaken, hentry]
    obtain rfl := (s.replicas e.replica).acceptor.slot_eq slot entry hentry
    have hc : s.Chosen cfg entry.slot entry.payload := hinv.chosen_of_accepted hfast hentry
      (hlearned.chosenUpTo_of_taken (hlearned.pass hpass) hentry htaken (hok.2.2 entry hhand))
    refine h.after ?_ (fun a ha => .inl (happlying ▸ ha)) ?_
    · intro p hp
      rcases hengine p hp with hp | rfl
      · exact .inl hp
      · exact .inr hc
    · intro slot v hv
      obtain ⟨rfl, rfl⟩ : slot = entry.slot ∧ v = entry.payload := by simpa [houts] using hv
      exact hc

theorem enginesChosen_of_reach (h : Reach (groupStep cfg) (ApplySafe cfg) .init s) :
    PaxosInv cfg s ∧ s.OneFastPayload ∧ LearnedInv cfg s ∧ s.EnginesChosen cfg := by
  have hlearned : ∀ {s}, Reach (groupStep cfg) (ApplySafe cfg) .init s →
      (PaxosInv cfg s ∧ s.OneFastPayload) ∧ LearnedInv cfg s :=
    fun h => learnedInv_of_reach (fun hok => ⟨hok.1, hok.2.1⟩) h
  have heng : s.EnginesChosen cfg := by
    refine Reach.invariant_of (Q := EnginesChosen cfg) hlearned ?_
      (fun ⟨⟨hinv, hfast⟩, hl⟩ heng hok hs => heng.step hinv hfast hl hok hs) h
    constructor <;> simp [GroupState.init, Replica.new, PxLearner.new]
  exact ⟨(hlearned h).1.1, (hlearned h).1.2, (hlearned h).2, heng⟩

/-- **State-machine safety**: what the apply loop hands over on any replica is the payload chosen at
    the slot. -/
theorem handed_chosen_of_reach (h : Reach (groupStep cfg) (ApplySafe cfg) .init s)
    (hv : (n, Effect.handed slot v) ∈ s.history) :
    s.Chosen cfg slot v ∧ (∀ v', s.Chosen cfg slot v' → v' = v) ∧
      ∀ n' v', (n', Effect.handed slot v') ∈ s.history → v' = v := by
  obtain ⟨hinv, hfast, -, heng⟩ := enginesChosen_of_reach h
  have hagree : ∀ v', s.Chosen cfg slot v' → v' = v := fun v' hv' =>
    hinv.chosen_eq hfast hv' (heng.handed hv)
  exact ⟨heng.handed hv, hagree, fun n' v' hv' => hagree v' (heng.handed hv')⟩

/-- A follower hands over what the leader's notice confirmed. -/
theorem handed_chosen_after_notice : ∃ s, Reach (groupStep (defaultGroup 3))
    (ApplySafe (defaultGroup 3)) .init s ∧ (1, Effect.handed 1 [65]) ∈ s.history ∧
      s.Chosen (defaultGroup 3) 1 [65] := by
  exact Reach.exists_and_of_run (firstWriteRun 3 1 none ++ [.act 1 (.appended 0), .deliver 3 10 true,
    .deliver 3 12 true, .act 3 (.acceptDone 3 true), .deliver 1 13 true, .act 1 .applyPassStart,
    .act 1 (.applyPassStep true)]) (by decide +kernel) fun s hr hv => (handed_chosen_of_reach hr hv).1

/-- Leader `1` writes `[65]` to slot `1` at its own replica; leader `2` fills the slot with a
    `NoOp`, and its heartbeat commits it on replica `1`. -/
def staleEntryRun : List GroupEvent := electionRun 1 2 0 0 0 ++
  [.act 1 (.propose none [65]), .act 1 (.propose none [66]), .act 1 (.acquire 3), .act 1 (.acquire 4),
    .act 1 (.start 3), .act 1 (.start 4), .deliver 1 8 true, .deliver 2 9 true] ++
  electionRun 2 3 13 1 0 ++
  [.act 2 (.acquire 2), .act 2 (.start 2), .deliver 2 21 true, .deliver 3 21 true,
    .act 2 (.appended 1), .act 3 (.appended 0), .deliver 2 22 true, .deliver 2 23 true,
    .act 2 (.prepareDone 2), .deliver 2 24 true, .deliver 3 24 true, .act 3 (.appended 0),
    .deliver 2 26 true, .deliver 2 28 true, .act 2 (.acceptDone 2 true), .act 2 .heartbeatRound,
    .deliver 1 30 true, .act 1 .applyPassStart, .act 1 (.applyPassStep true)]

/-- Replica `1` hands over a payload that is not chosen, although fast proposals never
    conflict. -/
theorem stale_entry_applied : ∃ s, Reach (groupStep (defaultGroup 3)) (FastSafe (defaultGroup 3))
    .init s ∧ (1, Effect.handed 1 [65]) ∈ s.history ∧ s.Chosen (defaultGroup 3) 1 [] ∧
      ¬ s.Chosen (defaultGroup 3) 1 [65] := by
  refine Reach.exists_imp_of_run (fun s => (1, Effect.handed 1 [65]) ∈ s.history ∧
    s.ChosenAt (defaultGroup 3) 1 ⟨1,
      2⟩ [])
    staleEntryRun (by decide +kernel) fun s hr ⟨hv, hc⟩ => ?_
  obtain ⟨hinv, hfast⟩ := inv_of_reach hr
  refine ⟨hv, ⟨_, hc⟩, fun h65 => ?_⟩
  have := hinv.chosen_eq hfast ⟨_, hc⟩ h65
  simp at this

end GroupState

end CrowDB
