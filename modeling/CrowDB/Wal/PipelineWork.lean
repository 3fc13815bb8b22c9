/-
  The work of a pipeline writer: each append that is queued is still to be answered or has its
  answer, and none of them twice, whatever the I/O does.
-/
import CrowDB.Wal.PipelineWriter

namespace CrowDB

open Lib List

/-- The next segment is to be created. -/
def WriterTask.creates : WriterTask → Bool
  | .create | .createRotated .. | .createSealed _ => true
  | _ => false

/-- A seal or a flush taken together with a batch. -/
def WriterTask.follows : WriterTask → Bool
  | .sealSegment _ | .flush _ => true
  | _ => false

/-- What a command taken off the channel starts with. -/
def WriterTask.taken : WriterTask → Bool
  | .write _ | .sealSegment _ | .flush _ => true
  | _ => false

/-- Each append of a written batch has its file offset. -/
def WriterTask.located : WriterTask → Prop
  | .rotate batch _ offsets | .createRotated batch _ offsets | .ack batch _ offsets =>
    offsets.length = batch.length
  | _ => True

/-- How many steps a piece of work takes at most when its I/O succeeds. -/
def WriterTask.cost : WriterTask → ℕ
  | .write _ => 4
  | .rotate .. => 3
  | .createRotated .. | .sealSegment _ | .closeSeal => 2
  | .create | .ack .. | .createSealed _ | .flush _ | .closeFlush => 1

/-- The steps a command may take. -/
def WriterCommand.cost : WriterCommand → ℕ
  | .write _ => 5
  | .sealSegment _ => 3
  | .flush _ => 2

variable {t : WriterTask}

theorem WriterTask.follows_batch (h : t.follows) : t.batch = [] ∧ t.located := by
  cases t <;> simp_all [follows, batch, located]

theorem WriterTask.taken_spec (h : t.taken) : t.located ∧ t.creates = false ∧ t ≠ .closeFlush := by
  cases t <;> simp_all [taken, located, creates]

theorem WriterTask.taken_of_follows (h : t.follows) : t.taken := by
  cases t <;> simp_all [taken, follows]

theorem SegmentWriter.batchOffsets_length (base : ℕ) (batch : List PendingWrite) :
    (batchOffsets base batch).length = batch.length := by
  induction batch generalizing base with
  | nil => rfl
  | cons _ _ ih => simp [batchOffsets, ih]

theorem SegmentWriter.writeBatch_spec (al : WalBlockAlignment) {w : SegmentWriter}
    (h : w.isSealed = false) (batch : List PendingWrite) :
    ∃ w' offsets, w.writeBatch al batch = some (w', offsets) ∧ w'.isSealed = false ∧
      offsets.length = batch.length := by
  unfold writeBatch
  split
  · rename_i hnil
    subst hnil
    exact ⟨w, [], rfl, h, rfl⟩
  · rw [if_neg (by simp [h])]
    refine ⟨_, _, rfl, ?_, batchOffsets_length _ _⟩
    exact ((foldl_note _ batch).2.2.isSealed.trans (writeChunks_same al _ w _).isSealed).trans h

namespace Pipeline

variable {C : Crc32c} {cfg : PipelineConfig} {s s' : Pipeline}

/-! ## Sealing and creating segments -/

/-- What a step on the files leaves of the rest of the state. -/
structure SameWork (s s' : Pipeline) : Prop where
  queue : s'.queue = s.queue
  todo : s'.todo = s.todo
  phase : s'.phase = s.phase
  acks : s'.acks = s.acks
  sent : s'.sent = s.sent

variable {a : ActiveSegment} {rest : List WriterTask} {o : IoOutcome} {ok : Bool}

theorem sealActive_same (h : s.sealActive C cfg a o = (s', ok)) :
    SameWork s s' ∧ s'.torn = s.torn ∧ (ok = true → s'.active = none) ∧
      (ok = false → ∃ a', s'.active = some a' ∧ a'.seg.isSealed = a.seg.isSealed) := by
  cases o <;> cases h <;> refine ⟨⟨rfl, rfl, rfl, rfl, rfl⟩, rfl, ?_, ?_⟩ <;> intro hok <;>
    first | exact rfl | exact ⟨_, rfl, rfl⟩ | cases hok

theorem createSegment_same (h : s.createSegment cfg o = (s', ok)) :
    SameWork s s' ∧ (ok = false → s'.active = s.active) ∧
      (ok = true → s'.torn = s.torn ∧ ∃ a, s'.active = some a ∧ a.seg.isSealed = false) := by
  cases o <;> cases h <;> refine ⟨⟨rfl, rfl, rfl, rfl, rfl⟩, ?_, ?_⟩ <;> intro hok <;>
    first | exact rfl | exact ⟨rfl, _, rfl, rfl⟩ | cases hok

/-! ## The account -/

/-- The account of the appends. -/
structure Work (s : Pipeline) : Prop where
  halted : s.phase ≠ .running → s.todo = []
  stopped : s.phase = .stopped → s.queue = []
  noTorn : s.phase = .running → s.torn = none
  tail : ∀ t ∈ s.todo.tail, t.follows
  creating : ∀ t ∈ s.todo.head?, t.creates → s.active = none
  active : s.phase = .running → (∀ t ∈ s.todo.head?, t.creates = false ∧ t ≠ .closeFlush) →
    s.active.isSome
  unsealed : ∀ a, s.active = some a → a.seg.isSealed = false
  located : ∀ t ∈ s.todo, t.located
  counted : (s.unanswered ++ s.acks.map Prod.fst).Perm s.sent
  distinct : (s.sent.map QueuedWrite.id).Nodup

/-- The appends on the channel. -/
def queuedWrites (s : Pipeline) : List QueuedWrite := s.queue.filterMap WriterCommand.toWrite

theorem unanswered_of_follows (h : ∀ t ∈ s.todo, t.follows) : s.unanswered = s.queuedWrites := by
  have hnil : s.todo.flatMap WriterTask.batch = [] :=
    flatMap_eq_nil_iff.mpr fun t ht => (WriterTask.follows_batch (h t ht)).1
  rw [unanswered, hnil, nil_append, queuedWrites]

theorem unanswered_cons (htodo : s.todo = t :: rest) (h : ∀ t ∈ rest, t.follows) :
    s.unanswered = t.batch ++ s.queuedWrites := by
  have hnil : rest.flatMap WriterTask.batch = [] :=
    flatMap_eq_nil_iff.mpr fun t ht => (WriterTask.follows_batch (h t ht)).1
  rw [unanswered, htodo, flatMap_cons, hnil, append_nil, queuedWrites]

/-! ## Steps of the writer -/

theorem unsealed_of_some (ha : s'.active = some a) (h : a.seg.isSealed = false) :
    ∀ b, s'.active = some b → b.seg.isSealed = false := by
  intro b hb
  rw [ha] at hb
  cases hb
  exact h

/-- The writer is at a step of its work. -/
structure Working (s : Pipeline) (task : WriterTask) (rest : List WriterTask) : Prop where
  work : Work s
  running : s.phase = .running
  todo : s.todo = task :: rest

section

variable {task : WriterTask} (w : Working s task rest) {answers : List (QueuedWrite × AckResult)}
  {ts : List WriterTask}
include w

theorem Working.follows : ∀ t ∈ rest, t.follows := fun t ht =>
  w.work.tail t (by rw [w.todo]; exact ht)

theorem Working.noTorn : s.torn = none := w.work.noTorn w.running

theorem Working.inactive (hc : task.creates) : s.active = none :=
  w.work.creating task (by rw [w.todo]; rfl) hc

theorem Working.isActive (hc : task.creates = false) (hne : task ≠ .closeFlush) : s.active.isSome :=
  w.work.active w.running (by rw [w.todo]; intro t ht; cases ht; exact ⟨hc, hne⟩)

theorem Working.counted : (task.batch ++ s.queuedWrites ++ s.acks.map Prod.fst).Perm s.sent := by
  have h := w.work.counted
  rwa [unanswered_cons w.todo w.follows] at h

theorem Working.done (hp : s'.phase = .running) (ht : s'.torn = none)
    (ha : ∃ a, s'.active = some a ∧ a.seg.isSealed = false) (htodo : s'.todo = rest)
    (hq : s'.queue = s.queue) (hs : s'.sent = s.sent)
    (hacks : s'.acks = s.acks ++ answers) (hans : answers.map Prod.fst = task.batch) : Work s' := by
  obtain ⟨a, ha, hsealed⟩ := ha
  have hrest : ∀ t ∈ s'.todo, t.follows := by rw [htodo]; exact w.follows
  refine ⟨fun hne => absurd hp hne, fun h => (by rw [hp] at h; cases h), fun _ => ht,
    fun t h => hrest t (mem_of_mem_tail h), ?_, fun _ _ => by simp [ha], ?_,
    fun t h => (WriterTask.follows_batch (hrest t h)).2, ?_, hs ▸ w.work.distinct⟩
  · intro t h hc
    have := hrest t (mem_of_mem_head? h)
    cases t <;> simp_all [WriterTask.follows, WriterTask.creates]
  · intro b hb
    rw [ha] at hb
    cases hb
    exact hsealed
  · rw [unanswered_of_follows hrest, hacks, hs, map_append, hans, queuedWrites, hq]
    refine Perm.trans ?_ w.counted
    rw [queuedWrites, ← append_assoc, append_assoc task.batch]
    exact perm_append_comm

theorem Working.more (hp : s'.phase = .running) (ht : s'.torn = none)
    (hc : t.creates = true → s'.active = none)
    (ha : t.creates = false → t ≠ .closeFlush → s'.active.isSome)
    (hsealed : ∀ a, s'.active = some a → a.seg.isSealed = false) (htodo : s'.todo = t :: ts)
    (hts : ∀ t ∈ ts, t.follows) (hq : s'.queue = s.queue) (hs : s'.sent = s.sent)
    (hacks : s'.acks = s.acks)
    (hb : t.batch = task.batch) (hl : t.located) : Work s' := by
  refine ⟨fun hne => absurd hp hne, fun h => (by rw [hp] at h; cases h), fun _ => ht,
    by rw [htodo]; exact hts, ?_, ?_, hsealed, ?_, ?_, hs ▸ w.work.distinct⟩
  · intro t' h' hc'
    rw [htodo] at h'
    cases h'
    exact hc hc'
  · intro _ hall
    obtain ⟨hc', hne⟩ := hall t (by rw [htodo]; rfl)
    exact ha hc' hne
  · intro t' h'
    rw [htodo] at h'
    rcases mem_cons.mp h' with rfl | h'
    · exact hl
    · exact (WriterTask.follows_batch (hts t' h')).2
  · rw [unanswered_cons htodo hts, hb, hacks, hs, queuedWrites, hq]
    exact w.counted

variable {s₁ : Pipeline}

theorem Working.fail (hs₁ : SameWork { s with todo := rest } s₁)
    (hsealed : ∀ a, s₁.active = some a → a.seg.isSealed = false) {failed : Bool}
      {controls : List (ℕ × Bool)} (hans : answers.map Prod.fst = task.batch) :
    Work { s₁ with failed := failed, controlAcks := controls
                   acks := s₁.acks ++ answers }.drainAndFailAll := by
  refine ⟨fun _ => rfl, fun h => (by cases h), fun h => (by cases h), by simp [drainAndFailAll],
    by simp [drainAndFailAll], fun h => (by cases h), hsealed, by simp [drainAndFailAll], ?_, ?_⟩
  · have hun : ∀ p : Pipeline, p.drainAndFailAll.unanswered = [] := fun p => rfl
    have hacks : ∀ p : Pipeline, p.drainAndFailAll.acks.map Prod.fst = p.acks.map Prod.fst ++
      p.queuedWrites := by
      intro p
      simp [drainAndFailAll, failWrites, queuedWrites, Function.comp_def]
    rw [hun, hacks, nil_append]
    show ((s₁.acks ++ answers).map Prod.fst ++ s₁.queue.filterMap _).Perm s₁.sent
    rw [map_append, hans, hs₁.acks, hs₁.queue, hs₁.sent, append_assoc]
    exact perm_append_comm.trans w.counted
  · show (s₁.sent.map QueuedWrite.id).Nodup
    rw [hs₁.sent]
    exact w.work.distinct

theorem Working.created (hr : { s with todo := rest }.createSegment cfg o = (s₁, true)) :
    SameWork { s with todo := rest } s₁ ∧ s₁.torn = none ∧ ∃ a, s₁.active = some a ∧
      a.seg.isSealed = false := by
  obtain ⟨hs, -, hok⟩ := createSegment_same hr
  obtain ⟨ht, ha⟩ := hok rfl
  exact ⟨hs, ht.trans w.noTorn, ha⟩

theorem Working.notCreated (hr : { s with todo := rest }.createSegment cfg o = (s₁, false)) :
    SameWork { s with todo := rest } s₁ ∧ ∀ a, s₁.active = some a → a.seg.isSealed = false := by
  obtain ⟨hs, ha, -⟩ := createSegment_same hr
  refine ⟨hs, fun a h => ?_⟩
  rw [ha rfl] at h
  exact w.work.unsealed a h

theorem Working.notSealed (ha : s.active = some a)
    (hr : { s with todo := ts }.sealActive C cfg a o = (s₁, false)) :
    SameWork { s with todo := ts } s₁ ∧ s₁.torn = none ∧ ∃ a, s₁.active = some a ∧
      a.seg.isSealed = false := by
  obtain ⟨hs, ht, -, hok⟩ := sealActive_same hr
  obtain ⟨a', ha', hsealed⟩ := hok rfl
  exact ⟨hs, ht.trans w.noTorn, a', ha', hsealed.trans (w.work.unsealed a ha)⟩

theorem Working.write {batch : List QueuedWrite} (hbatch : task = .write batch)
    (ha : s.active = some a)
    (h : s.writeTask cfg a batch rest o = some s') : Work s' := by
  have hsealed := w.work.unsealed a ha
  obtain ⟨seg, offsets, hw, hseg, hlen⟩ :=
    SegmentWriter.writeBatch_spec cfg.alignment hsealed (batch.map (·.req))
  rw [writeTask, hw] at h
  cases h
  have hans : (batch.map (·, AckResult.flushFailed)).map Prod.fst = task.batch := by
    rw [hbatch, map_map]
    exact map_id _
  have hfail : ∀ b : ActiveSegment, b.seg.isSealed = false →
      Work ({ s with active := some b, todo := rest }.failBatch batch) := by
    intro b hb
    have hs : SameWork { s with todo := rest } { s with active := some b, todo := rest } :=
      ⟨rfl, rfl, rfl, rfl, rfl⟩
    exact w.fail hs (unsealed_of_some rfl hb) hans
  cases o with
  | ok =>
    refine w.more w.running w.noTorn (fun hc => by cases hc) (fun _ _ => rfl)
      (unsealed_of_some rfl hseg) rfl w.follows rfl rfl rfl (by rw [hbatch]; rfl) ?_
    show offsets.length = batch.length
    rw [hlen, length_map]
  | writeFailed => exact hfail _ hsealed
  | openFailed | syncFailed => exact hfail _ hseg

theorem Working.ioStep (h : s.ioStep C cfg o rest task = some s') : Work s' := by
  have hans : ∀ batch : List QueuedWrite,
    (batch.map (·, AckResult.flushFailed)).map Prod.fst = batch := by
    intro batch
    rw [map_map]
    exact map_id _
  cases task with
  | create =>
    rcases hr : { s with todo := rest }.createSegment cfg o with ⟨s₁, _ | _⟩
    · obtain ⟨hs, hu⟩ := w.notCreated hr
      simp only [Pipeline.ioStep, hr] at h
      cases h
      exact w.fail hs hu (hans [])
    · obtain ⟨hs, ht, ha⟩ := w.created hr
      simp only [Pipeline.ioStep, hr] at h
      cases h
      exact w.done (hs.phase.trans w.running) ht ha hs.todo hs.queue hs.sent
        (hs.acks.trans (append_nil _).symm) rfl
  | write =>
    obtain ⟨a, ha, hw⟩ := Option.bind_eq_some_iff.mp h
    exact w.write rfl ha hw
  | rotate batch segmentId offsets =>
    obtain ⟨a, ha, hw⟩ := Option.map_eq_some_iff.mp h
    have hl := w.work.located (.rotate batch segmentId offsets) (by rw [w.todo]; simp)
    split at hw
    · subst hw
      exact w.more w.running w.noTorn (fun hc => by cases hc) (fun _ _ => by simp [ha])
        w.work.unsealed rfl w.follows rfl rfl rfl rfl hl
    · rcases hr : { s with todo := rest }.sealActive C cfg a o with ⟨s₁, _ | _⟩
      · obtain ⟨hs, -, a', ha', hsealed⟩ := w.notSealed ha hr
        simp only [hr] at hw
        subst hw
        exact w.fail hs (unsealed_of_some ha' hsealed) (hans batch)
      · obtain ⟨hs, ht, hok, -⟩ := sealActive_same hr
        simp only [hr] at hw
        subst hw
        refine w.more (hs.phase.trans w.running) (ht.trans w.noTorn) (fun _ => hok rfl)
          (fun hc => by cases hc) ?_ rfl w.follows hs.queue hs.sent hs.acks rfl hl
        intro b hb
        rw [show _ = none from hok rfl] at hb
        cases hb
  | createRotated batch segmentId offsets =>
    have hl := w.work.located (.createRotated batch segmentId offsets) (by rw [w.todo]; simp)
    rcases hr : { s with todo := rest }.createSegment cfg o with ⟨s₁, _ | _⟩
    · obtain ⟨hs, hu⟩ := w.notCreated hr
      simp only [Pipeline.ioStep, hr] at h
      cases h
      exact w.fail hs hu (hans batch)
    · obtain ⟨hs, ht, a, ha, hsealed⟩ := w.created hr
      simp only [Pipeline.ioStep, hr] at h
      cases h
      exact w.more (hs.phase.trans w.running) ht (fun hc => by cases hc) (fun _ _ => by simp [ha])
        (unsealed_of_some ha hsealed) rfl w.follows hs.queue hs.sent hs.acks rfl hl
  | ack batch segmentId offsets =>
    cases h
    have hl := w.work.located (.ack batch segmentId offsets) (by rw [w.todo]; simp)
    obtain ⟨a, ha⟩ := Option.isSome_iff_exists.mp (w.isActive rfl (by simp))
    refine w.done w.running w.noTorn ⟨a, ha, w.work.unsealed a ha⟩ rfl rfl rfl rfl ?_
    rw [map_map]
    exact map_fst_zip (le_of_eq hl.symm)
  | sealSegment =>
    obtain ⟨a, ha, hw⟩ := Option.map_eq_some_iff.mp h
    rcases hr : { s with todo := rest }.sealActive C cfg a o with ⟨s₁, _ | _⟩
    · obtain ⟨hs, ht, ha'⟩ := w.notSealed ha hr
      simp only [hr] at hw
      subst hw
      exact w.done (hs.phase.trans w.running) ht ha' hs.todo hs.queue hs.sent
        (hs.acks.trans (append_nil _).symm) rfl
    · obtain ⟨hs, ht, hok, -⟩ := sealActive_same hr
      simp only [hr] at hw
      subst hw
      refine w.more (hs.phase.trans w.running) (ht.trans w.noTorn) (fun _ => hok rfl)
        (fun hc => by cases hc) ?_ rfl w.follows hs.queue hs.sent hs.acks rfl trivial
      intro b hb
      rw [show _ = none from hok rfl] at hb
      cases hb
  | createSealed id =>
    rcases hr : { s with todo := rest }.createSegment cfg o with ⟨s₁, _ | _⟩
    · obtain ⟨hs, hu⟩ := w.notCreated hr
      simp only [Pipeline.ioStep, hr] at h
      cases h
      have hf : Work { s₁ with
          failed := true
          controlAcks := s₁.controlAcks ++ [(id, false)]
          acks := s₁.acks ++ [] }.drainAndFailAll := w.fail hs hu rfl
      rwa [append_nil] at hf
    · obtain ⟨hs, ht, ha⟩ := w.created hr
      simp only [Pipeline.ioStep, hr] at h
      cases h
      exact w.done (hs.phase.trans w.running) ht ha hs.todo hs.queue hs.sent
        (hs.acks.trans (append_nil _).symm) rfl
  | flush =>
    obtain ⟨a, ha, hw⟩ := Option.map_eq_some_iff.mp h
    have hsealed := w.work.unsealed a ha
    split at hw <;> subst hw
    · exact w.done w.running w.noTorn ⟨a.sync, rfl, hsealed⟩ rfl rfl rfl (append_nil _).symm rfl
    · exact w.done w.running w.noTorn ⟨a, ha, hsealed⟩ rfl rfl rfl (append_nil _).symm rfl
  | closeSeal =>
    obtain ⟨a, ha, hw⟩ := Option.map_eq_some_iff.mp h
    rcases hr : { s with todo := [.closeFlush] }.sealActive C cfg a o with ⟨s₁, ok⟩
    obtain ⟨hs, ht, hdone, hfail⟩ := sealActive_same hr
    rw [hr] at hw
    subst hw
    refine w.more (hs.phase.trans w.running) (ht.trans w.noTorn) (fun hc => by cases hc)
      (fun _ hne => absurd rfl hne) ?_ hs.todo (by simp) hs.queue hs.sent hs.acks rfl trivial
    cases ok with
    | false =>
      obtain ⟨a', ha', hsealed⟩ := hfail rfl
      exact unsealed_of_some ha' (hsealed.trans (w.work.unsealed a ha))
    | true =>
      intro b hb
      rw [hdone rfl] at hb
      cases hb
  | closeFlush =>
    have hend : ∀ p : Pipeline, p.todo = [] → p.phase = .exiting → p.queue = s.queue →
        p.sent = s.sent → p.acks = s.acks →
        (∀ a, p.active = some a → a.seg.isSealed = false) → Work p := by
      intro p htodo hphase hq hs hacks hu
      refine ⟨fun _ => htodo, fun h => (by rw [hphase] at h; cases h),
        fun h => (by rw [hphase] at h; cases h), by simp [htodo], by simp [htodo],
        fun h => (by rw [hphase] at h; cases h), hu, by simp [htodo], ?_, hs ▸ w.work.distinct⟩
      rw [unanswered_of_follows (by simp [htodo]), queuedWrites, hq, hs, hacks]
      exact w.counted
    simp only [Pipeline.ioStep] at h
    split at h <;> cases h
    · refine hend _ rfl rfl rfl rfl rfl ?_
      intro b hb
      obtain ⟨a, ha, rfl⟩ := Option.map_eq_some_iff.mp hb
      exact w.work.unsealed a ha
    · exact hend _ rfl rfl rfl rfl rfl w.work.unsealed

end

/-! ## Steps of the callers, and taking commands -/

theorem filterMap_toWrite_write (q : QueuedWrite) (queue : List WriterCommand) :
    (.write q :: queue).filterMap WriterCommand.toWrite =
      q :: queue.filterMap WriterCommand.toWrite := rfl

theorem drainPendingCommands_spec (batchBytes : ℕ) : ∀ (acc : ℕ) (queue : List WriterCommand)
    {batch : List QueuedWrite} {tasks : List WriterTask} {rest : List WriterCommand},
    drainPendingCommands batchBytes acc queue = (batch, tasks, rest) →
    (queue.filterMap WriterCommand.toWrite = batch ++ rest.filterMap WriterCommand.toWrite) ∧
      (∀ t ∈ tasks, t.follows)
  | acc, [], batch, tasks, rest, h => by
    cases h
    exact ⟨rfl, by simp⟩
  | acc, .sealSegment id :: queue, batch, tasks, rest, h => by
    cases h
    exact ⟨rfl, by simp [WriterTask.follows]⟩
  | acc, .flush id :: queue, batch, tasks, rest, h => by
    cases h
    exact ⟨rfl, by simp [WriterTask.follows]⟩
  | acc, .write q :: queue, batch, tasks, rest, h => by
    simp only [drainPendingCommands] at h
    split at h
    · cases h
      exact ⟨rfl, by simp⟩
    · rcases hd : drainPendingCommands batchBytes (acc + q.req.encoded.totalLen) queue with ⟨b, ts, r⟩
      obtain ⟨h1, h2⟩ := drainPendingCommands_spec batchBytes _ queue hd
      rw [hd] at h
      cases h
      refine ⟨?_, h2⟩
      rw [filterMap_toWrite_write, h1, cons_append]

theorem recvCommand_spec (h : s.recvCommand cfg = some s') (htodo : s.todo = []) :
    s' = { s with queue := s'.queue, todo := s'.todo } ∧ s'.unanswered = s.unanswered ∧
      (∀ t ∈ s'.todo.tail, t.follows) ∧ (∀ t ∈ s'.todo, t.taken) := by
  unfold recvCommand at h
  split at h
  · cases h
  · rename_i id queue hq
    cases h
    refine ⟨rfl, ?_, by simp, by simp [WriterTask.taken]⟩
    rw [unanswered, unanswered, htodo, hq]
    rfl
  · rename_i id queue hq
    cases h
    refine ⟨rfl, ?_, by simp, by simp [WriterTask.taken]⟩
    rw [unanswered, unanswered, htodo, hq]
    rfl
  · rename_i first queue hq
    rcases hd : drainPendingCommands cfg.batchBytes first.req.encoded.totalLen queue with
      ⟨batch, tasks, rest⟩
    obtain ⟨h1, h2⟩ := drainPendingCommands_spec _ _ _ hd
    simp only [hd] at h
    cases h
    refine ⟨rfl, ?_, h2, ?_⟩
    · rw [unanswered_cons rfl h2, unanswered_of_follows (by simp [htodo]), queuedWrites,
        queuedWrites, hq, filterMap_toWrite_write, h1]
      rfl
    · intro t ht
      rcases mem_cons.mp ht with rfl | ht
      · rfl
      · exact WriterTask.taken_of_follows (h2 t ht)

theorem Work.send (h : Work s) (hp : s.phase ≠ .stopped) (c : WriterCommand)
    {qs : List QueuedWrite} (hc : c.toWrite.toList = qs)
    (hids : ((s.sent ++ qs).map QueuedWrite.id).Nodup) :
    Work { s with queue := s.queue ++ [c], sent := s.sent ++ qs } := by
  refine { h with stopped := fun hs => absurd hs hp, counted := ?_, distinct := hids }
  have hun : { s with queue := s.queue ++ [c], sent := s.sent ++ qs }.unanswered =
    s.unanswered ++ qs := by
    rw [unanswered, unanswered, filterMap_append, append_assoc, ← hc]
    cases c <;> rfl
  rw [hun, append_assoc]
  refine Perm.trans ?_ (h.counted.append_right qs)
  rw [append_assoc]
  exact perm_append_comm.append_left _

theorem Work.sendControl (h : Work s) (hp : s.phase ≠ .stopped) (c : WriterCommand)
    (hc : c.toWrite.toList = []) : Work { s with queue := s.queue ++ [c] } := by
  have := h.send hp c hc (by rw [append_nil]; exact h.distinct)
  rwa [append_nil] at this

/-- **Every step keeps the account.** -/
theorem Work.step (h : Work s) {e : PipelineEvent} (hs : s.step C cfg e = some s') : Work s' := by
  cases e with
  | sendWrite =>
    simp only [Pipeline.step] at hs
    split at hs
    · cases hs
    · rename_i hno
      push Not at hno
      obtain ⟨req, -, rfl⟩ := Option.map_eq_some_iff.mp hs
      refine h.send hno.1 (.write _) rfl ?_
      rw [map_append, nodup_append]
      refine ⟨h.distinct, nodup_singleton _, ?_⟩
      intro i hi j hj he
      obtain ⟨q, hq, rfl⟩ := mem_map.mp hi
      rw [map_singleton, mem_singleton] at hj
      exact hno.2.2 q hq (he.trans hj)
  | sendSeal id =>
    simp only [Pipeline.step] at hs
    split at hs
    · cases hs
    · rename_i hno
      push Not at hno
      cases hs
      exact h.sendControl hno.1 (.sealSegment id) rfl
  | sendFlush id =>
    simp only [Pipeline.step] at hs
    split at hs
    · cases hs
    · rename_i hno
      push Not at hno
      cases hs
      exact h.sendControl hno.1 (.flush id) rfl
  | close =>
    cases hs
    exact { h with }
  | recv =>
    simp only [Pipeline.step] at hs
    split at hs
    · rename_i hp
      obtain ⟨h1, h2, h3, h4⟩ := recvCommand_spec hs hp.2
      have ha := h.active hp.1 (by simp [hp.2])
      have hc := h.counted
      rw [← h2] at hc
      rw [h1] at hc ⊢
      refine ⟨fun hne => absurd hp.1 hne, fun hst => absurd hst (by simp [hp.1]), h.noTorn, h3, ?_,
        fun _ _ => ha, h.unsealed, fun t ht => (WriterTask.taken_spec (h4 t ht)).1, hc, h.distinct⟩
      intro t ht hcr
      rw [(WriterTask.taken_spec (h4 t (mem_of_mem_head? ht))).2.1] at hcr
      cases hcr
    · cases hs
  | shutdown =>
    simp only [Pipeline.step] at hs
    split at hs
    · rename_i hp
      cases hs
      have ha := h.active hp.1 (by simp [hp.2.1])
      refine ⟨fun hne => absurd hp.1 hne, h.stopped, h.noTorn, by simp, by simp [WriterTask.creates],
        fun _ _ => ha, h.unsealed, by simp [WriterTask.located], ?_, h.distinct⟩
      have hc := h.counted
      rw [unanswered, hp.2.1] at hc
      exact hc
    · cases hs
  | io =>
    simp only [Pipeline.step] at hs
    split at hs
    · cases hs
    · rename_i task rest htodo
      split at hs
      · rename_i hp
        exact Working.ioStep ⟨h, hp, htodo⟩ hs
      · cases hs
  | exit =>
    simp only [Pipeline.step] at hs
    split at hs
    · rename_i hp
      cases hs
      have htodo : s.todo = [] := h.halted (by rw [hp]; simp)
      refine ⟨fun _ => htodo, fun _ => rfl, fun hr => (by cases hr), h.tail, h.creating,
        fun hr => (by cases hr), h.unsealed, h.located, ?_, h.distinct⟩
      have hc := h.counted
      rw [unanswered_of_follows (by simp [htodo])] at hc
      refine Perm.trans ?_ hc
      rw [unanswered_of_follows (by simp [failWrites, htodo])]
      simp only [failWrites, queuedWrites, filterMap_nil, nil_append, map_append, map_map]
      exact perm_append_comm.trans
        (by rw [show (Prod.fst ∘ fun q : QueuedWrite => (q, AckResult.dropped)) =
        id from rfl, map_id])
    · cases hs

/-! ## The writer answers everything it is sent -/

/-- The steps the work at hand and the commands on the channel take at most. -/
def load (s : Pipeline) : ℕ := (s.todo.map WriterTask.cost).sum + (s.queue.map WriterCommand.cost).sum

end Pipeline

end CrowDB
