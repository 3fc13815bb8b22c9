/-
  What an acknowledged append can rely on.

  The bytes of the active file up to the write offset are header and records, or header, records and
  a footer once a seal has been cut off; the synced part holds the durable records (`ActiveOk`).
  Every record acknowledged with success is a durable one (`Core.acked`).
-/
import CrowDB.Lib.Lists
import CrowDB.Wal.PipelineWork

namespace CrowDB

open Lib List Option

/-! ## Files -/

section

variable (C : Crc32c) (cfg : PipelineConfig)

/-- The writer encoded the record, and its frame does not look like a footer. -/
def Readable (r : RawRecord) : Prop := Encodable C cfg.recordFormat r ∧ FooterFree cfg.recordFormat r

/-- Header and records of a segment. -/
def segContent (segmentId : UInt64) (rs : List RawRecord) : Bytes :=
  segHeader cfg.recordFormat segmentId cfg.groupId ++ rs.flatMap (recordBytes C cfg.recordFormat)

/-- The synced part of a sealed file is header, records and footer. -/
structure SealedOk (f : SealedFile) : Prop where
  readable : ∀ r ∈ f.records, Readable C cfg r
  content : ∃ segmentId w, segContent C cfg segmentId f.records ++ SegmentWriter.footer C w <+:
    f.bytes.take f.synced

/-- What the writer knows of its file. -/
structure ActiveOk (a : ActiveSegment) : Prop where
  isSealed : a.seg.isSealed = false
  format : a.seg.recordFormat = cfg.recordFormat
  readable : ∀ r ∈ a.records, Readable C cfg r
  durable : a.durable ⊆ a.records
  inFile : a.seg.writeOffset ≤ a.seg.file.length
  syncedLe : a.synced ≤ a.seg.writeOffset
  synced : a.durable = [] ∨ segContent C cfg a.seg.segmentId a.durable <+: a.seg.file.take a.synced
  unsealed : a.footerWritten = false → a.seg.file.take a.seg.writeOffset =
    segContent C cfg a.seg.segmentId a.records
  closed : a.footerWritten = true → ∃ w, segContent C cfg a.seg.segmentId a.records ++
    SegmentWriter.footer C w <+:
      a.seg.file.take a.seg.writeOffset

variable {C cfg} {a : ActiveSegment}

variable (h : ActiveOk C cfg a) {file : Bytes}
include h

theorem ActiveOk.content_prefix : segContent C cfg a.seg.segmentId a.records <+:
      a.seg.file.take a.seg.writeOffset := by
  cases hf : a.footerWritten with
  | false => rw [h.unsealed hf]
  | true =>
    obtain ⟨w, hw⟩ := h.closed hf
    exact (prefix_append _ _).trans hw

theorem ActiveOk.of_agree (hfile : a.seg.file.take a.seg.writeOffset <+: file) :
    ActiveOk C cfg { a with seg := { a.seg with file := file } } := by
  have hlen : (a.seg.file.take a.seg.writeOffset).length = a.seg.writeOffset := by
    rw [length_take, Nat.min_eq_left h.inFile]
  have htake : file.take a.seg.writeOffset = a.seg.file.take a.seg.writeOffset := by
    obtain ⟨rest, rfl⟩ := hfile
    exact take_left' hlen
  have hsync : file.take a.synced = a.seg.file.take a.synced := by
    have := congrArg (take a.synced) htake
    rwa [take_take, take_take, Nat.min_eq_left h.syncedLe] at this
  refine { h with inFile := ?_, synced := ?_, unsealed := ?_, closed := ?_ }
  · exact hlen ▸ hfile.length_le
  · simpa only [hsync] using h.synced
  · simpa only [htake] using h.unsealed
  · simpa only [htake] using h.closed

theorem ActiveOk.sync : ActiveOk C cfg a.sync :=
  { h with durable := Subset.refl _, syncedLe := le_rfl, synced := .inr h.content_prefix }

theorem ActiveOk.tornWrite (data : Bytes) (kept zeros : ℕ) :
    ActiveOk C cfg (a.tornWrite data kept zeros) := by
  refine h.of_agree ?_
  rw [pwrite_eq h.inFile, append_assoc]
  exact prefix_append _ _
omit h in
theorem writeBytes_take (al : WalBlockAlignment) {off : ℕ} (h : off ≤ file.length)
    (data : Bytes) : file.take off ++ data <+: al.writeBytes file data off := by
  obtain ⟨k, hk⟩ := al.writeBytes_eq h data
  rw [hk, ← append_assoc]
  exact prefix_append _ _

theorem ActiveOk.extend_take {data : Bytes}
    (hfile : a.seg.file.take a.seg.writeOffset ++ data <+: file) :
    file.take (a.seg.writeOffset + data.length) = a.seg.file.take a.seg.writeOffset ++ data ∧
      file.take a.synced = a.seg.file.take a.synced ∧
      a.seg.writeOffset + data.length ≤ file.length := by
  have hlen : (a.seg.file.take a.seg.writeOffset ++ data).length = a.seg.writeOffset +
    data.length := by
    rw [length_append, length_take, Nat.min_eq_left h.inFile]
  have hle := hlen ▸ hfile.length_le
  obtain ⟨rest, rfl⟩ := hfile
  refine ⟨take_left' hlen, ?_, hle⟩
  have hs := h.syncedLe
  rw [append_assoc, take_append_of_le_length (by
    rw [length_take, Nat.min_eq_left h.inFile]; exact hs), take_take, Nat.min_eq_left hs]

theorem ActiveOk.sealUnsynced : ActiveOk C cfg (a.sealUnsynced C cfg.alignment) := by
  have hseg : a.seg.sealSegment C cfg.alignment = { a.seg with
      file := cfg.alignment.writeBytes a.seg.file (a.seg.footer C) a.seg.writeOffset
      writeOffset := a.seg.writeOffset + (a.seg.footer C).length
      isSealed := true } := by
    rw [SegmentWriter.sealSegment, if_neg (by simp [h.isSealed])]
  obtain ⟨h1, h2, h3⟩ := h.extend_take (writeBytes_take cfg.alignment h.inFile (a.seg.footer C))
  have hoff := h.syncedLe
  simp only [ActiveSegment.sealUnsynced, hseg]
  refine ⟨h.isSealed, h.format, h.readable, h.durable, h3, ?_, ?_, ?_, ?_⟩
  · simp only; omega
  · simpa only [h2] using h.synced
  · intro hf; cases hf
  · intro _
    simp only [h1]
    cases hf : a.footerWritten with
    | false => exact ⟨a.seg, by rw [h.unsealed hf]⟩
    | true =>
      obtain ⟨w, hw⟩ := h.closed hf
      exact ⟨w, hw.trans (prefix_append _ _)⟩

theorem ActiveOk.toSealed : SealedOk C cfg (a.toSealed C cfg.alignment) := by
  have hs := h.sealUnsynced
  obtain ⟨w, hw⟩ := hs.closed rfl
  refine ⟨h.readable, a.seg.segmentId, w, ?_⟩
  have hid : (a.sealUnsynced C cfg.alignment).seg.segmentId = a.seg.segmentId := by
    simp only [ActiveSegment.sealUnsynced, SegmentWriter.sealSegment]; split <;> rfl
  rw [hid] at hw
  exact hw

omit h

theorem ActiveOk.readsAtLeast (h : ActiveOk C cfg a) {img : Bytes}
    (hi : a.seg.file.take a.synced <+: img) : ReadsAtLeast C img a.durable := by
  rcases h.synced with hnil | hc
  · exact .inl hnil
  · exact readsAtLeast_prefix C (fun r hr => (h.readable r (h.durable hr)).1)
      (fun r hr => (h.readable r (h.durable hr)).2) (hc.trans hi)

/-! ## Batches -/

/-- A queued append: its request is the encoding of its record. -/
structure WriteOk (C : Crc32c) (cfg : PipelineConfig) (q : QueuedWrite) : Prop where
  req : pendingWrite C cfg.recordFormat q.record = some q.req
  footerFree : FooterFree cfg.recordFormat q.record

theorem WriteOk.readable {q : QueuedWrite} (h : WriteOk C cfg q) : Readable C cfg q.record := by
  obtain ⟨e, he, -⟩ := map_eq_some_iff.mp h.req
  exact ⟨by rw [Encodable, he]; rfl, h.footerFree⟩

theorem mapM_req {batch : List QueuedWrite} (h : ∀ q ∈ batch, WriteOk C cfg q) :
    (batch.map (·.record)).mapM (pendingWrite C cfg.recordFormat) = some (batch.map (·.req)) := by
  induction batch with
  | nil => rfl
  | cons q _ ih =>
    rw [map_cons, mapM_cons, (h q (by simp)).req, ih fun q hq => h q (by simp [hq])]
    rfl

/-- **A batch that is written** behind the records of the segment. -/
theorem ActiveOk.writeBatch (h : ActiveOk C cfg a) (hopen : a.footerWritten = false)
    {batch : List QueuedWrite} (hb : ∀ q ∈ batch, WriteOk C cfg q) {seg : SegmentWriter}
    {offsets : List ℕ}
    (hw : a.seg.writeBatch cfg.alignment (batch.map (·.req)) = some (seg, offsets)) :
    ActiveOk C cfg { a with seg := seg, records := a.records ++ batch.map (·.record) } := by
  have hlen : (a.seg.file.take a.seg.writeOffset).length = a.seg.writeOffset := by
    rw [length_take, Nat.min_eq_left h.inFile]
  have hpre : a.seg.file.take a.seg.writeOffset <+: a.seg.file := take_prefix _ _
  have hon : a.seg.On (· <+: ·) (a.seg.file.take a.seg.writeOffset) := ⟨hpre, hlen.symm⟩
  obtain ⟨h1, h2, -⟩ := hon.writeBatch (SegmentWriter.extends_isPrefix cfg.alignment) hw
  obtain ⟨hbytes, -, -⟩ := mapM_pendingWrite (mapM_req hb) 0
  obtain ⟨g1, g2, g3⟩ := h.extend_take h1.file
  have hoff : seg.writeOffset = a.seg.writeOffset +
    (SegmentWriter.batchBytes (batch.map (·.req))).length := by
    rw [h1.offset, length_append, hlen]
  refine ⟨h2.isSealed.trans h.isSealed, h2.recordFormat.trans h.format, ?_, ?_, ?_, ?_, ?_, ?_, ?_⟩
  · intro r hr
    rcases mem_append.mp hr with hr | hr
    · exact h.readable r hr
    · obtain ⟨q, hq, rfl⟩ := mem_map.mp hr
      exact (hb q hq).readable
  · exact Subset.trans h.durable (subset_append_left _ _)
  · simp only [hoff]; exact g3
  · have := h.syncedLe
    simp only [hoff]; omega
  · simpa only [g2, h2.segmentId] using h.synced
  · intro _
    show seg.file.take seg.writeOffset = _
    rw [hoff, g1, h.unsealed hopen, hbytes]
    simp only [segContent, h2.segmentId, flatMap_append, append_assoc]
  · intro hf
    rw [hopen] at hf
    cases hf

/-! ## The invariant -/

/-- The records of a batch that is written and not yet acknowledged. -/
def WriterTask.flushed : WriterTask → List QueuedWrite
  | .rotate batch _ _ | .createRotated batch _ _ | .ack batch _ _ => batch
  | _ => []

/-- The step writes a batch. -/
def WriterTask.writes : WriterTask → Bool
  | .write _ => true
  | _ => false

namespace Pipeline

/-- The records that are durable: those of sealed files, and those the last sync
    of the active one has covered. -/
def durableRecords (s : Pipeline) : List RawRecord :=
  s.sealedFiles.flatMap (·.records) ++ s.active.toList.flatMap (·.durable)

/-- What the files hold, and that what is acknowledged is durable. -/
structure Core (C : Crc32c) (cfg : PipelineConfig) (s : Pipeline) : Prop where
  sealedOk : ∀ f ∈ s.sealedFiles, SealedOk C cfg f
  activeOk : ∀ a, s.active = some a → ActiveOk C cfg a
  torn : s.torn ≠ none → s.active = none
  acked : ∀ q segmentId off, (q, AckResult.ok segmentId off) ∈ s.acks → q.record ∈ s.durableRecords

/-- The invariant of the pipeline. -/
structure Inv (C : Crc32c) (cfg : PipelineConfig) (s : Pipeline) : Prop where
  core : Core C cfg s
  writes : ∀ q ∈ s.unanswered, WriteOk C cfg q
  flushed : ∀ t ∈ s.todo, ∀ q ∈ t.flushed, q.record ∈ s.durableRecords

variable {s s' : Pipeline} {image : List Bytes} {α β : Type}

theorem Core.congr (h : Core C cfg s) (h1 : s'.sealedFiles = s.sealedFiles)
    (h2 : s'.active = s.active) (h3 : s'.torn = s.torn)
    (h4 : ∀ q segmentId off, (q, AckResult.ok segmentId off) ∈ s'.acks →
      (q, AckResult.ok segmentId off) ∈ s.acks ∨ q.record ∈ s.durableRecords) : Core C cfg s' := by
  have hd : s'.durableRecords = s.durableRecords := by rw [durableRecords, h1, h2]; rfl
  refine ⟨h1 ▸ h.sealedOk, h2 ▸ h.activeOk, by rw [h2, h3]; exact h.torn, ?_⟩
  intro q segmentId off hq
  rw [hd]
  exact (h4 q segmentId off hq).elim (h.acked q segmentId off) id

theorem Core.files (h : Core C cfg s) (h1 : ∀ f ∈ s'.sealedFiles, SealedOk C cfg f)
    (h2 : ∀ a, s'.active = some a → ActiveOk C cfg a) (h3 : s'.torn ≠ none → s'.active = none)
    (h4 : s'.acks = s.acks) (h5 : s.durableRecords ⊆ s'.durableRecords) : Core C cfg s' :=
  ⟨h1, h2, h3, fun q segmentId off hq => h5 (h.acked q segmentId off (h4 ▸ hq))⟩

theorem mem_map_const {qs : List α} {r : β} {q : α} {b : β} (h : (q, b) ∈ qs.map (·, r)) : b = r := by
  obtain ⟨_, -, he⟩ := mem_map.mp h
  exact (Prod.mk.inj he).2.symm

theorem Core.drainAndFailAll (h : Core C cfg s) : Inv C cfg s.drainAndFailAll := by
  have hcore : Core C cfg s.drainAndFailAll := by
    refine h.congr rfl rfl rfl fun q segmentId off hq => ?_
    rcases mem_append.mp hq with hq | hq
    · exact .inl hq
    · exact absurd (mem_map_const hq) (by simp)
  exact ⟨hcore, by simp [Pipeline.drainAndFailAll, unanswered], by simp [Pipeline.drainAndFailAll]⟩

theorem Core.failBatch (h : Core C cfg s) (batch : List QueuedWrite) :
    Inv C cfg (s.failBatch batch) := by
  refine Core.drainAndFailAll (h.congr rfl rfl rfl fun q segmentId off hq => ?_)
  rcases mem_append.mp hq with hq | hq
  · exact .inl hq
  · exact absurd (mem_map_const hq) (by simp)

/-! ### Sealing and creating segments -/

theorem durableRecords_of_active (h : s.active = some a) :
    s.durableRecords = s.sealedFiles.flatMap (·.records) ++ a.durable := by
  simp [durableRecords, h]

/-- **A seal keeps every durable record**, whatever its outcome. -/
theorem Core.sealActive (h : Core C cfg s) (ha : s.active = some a)
    (ht : s.torn = none) (o : IoOutcome) :
    Core C cfg (s.sealActive C cfg a o).1 ∧
      s.durableRecords ⊆ (s.sealActive C cfg a o).1.durableRecords := by
  have haok := h.activeOk a ha
  -- a seal that fails only changes the active file
  have hkeep : ∀ a', ActiveOk C cfg a' → a'.durable = a.durable → Core C cfg
    { s with active := some a' } ∧
        s.durableRecords ⊆ { s with active := some a' }.durableRecords := by
    intro a' hok hd
    have hsub : s.durableRecords ⊆ { s with active := some a' }.durableRecords := by
      rw [durableRecords_of_active ha,
        durableRecords_of_active (s := { s with active := some a' }) rfl, hd]
      exact Subset.refl _
    refine ⟨h.files h.sealedOk ?_ ?_ rfl hsub, hsub⟩
    · intro b hb
      cases hb
      exact hok
    · intro hne
      exact absurd ht hne
  cases o with
  | ok =>
    have hsub : s.durableRecords ⊆ (s.sealActive C cfg a .ok).1.durableRecords := by
      rw [durableRecords_of_active ha]
      simp only [Pipeline.sealActive, durableRecords, flatMap_append, flatMap_cons,
        flatMap_nil, toList_none, append_nil]
      exact append_subset.mpr ⟨subset_append_left _ _, Subset.trans haok.durable
        (subset_append_right _ _)⟩
    refine ⟨h.files ?_ ?_ ?_ rfl hsub, hsub⟩
    · exact forall_mem_concat h.sealedOk haok.toSealed
    · intro b hb; cases hb
    · intro _; rfl
  | writeFailed kept zeros =>
    exact hkeep _ (haok.tornWrite (a.seg.footer C) kept zeros) rfl
  | openFailed | syncFailed =>
    exact hkeep _ haok.sealUnsynced rfl

theorem activeOk_freshSegment (s : Pipeline) : ActiveOk C cfg (s.freshSegment cfg) := by
  have hon := SegmentWriter.on_create cfg.alignment cfg.recordFormat s.nextSegmentId cfg.groupId
  obtain ⟨k, hk⟩ := hon.file
  have hcontent : segContent C cfg s.nextSegmentId [] =
    segHeader cfg.recordFormat s.nextSegmentId cfg.groupId := by
    rw [segContent, flatMap_nil, append_nil]
  refine ⟨rfl, rfl, by simp [freshSegment], Subset.refl _, ?_, Nat.zero_le _, .inl rfl, ?_, ?_⟩
  · simp only [freshSegment, hk, hon.offset, length_append]; omega
  · intro _
    simp only [freshSegment, hk, hon.offset, take_left]
    exact hcontent.symm
  · intro hf; cases hf

theorem Core.createSegment (h : Core C cfg s) (ha : s.active = none) (ht : s.torn = none)
    (o : IoOutcome) :
    Core C cfg (s.createSegment cfg o).1 ∧
      s.durableRecords ⊆ (s.createSegment cfg o).1.durableRecords := by
  have hd : s.durableRecords = s.sealedFiles.flatMap (·.records) := by simp [durableRecords, ha]
  cases o with
  | ok =>
    have hsub : s.durableRecords ⊆ (s.createSegment cfg .ok).1.durableRecords := by
      rw [hd]; exact subset_append_left _ _
    refine ⟨h.files h.sealedOk ?_ ?_ rfl hsub, hsub⟩
    · intro a ha'
      cases ha'
      exact activeOk_freshSegment s
    · intro hne; exact absurd ht hne
  | writeFailed =>
    exact ⟨h.files h.sealedOk h.activeOk (fun _ => ha) rfl (Subset.refl _), Subset.refl _⟩
  | openFailed | syncFailed =>
    exact ⟨h.congr rfl rfl rfl fun q segmentId off hq => .inl hq, Subset.refl _⟩

/-! ### Steps -/

theorem mem_unanswered {q : QueuedWrite} : q ∈ s.unanswered ↔ (∃ t ∈ s.todo, q ∈ t.batch) ∨
      .write q ∈ s.queue := by
  rw [unanswered, mem_append, mem_flatMap, mem_filterMap]
  refine or_congr Iff.rfl ⟨?_, fun h => ⟨_, h, rfl⟩⟩
  rintro ⟨c, hc, he⟩
  cases c with
  | write => cases he; exact hc
  | sealSegment | flush => cases he

theorem Inv.next (h : Inv C cfg s) (hcore : Core C cfg s')
    (htodo : ∀ t ∈ s'.todo, ∀ q ∈ t.batch, q ∈ s.unanswered) (hqueue : s'.queue = s.queue)
    (hflushed : ∀ t ∈ s'.todo, ∀ q ∈ t.flushed, q.record ∈ s'.durableRecords) : Inv C cfg s' := by
  refine ⟨hcore, ?_, hflushed⟩
  intro q hq
  rcases mem_unanswered.mp hq with ⟨t, ht, hq⟩ | hq
  · exact h.writes q (htodo t ht q hq)
  · exact h.writes q (mem_unanswered.mpr (.inr (hqueue ▸ hq)))

theorem taken_flushed {t : WriterTask} (h : t.taken) : t.flushed = [] := by
  cases t <;> simp_all [WriterTask.taken, WriterTask.flushed]

theorem follows_flushed {t : WriterTask} (h : t.follows) : t.flushed = [] :=
  taken_flushed (WriterTask.taken_of_follows h)

section

variable {task : WriterTask} {rest : List WriterTask} {o : IoOutcome}

/-- What the invariant gives at a step of the writer. -/
structure AtWork (C : Crc32c) (cfg : PipelineConfig) (s : Pipeline) (task : WriterTask)
    (rest : List WriterTask) : Prop extends Working s task rest where
  inv : Inv C cfg s

variable (w : AtWork C cfg s task rest) {s₁ : Pipeline} {ok : Bool}
include w

theorem AtWork.core (ts : List WriterTask) : Core C cfg { s with todo := ts } :=
  w.inv.core.congr rfl rfl rfl fun _ _ _ hq => .inl hq

theorem AtWork.batch : ∀ q ∈ task.batch, q ∈ s.unanswered := fun q hq =>
  mem_unanswered.mpr (.inl ⟨task, by rw [w.todo]; simp, hq⟩)

theorem AtWork.flushed : ∀ q ∈ task.flushed, q.record ∈ s.durableRecords :=
  w.inv.flushed task (by rw [w.todo]; simp)

theorem AtWork.done (hcore : Core C cfg s') (htodo : s'.todo = rest) (hq : s'.queue = s.queue) :
    Inv C cfg s' := by
  have hrest : ∀ t ∈ s'.todo, t.follows := by rw [htodo]; exact w.follows
  refine w.inv.next hcore ?_ hq ?_
  · intro t ht' q hq'
    rw [(WriterTask.follows_batch (hrest t ht')).1] at hq'
    cases hq'
  · intro t ht' q hq'
    rw [follows_flushed (hrest t ht')] at hq'
    cases hq'

theorem AtWork.more {t : WriterTask} (hcore : Core C cfg s') (htodo : s'.todo = t :: rest)
    (hq : s'.queue = s.queue) (hb : t.batch ⊆ task.batch)
    (hf : ∀ q ∈ t.flushed, q.record ∈ s'.durableRecords) : Inv C cfg s' := by
  refine w.inv.next hcore ?_ hq ?_
  · intro t' ht' q hq'
    rw [htodo] at ht'
    rcases mem_cons.mp ht' with rfl | ht'
    · exact w.batch q (hb hq')
    · rw [(WriterTask.follows_batch (w.follows t' ht')).1] at hq'
      cases hq'
  · intro t' ht' q hq'
    rw [htodo] at ht'
    rcases mem_cons.mp ht' with rfl | ht'
    · exact hf q hq'
    · rw [follows_flushed (w.follows t' ht')] at hq'
      cases hq'

theorem AtWork.createSegment (hc : task.creates)
    (hr : { s with todo := rest }.createSegment cfg o = (s₁, ok)) :
    Core C cfg s₁ ∧ s.durableRecords ⊆ s₁.durableRecords ∧ SameWork { s with todo := rest } s₁ := by
  obtain ⟨h1, h2⟩ := (w.core rest).createSegment (w.inactive hc) w.noTorn o
  rw [hr] at h1 h2
  exact ⟨h1, h2, (createSegment_same hr).1⟩

theorem AtWork.sealActive (ha : s.active = some a) (ts : List WriterTask)
    (hr : { s with todo := ts }.sealActive C cfg a o = (s₁, ok)) :
    Core C cfg s₁ ∧ s.durableRecords ⊆ s₁.durableRecords ∧ SameWork { s with todo := ts } s₁ := by
  obtain ⟨h1, h2⟩ := (w.core ts).sealActive ha w.noTorn o
  rw [hr] at h1 h2
  exact ⟨h1, h2, (sealActive_same hr).1⟩

theorem AtWork.core_sync (ha : s.active = some a)
    (h1 : s'.sealedFiles = s.sealedFiles) (h2 : s'.active = some a.sync) (h3 : s'.torn = s.torn)
    (h4 : s'.acks = s.acks) : Core C cfg s' := by
  have haok := w.inv.core.activeOk a ha
  refine w.inv.core.files (h1 ▸ w.inv.core.sealedOk) ?_ ?_ h4 ?_
  · intro b hb
    rw [h2] at hb
    cases hb
    exact haok.sync
  · intro hne
    exact absurd (h3.trans w.noTorn) hne
  · rw [durableRecords_of_active ha, durableRecords_of_active h2, h1]
    exact append_subset.mpr ⟨subset_append_left _ _, Subset.trans haok.durable
      (subset_append_right _ _)⟩

/-- **The write of a batch** keeps the invariant, if no footer stands before it. -/
theorem AtWork.write {batch : List QueuedWrite} (hbatch : task = .write batch)
    (ha : s.active = some a) (hopen : a.footerWritten = false)
    (h : s.writeTask cfg a batch rest o = some s') : Inv C cfg s' := by
  obtain ⟨⟨seg, offsets⟩, hw, he⟩ := map_eq_some_iff.mp h
  have haok := w.inv.core.activeOk a ha
  have hb : ∀ q ∈ batch, WriteOk C cfg q := fun q hq =>
    w.inv.writes q (w.batch q (by rw [hbatch]; exact hq))
  have hok := haok.writeBatch hopen hb hw
  set a' : ActiveSegment :=
    { a with seg := seg, records := a.records ++ batch.map (·.record) }
  -- the files are sound for every active segment that keeps the durable records
  have hcore : ∀ b, ActiveOk C cfg b → a.durable ⊆ b.durable → ∀ ts,
      Core C cfg { s with active := some b, todo := ts } ∧
        s.durableRecords ⊆ { s with active := some b, todo := ts }.durableRecords := by
    intro b hbok hsub ts
    have hd : s.durableRecords ⊆ { s with active := some b, todo := ts }.durableRecords := by
      rw [durableRecords_of_active ha, durableRecords_of_active
        (s := { s with active := some b, todo := ts }) rfl]
      exact append_subset.mpr ⟨subset_append_left _ _, Subset.trans hsub (subset_append_right _ _)⟩
    refine ⟨w.inv.core.files w.inv.core.sealedOk ?_ ?_ rfl hd, hd⟩
    · intro c hc
      cases hc
      exact hbok
    · intro hne
      exact absurd w.noTorn hne
  cases o with
  | ok =>
    subst he
    obtain ⟨h1, -⟩ := hcore a'.sync hok.sync (Subset.trans haok.durable (subset_append_left _ _))
      (.rotate batch a.seg.segmentId offsets :: rest)
    refine w.more h1 rfl rfl (by rw [hbatch]; exact Subset.refl _) ?_
    intro q hq
    rw [durableRecords_of_active (a := a'.sync) rfl]
    refine mem_append_right _ (mem_append_right _ ?_)
    exact mem_map_of_mem hq
  | writeFailed kept zeros =>
    subst he
    exact (hcore _ (haok.tornWrite _ kept zeros) (Subset.refl _) rest).1.failBatch batch
  | openFailed | syncFailed =>
    subst he
    exact (hcore a' hok (Subset.refl _) rest).1.failBatch batch

/-- **A step of the writer keeps the invariant**, unless it writes a batch behind
    a footer. -/
theorem AtWork.ioStep (hopen : ∀ batch a, task = .write batch → s.active = some a →
      a.footerWritten = false)
    (h : s.ioStep C cfg o rest task = some s') : Inv C cfg s' := by
  cases task with
  | create =>
    rcases hr : { s with todo := rest }.createSegment cfg o with ⟨s₁, ok⟩
    obtain ⟨h1, h2, hs⟩ := w.createSegment rfl hr
    simp only [Pipeline.ioStep, hr] at h
    cases ok with
    | true =>
      cases h
      exact w.done h1 hs.todo hs.queue
    | false => cases h; exact h1.failBatch []
  | write batch =>
    obtain ⟨a, ha, hw⟩ := bind_eq_some_iff.mp h
    exact w.write rfl ha (hopen batch a rfl ha) hw
  | rotate batch =>
    obtain ⟨a, ha, hw⟩ := map_eq_some_iff.mp h
    split at hw
    · subst hw
      exact w.more (w.core _) rfl rfl (Subset.refl _) w.flushed
    · rcases hr : { s with todo := rest }.sealActive C cfg a o with ⟨s₁, ok⟩
      obtain ⟨h1, h2, hs⟩ := w.sealActive ha rest hr
      simp only [hr] at hw
      cases ok with
      | true =>
        subst hw
        exact w.more (h1.congr rfl rfl rfl fun _ _ _ hq => .inl hq) rfl hs.queue (Subset.refl _)
          fun q hq => h2 (w.flushed q hq)
      | false => subst hw; exact h1.failBatch batch
  | createRotated batch =>
    rcases hr : { s with todo := rest }.createSegment cfg o with ⟨s₁, ok⟩
    obtain ⟨h1, h2, hs⟩ := w.createSegment rfl hr
    simp only [Pipeline.ioStep, hr] at h
    cases ok with
    | true =>
      cases h
      exact w.more (h1.congr rfl rfl rfl fun _ _ _ hq => .inl hq) rfl hs.queue (Subset.refl _)
        fun q hq => h2 (w.flushed q hq)
    | false => cases h; exact h1.failBatch batch
  | ack =>
    cases h
    refine w.done (w.inv.core.congr rfl rfl rfl fun q sid off hq => ?_) rfl rfl
    rcases mem_append.mp hq with hq | hq
    · exact .inl hq
    · obtain ⟨⟨q', off'⟩, hz, he⟩ := mem_map.mp hq
      cases he
      exact .inr (w.flushed q' (of_mem_zip hz).1)
  | sealSegment =>
    obtain ⟨a, ha, hw⟩ := map_eq_some_iff.mp h
    rcases hr : { s with todo := rest }.sealActive C cfg a o with ⟨s₁, ok⟩
    obtain ⟨h1, _, hs⟩ := w.sealActive ha rest hr
    simp only [hr] at hw
    cases ok with
    | true =>
      subst hw
      exact w.more (h1.congr rfl rfl rfl fun _ _ _ hq => .inl hq) rfl hs.queue (Subset.refl _)
        (by intro q hq; cases hq)
    | false =>
      subst hw
      exact w.done (h1.congr rfl rfl rfl fun _ _ _ hq => .inl hq) hs.todo hs.queue
  | createSealed =>
    rcases hr : { s with todo := rest }.createSegment cfg o with ⟨s₁, ok⟩
    obtain ⟨h1, _, hs⟩ := w.createSegment rfl hr
    simp only [Pipeline.ioStep, hr] at h
    cases ok with
    | true =>
      cases h
      exact w.done (h1.congr rfl rfl rfl fun _ _ _ hq => .inl hq) hs.todo hs.queue
    | false =>
      cases h
      refine Core.drainAndFailAll ?_
      exact h1.congr rfl rfl rfl fun _ _ _ hq => .inl hq
  | flush =>
    obtain ⟨a, ha, hw⟩ := map_eq_some_iff.mp h
    split at hw
    · subst hw
      exact w.done (w.core_sync ha rfl rfl rfl rfl) rfl rfl
    · subst hw
      exact w.done (w.inv.core.congr rfl rfl rfl fun _ _ _ hq => .inl hq) rfl rfl
  | closeSeal =>
    obtain ⟨a, ha, hw⟩ := map_eq_some_iff.mp h
    rcases hr : { s with todo := [.closeFlush] }.sealActive C cfg a o with ⟨s₁, ok⟩
    obtain ⟨h1, h2, hs⟩ := w.sealActive ha _ hr
    rw [hr] at hw
    subst hw
    have htodo : s₁.todo = [.closeFlush] := hs.todo
    refine w.inv.next h1 ?_ hs.queue ?_
    · intro t ht' q hq
      rw [htodo, mem_singleton] at ht'
      subst ht'
      cases hq
    · intro t ht' q hq
      rw [htodo, mem_singleton] at ht'
      subst ht'
      cases hq
  | closeFlush =>
    have hend : ∀ s' : Pipeline, Core C cfg s' → s'.todo = [] → s'.queue = s.queue → Inv C cfg s' :=
      fun s' hcore htodo hqueue => w.inv.next hcore (by simp [htodo]) hqueue (by simp [htodo])
    simp only [Pipeline.ioStep] at h
    split at h
    · cases h
      cases ha : s.active with
      | none =>
        exact hend _ (w.inv.core.congr rfl (by simp [ha]) rfl fun _ _ _ hq => .inl hq) rfl rfl
      | some => exact hend _ (w.core_sync ha rfl (by simp) rfl rfl) rfl rfl
    · cases h
      exact hend _ (w.inv.core.congr rfl rfl rfl fun _ _ _ hq => .inl hq) rfl rfl

end

/-! ## Runs -/

/-- No queued record reads as the footer mark, and no batch goes behind a footer. -/
def SealRespected (cfg : PipelineConfig) (s : Pipeline) : PipelineEvent → Prop
  | .sendWrite _ record => FooterFree cfg.recordFormat record
  | .io _ => ∀ task ∈ s.todo.head?, ∀ a ∈ s.active, task.writes → a.footerWritten = false
  | _ => True

theorem Inv.congr (h : Inv C cfg s) (h1 : s'.sealedFiles = s.sealedFiles)
    (h2 : s'.active = s.active) (h3 : s'.torn = s.torn)
    (hacks : ∀ q segmentId off, (q, AckResult.ok segmentId off) ∈ s'.acks →
      (q, AckResult.ok segmentId off) ∈ s.acks)
    (hun : ∀ q ∈ s'.unanswered, q ∈ s.unanswered ∨ WriteOk C cfg q)
    (hflushed : ∀ t ∈ s'.todo, t ∈ s.todo ∨ t.flushed = []) : Inv C cfg s' := by
  have hd : s'.durableRecords = s.durableRecords := by rw [durableRecords, h1, h2]; rfl
  refine ⟨h.core.congr h1 h2 h3 fun q segmentId off hq => .inl (hacks q segmentId off hq), ?_, ?_⟩
  · exact fun q hq => (hun q hq).elim (h.writes q) id
  · intro t ht q hq
    rw [hd]
    rcases hflushed t ht with ht | hnil
    · exact h.flushed t ht q hq
    · rw [hnil] at hq
      cases hq

/-- **Every step that respects the footer keeps the invariant.** -/
theorem Inv.step (hw : Work s) (h : Inv C cfg s) {e : PipelineEvent} (hok : SealRespected cfg s e)
    (hs : s.step C cfg e = some s') : Inv C cfg s' := by
  have hkeep : ∀ t ∈ s.todo, t ∈ s.todo ∨ t.flushed = [] := fun t ht => .inl ht
  cases e with
  | sendWrite =>
    simp only [Pipeline.step] at hs
    split at hs
    · cases hs
    · obtain ⟨req, hreq, rfl⟩ := map_eq_some_iff.mp hs
      refine h.congr rfl rfl rfl (fun _ _ _ hq => hq) (fun q hq => ?_) hkeep
      rcases mem_unanswered.mp hq with hq | hq
      · exact .inl (mem_unanswered.mpr (.inl hq))
      · rcases mem_append.mp hq with hq | hq
        · exact .inl (mem_unanswered.mpr (.inr hq))
        · cases mem_singleton.mp hq
          exact .inr ⟨hreq, hok⟩
  | sendSeal id | sendFlush id =>
    simp only [Pipeline.step] at hs
    split at hs
    · cases hs
    · cases hs
      refine h.congr rfl rfl rfl (fun _ _ _ hq => hq) (fun q hq => .inl ?_) hkeep
      rcases mem_unanswered.mp hq with hq | hq
      · exact mem_unanswered.mpr (.inl hq)
      · simp only [mem_append, mem_singleton, reduceCtorEq, or_false] at hq
        exact mem_unanswered.mpr (.inr hq)
  | close =>
    cases hs
    exact h.congr rfl rfl rfl (fun _ _ _ hq => hq) (fun q hq => .inl hq) hkeep
  | recv =>
    simp only [Pipeline.step] at hs
    split at hs
    · rename_i hp
      obtain ⟨h1, h2, -, h4⟩ := recvCommand_spec hs hp.2
      refine h.congr (by rw [h1]) (by rw [h1]) (by rw [h1]) (fun q i off hq => by rwa [h1] at hq)
        (fun q hq => .inl (h2 ▸ hq)) fun t ht => .inr (taken_flushed (h4 t ht))
    · cases hs
  | shutdown =>
    simp only [Pipeline.step] at hs
    split at hs
    · rename_i hp
      cases hs
      refine h.congr rfl rfl rfl (fun _ _ _ hq => hq) (fun q hq => .inl ?_)
        (by simp [WriterTask.flushed])
      rw [unanswered, hp.2.1]
      exact hq
    · cases hs
  | io =>
    simp only [Pipeline.step] at hs
    split at hs
    · cases hs
    · rename_i task rest htodo
      split at hs
      · rename_i hp
        refine AtWork.ioStep ⟨⟨hw, hp, htodo⟩, h⟩ ?_ hs
        intro batch a ht ha
        exact hok task (by rw [htodo]; rfl) a ha (by rw [ht]; rfl)
      · cases hs
  | exit =>
    simp only [Pipeline.step] at hs
    split at hs
    · cases hs
      refine h.congr rfl rfl rfl (fun q i off hq => ?_) (fun q hq => .inl ?_) hkeep
      · rcases mem_append.mp hq with hq | hq
        · exact hq
        · exact absurd (mem_map_const hq) (by simp)
      · rcases mem_unanswered.mp hq with hq | hq
        · exact mem_unanswered.mpr (.inl hq)
        · cases hq
    · cases hs

theorem initial_inv : Inv C cfg ({} : Pipeline) :=
  ⟨⟨by simp, by simp, by simp, by simp⟩, by simp [unanswered,
    WriterTask.batch], by simp [WriterTask.flushed]⟩

/-! ## Replay -/

theorem forall₂_append_left {R : α → β → Prop} {l₁ l₂ : List α} {image : List β}
    (h : Forall₂ R (l₁ ++ l₂) image) :
    ∃ i₁ i₂, image = i₁ ++ i₂ ∧ Forall₂ R l₁ i₁ ∧ Forall₂ R l₂ i₂ :=
  ⟨_, _, (take_append_drop l₁.length image).symm, (forall₂_take_append image l₁ l₂ h.flip).flip,
    (forall₂_drop_append image l₁ l₂ h.flip).flip⟩

theorem sealedFiles_readsToEnd {files : List SealedFile} (h : ∀ f ∈ files, SealedOk C cfg f)
    (hi : Forall₂ (fun f img => f.1.take f.2 <+: img)
      (files.map fun f => (f.bytes, f.synced)) image) :
    Forall₂ (ReadsToEnd C) image (files.map (·.records)) := by
  induction files generalizing image with
  | nil => cases hi; exact .nil
  | cons f _ ih =>
    cases hi with
    | cons hf hi =>
      refine .cons ?_ (ih (fun f hf => h f (by simp [hf])) hi)
      obtain ⟨hr, segmentId, w, hc⟩ := h f (by simp)
      exact readsToEnd_sealed C (fun r hr' => (hr r hr').1) (fun r hr' => (hr r hr').2)
        w (hc.trans hf)

/-- **The replay of the files a crash leaves** returns every durable record. -/
theorem Core.scan (h : Core C cfg s) (hi : s.Survives image) :
    ∃ rs, CrowDB.scan C image = some rs ∧ s.durableRecords ⊆ rs := by
  obtain ⟨i₁, i₂, rfl, h1, h2⟩ := forall₂_append_left hi
  have hsealed := sealedFiles_readsToEnd h.sealedOk h1
  -- the file behind them: the active one, the one of a failed creation, or none
  obtain ⟨last, hlast, hle, hl, hd⟩ : ∃ last : List (Bytes × List RawRecord),
      last.map Prod.fst = i₂ ∧ last.length ≤ 1 ∧ (∀ p ∈ last, ReadsAtLeast C p.1 p.2) ∧
        s.active.toList.flatMap (·.durable) = last.flatMap Prod.snd := by
    cases ha : s.active with
    | some a =>
      have ht : s.torn = none := by
        by_contra hne
        rw [h.torn hne] at ha
        cases ha
      rw [ha, ht] at h2
      cases h2 with
      | cons hf h2 =>
        cases h2
        exact ⟨[(_, a.durable)], rfl,
          le_rfl, by simpa using (h.activeOk a ha).readsAtLeast hf, by simp⟩
    | none =>
      rw [ha] at h2
      cases ht : s.torn with
      | none =>
        rw [ht] at h2
        cases h2
        exact ⟨[], rfl, by simp, by simp, rfl⟩
      | some =>
        rw [ht] at h2
        cases h2 with
        | cons _ h2 =>
          cases h2
          exact ⟨[(_, [])], rfl, le_rfl, by simp [ReadsAtLeast], rfl⟩
  obtain ⟨rs, hscan, hsub⟩ := scan_spec C hsealed hle hl
  refine ⟨rs, hlast ▸ hscan, ?_⟩
  rw [durableRecords, hd, flatMap_def]
  exact hsub

end Pipeline

end

/-! ## Witnesses -/

namespace Pipeline

instance (s : Pipeline) (e : PipelineEvent) : Decidable (SealRespected smallPipeline s e) := by
  cases e <;> unfold SealRespected <;> infer_instance

end Pipeline

end CrowDB
