/-
  Durability at seal (`chunk_writer.rs`: `push`, `finish_strip`, `seal`;
  `ec_strip_writer.rs`: `push`, `finish`; `parity_writer.rs`:
  `spawn_parity_writes`).

  Data blocks are written one after another.  A finished strip spawns one task for
  each parity write and one `fsync` task for each of its disks; `seal` joins all of
  them and sends the seal request.  An `fsync` makes durable what was written to
  its disk when it started.
-/
import CrowDB.Lib.Lists
import CrowDB.Lib.Runs
import Mathlib.Data.List.Dedup
import Mathlib.Order.Nat

namespace CrowDB

open Lib List

/-- A strip and the index of a block in it. -/
abbrev StripBlock := ℕ × ℕ

/-- The strips of a chunk, each with the disks of its segments, data segments first. -/
structure ChunkLayout where
  dataNum : ℕ
  codeNum : ℕ
  disks : ℕ → List ℕ

variable (L : ChunkLayout)

/-- The disk of a block. -/
def ChunkLayout.diskOf (b : StripBlock) : Option ℕ := (L.disks b.1)[b.2]?

/-- What a spawned task does. -/
inductive ParityJob where
  | write (b : StripBlock)
  | fsync (strip disk : ℕ)
deriving DecidableEq

/-- A spawned task; a running `fsync` has what was written to its disk when it started. -/
inductive TaskState where
  | spawned
  | running (seen : List StripBlock)
  | done
deriving DecidableEq

/-- A spawned task. -/
structure ParityTask where
  job : ParityJob
  state : TaskState
deriving DecidableEq

/-- How far `seal` is. -/
inductive SealPhase where
  | writing
  | joining
  | requested
deriving DecidableEq

/-- The writer of one chunk and its disks; `blocks` are the pushed data blocks and the parity blocks
    of finished strips. -/
structure ChunkSeal where
  writeCursor : ℕ := 0
  nextBlock : ℕ := 0
  inWrite : Bool := false
  parityHandles : List ParityTask := []
  blocks : List StripBlock := []
  written : List StripBlock := []
  durable : List StripBlock := []
  phase : SealPhase := .writing
deriving DecidableEq

/-- A step of the writer or of a task. -/
inductive SealEvent where
  | writeData
  | dataWritten
  | finishStrip
  | beginSeal
  | startTask (i : ℕ)
  | endTask (i : ℕ)
  | sealRequest
deriving DecidableEq

/-- The parity blocks of a strip. -/
def ChunkLayout.parityBlocks (strip : ℕ) : List StripBlock :=
  (List.range L.codeNum).map fun i => (strip, L.dataNum + i)

/-- The tasks of a finished strip: its parity writes and one `fsync` for each disk. -/
def ChunkLayout.spawnParityWrites (strip : ℕ) : List ParityTask :=
  (L.parityBlocks strip).map (fun b => ⟨.write b, .spawned⟩) ++
    (L.disks strip).dedup.map fun d => ⟨.fsync strip d, .spawned⟩

namespace ChunkSeal

variable (L : ChunkLayout) (s : ChunkSeal)

/-- Finish the current strip and go to the next one; an error if a segment is missing. -/
def finish : Option ChunkSeal :=
  if (L.disks s.writeCursor).length < L.dataNum + L.codeNum then none
  else some { s with
    parityHandles := s.parityHandles ++ L.spawnParityWrites s.writeCursor
    blocks := s.blocks ++ L.parityBlocks s.writeCursor
    writeCursor := s.writeCursor + 1
    nextBlock := 0 }

/-- What a task has in hand when it starts. -/
def atStart : ParityJob → List StripBlock
  | .write _ => []
  | .fsync _ disk => s.written.filter fun b => L.diskOf b = some disk

/-- The disks after a task that had this in hand. -/
def afterTask (seen : List StripBlock) : ParityJob → ChunkSeal
  | .write b => { s with written := b :: s.written }
  | .fsync _ _ => { s with durable := seen ++ s.durable }

/-- One step. -/
def step : SealEvent → Option ChunkSeal
  | .writeData =>
    if s.phase = .writing ∧ s.inWrite = false ∧ s.nextBlock < L.dataNum ∧
        s.nextBlock < (L.disks s.writeCursor).length then some { s with inWrite := true }
    else none
  | .dataWritten =>
    -- `push` waits for its write
    if s.inWrite then some { s with
      inWrite := false
      blocks := s.blocks ++ [(s.writeCursor, s.nextBlock)]
      written := (s.writeCursor, s.nextBlock) :: s.written
      nextBlock := s.nextBlock + 1 }
    else none
  | .finishStrip =>
    if s.phase = .writing ∧ s.inWrite = false ∧ s.nextBlock = L.dataNum then s.finish L else none
  | .beginSeal =>
    if s.phase = .writing ∧ s.inWrite = false then
      -- an empty strip spawns nothing
      (if 0 < s.nextBlock then s.finish L else some s).map fun s => { s with phase := .joining }
    else none
  | .startTask i =>
    match s.parityHandles[i]? with
    | some ⟨job, .spawned⟩ =>
      some { s with parityHandles := s.parityHandles.set i ⟨job, .running (s.atStart L job)⟩ }
    | _ => none
  | .endTask i =>
    match s.parityHandles[i]? with
    | some ⟨job, .running seen⟩ =>
      some ({ s with parityHandles := s.parityHandles.set i ⟨job, .done⟩ }.afterTask seen job)
    | _ => none
  | .sealRequest =>
    if s.phase = .joining ∧ s.blocks ≠ [] ∧ ∀ t ∈ s.parityHandles, t.state = .done then
      some { s with phase := .requested }
    else none

/-- The job is a parity write of this strip to this disk. -/
def writesTo (strip disk : ℕ) : ParityJob → Bool
  | .write b => decide (b.1 = strip ∧ L.diskOf b = some disk)
  | .fsync _ _ => false

/-- An `fsync` task of a strip starts only when the strip's parity writes to its disk
    are done. -/
def FsyncsLast : SealEvent → Prop
  | .startTask i =>
    match s.parityHandles[i]? with
    | some ⟨.fsync strip disk, _⟩ => ∀ t ∈ s.parityHandles, writesTo L strip disk t.job →
        t.state = .done
    | _ => True
  | _ => True

instance (s : ChunkSeal) (e : SealEvent) : Decidable (FsyncsLast L s e) :=
  match e with
  | .startTask i =>
    match h : s.parityHandles[i]? with
    | some ⟨.fsync strip disk, _⟩ => decidable_of_iff
        (∀ t ∈ s.parityHandles, writesTo L strip disk t.job → t.state = .done)
          (by simp [FsyncsLast, h])
    | some ⟨.write _, _⟩ | none => isTrue (by simp [FsyncsLast, h])
  | .writeData | .dataWritten | .finishStrip | .beginSeal | .endTask _ | .sealRequest =>
      isTrue trivial

/-! ## The invariant -/

/-- A block that is not written has its parity write to come, and a finished strip has an `fsync`
    task for the disk of each of its blocks: `seen` and `durable` say what that covers. -/
structure Inv (s : ChunkSeal) : Prop where
  place : ∀ b ∈ s.blocks, b.1 < s.writeCursor ∨ b.1 = s.writeCursor ∧ b.2 < s.nextBlock
  written : ∀ b ∈ s.blocks, b ∈ s.written ∨ ∃ t ∈ s.parityHandles, t.job = .write b ∧ t.state ≠ .done
  synced : ∀ b ∈ s.blocks, ∃ d, L.diskOf b = some d ∧
    (b.1 < s.writeCursor → .fsync b.1 d ∈ s.parityHandles.map ParityTask.job)
  strips : ∀ k d, .fsync k d ∈ s.parityHandles.map ParityTask.job → k < s.writeCursor
  seen : ∀ k d seen, ⟨.fsync k d, .running seen⟩ ∈ s.parityHandles →
    ∀ b ∈ s.blocks, b.1 = k → L.diskOf b = some d → b ∈ seen
  durable : ∀ k d, ⟨.fsync k d, .done⟩ ∈ s.parityHandles → ∀ b ∈ s.blocks, b.1 = k →
    L.diskOf b = some d → b ∈ s.durable
  inWrite : s.inWrite = true → s.nextBlock < (L.disks s.writeCursor).length
  joining : s.phase ≠ .writing → s.nextBlock = 0 ∧ s.inWrite = false
  requested : s.phase = .requested → ∀ t ∈ s.parityHandles, t.state = .done

variable {L} {s s' : ChunkSeal} {k d i : ℕ} {job : ParityJob}

theorem inv_init : Inv L {} := by
  constructor <;> simp

theorem Inv.strip_lt (h : Inv L s) {st : TaskState} (ht : ⟨.fsync k d, st⟩ ∈ s.parityHandles) :
    k < s.writeCursor :=
  h.strips k d (mem_map_of_mem (f := ParityTask.job) ht)

theorem Inv.dataWritten (h : Inv L s) (hw : s.inWrite = true) : Inv L { s with
      inWrite := false
      blocks := s.blocks ++ [(s.writeCursor, s.nextBlock)]
      written := (s.writeCursor, s.nextBlock) :: s.written
      nextBlock := s.nextBlock + 1 } := by
  have hwriting : s.phase = .writing := by
    by_contra hp
    rw [(h.joining hp).2] at hw
    cases hw
  have hold : ∀ b ∈ s.blocks ++ [(s.writeCursor, s.nextBlock)], b.1 < s.writeCursor → b ∈ s.blocks :=
    forall_mem_concat (fun b hb _ => hb) fun hlt => absurd hlt (lt_irrefl _)
  constructor
  · exact forall_mem_concat (fun b hb => (h.place b hb).imp_right fun ⟨h1, h2⟩ =>
      ⟨h1, Nat.lt_succ_of_lt h2⟩)
      (.inr ⟨rfl, Nat.lt_succ_self _⟩)
  · exact forall_mem_concat (fun b hb => (h.written b hb).imp_left (mem_cons_of_mem _))
      (.inl mem_cons_self)
  · exact forall_mem_concat h.synced ⟨_, getElem?_eq_getElem (h.inWrite hw), fun hlt =>
      absurd hlt (lt_irrefl _)⟩
  · exact h.strips
  · intro k d seen ht b hb hk
    exact h.seen k d seen ht b (hold b hb (hk ▸ h.strip_lt ht)) hk
  · intro k d ht b hb hk
    exact h.durable k d ht b (hold b hb (hk ▸ h.strip_lt ht)) hk
  · exact fun hf => absurd hf Bool.false_ne_true
  · exact fun hp => absurd hwriting hp
  · exact h.requested

theorem mem_spawn_fsync (hd : d ∈ L.disks k) :
    .fsync k d ∈ (L.spawnParityWrites k).map ParityTask.job := by
  rw [ChunkLayout.spawnParityWrites, map_append, map_map, map_map]
  exact mem_append_right _ (mem_map.mpr ⟨d, mem_dedup.mpr hd, rfl⟩)

theorem spawned_of_mem_spawn {t : ParityTask} (ht : t ∈ L.spawnParityWrites k) :
    t.state = .spawned ∧ ∀ k' d, t.job = .fsync k' d → k' = k := by
  rcases mem_append.mp ht with ht | ht
  · obtain ⟨b, -, rfl⟩ := mem_map.mp ht
    exact ⟨rfl, fun _ _ h => nomatch h⟩
  · obtain ⟨d, -, rfl⟩ := mem_map.mp ht
    exact ⟨rfl, fun _ _ h => by cases h; rfl⟩

theorem Inv.finish (h : Inv L s) (hw : s.inWrite = false) (hp : s.phase = .writing)
    (hs : s.finish L = some s') : Inv L s' ∧ s'.nextBlock = 0 ∧ s'.inWrite = false ∧
      s'.phase = .writing := by
  unfold ChunkSeal.finish at hs
  split at hs
  · cases hs
  cases hs
  refine ⟨?_, rfl, hw, hp⟩
  have hdisk : ∀ {b : StripBlock} {d}, b.1 = s.writeCursor → L.diskOf b = some d →
      .fsync b.1 d ∈ (L.spawnParityWrites s.writeCursor).map ParityTask.job := by
    intro b d heq hd
    rw [ChunkLayout.diskOf, heq] at hd
    rw [heq]
    exact mem_spawn_fsync (mem_of_getElem? hd)
  have hparity : ∀ {b}, b ∈ L.parityBlocks s.writeCursor → b.1 = s.writeCursor ∧
    ∃ d, L.diskOf b = some d := by
    intro b hb
    obtain ⟨i, hi, rfl⟩ := mem_map.mp hb
    rw [mem_range] at hi
    exact ⟨rfl, _, getElem?_eq_getElem (by dsimp only; omega)⟩
  have hle : ∀ {b}, b ∈ s.blocks ++ L.parityBlocks s.writeCursor → b.1 ≤ s.writeCursor := by
    intro b hb
    rcases mem_append.mp hb with hb | hb
    · rcases h.place b hb with hlt | ⟨heq, -⟩
      · exact hlt.le
      · exact heq.le
    · exact (hparity hb).1.le
  have hold : ∀ {b}, b ∈ s.blocks ++ L.parityBlocks s.writeCursor → b.1 < s.writeCursor →
    b ∈ s.blocks := by
    intro b hb hlt
    rcases mem_append.mp hb with hb | hb
    · exact hb
    · exact absurd (hparity hb).1 hlt.ne
  -- a task that is not new is one of a strip that was finished before
  have htask : ∀ {k d st}, ⟨.fsync k d, st⟩ ∈ s.parityHandles ++ L.spawnParityWrites s.writeCursor →
      st ≠ .spawned → ⟨.fsync k d, st⟩ ∈ s.parityHandles := by
    intro k d st ht hst
    rcases mem_append.mp ht with ht | ht
    · exact ht
    · exact absurd (spawned_of_mem_spawn ht).1 hst
  constructor
  · exact fun b hb => .inl (Nat.lt_succ_of_le (hle hb))
  · intro b hb
    rcases mem_append.mp hb with hb | hb
    · rcases h.written b hb with hin | ⟨t, ht, hjob, hst⟩
      · exact .inl hin
      · exact .inr ⟨t, mem_append_left _ ht, hjob, hst⟩
    · refine .inr ⟨⟨.write b, .spawned⟩, mem_append_right _ (mem_append_left _ ?_), rfl, nofun⟩
      exact mem_map_of_mem hb
  · intro b hb
    rw [map_append]
    rcases mem_append.mp hb with hb' | hb'
    · obtain ⟨d, hd, hsync⟩ := h.synced b hb'
      refine ⟨d, hd, fun _ => ?_⟩
      rcases h.place b hb' with hlt | ⟨heq, -⟩
      · exact mem_append_left _ (hsync hlt)
      · exact mem_append_right _ (hdisk heq hd)
    · obtain ⟨heq, d, hd⟩ := hparity hb'
      exact ⟨d, hd, fun _ => mem_append_right _ (hdisk heq hd)⟩
  · intro k d hk
    rw [map_append] at hk
    rcases mem_append.mp hk with hk | hk
    · exact Nat.lt_succ_of_lt (h.strips k d hk)
    · obtain ⟨t, ht, hjob⟩ := mem_map.mp hk
      rw [(spawned_of_mem_spawn ht).2 k d hjob]
      exact Nat.lt_succ_self _
  · intro k d seen ht b hb hk
    have ht' := htask ht (by simp)
    exact h.seen k d seen ht' b (hold hb (hk ▸ h.strip_lt ht')) hk
  · intro k d ht b hb hk
    have ht' := htask ht (by simp)
    exact h.durable k d ht' b (hold hb (hk ▸ h.strip_lt ht')) hk
  · intro hf
    exact absurd (hw.symm.trans hf) Bool.false_ne_true
  · exact fun hne => absurd hp hne
  · intro hreq
    rw [hp] at hreq
    cases hreq

theorem Inv.setTask (h : Inv L s) {st st' : TaskState} {written durable : List StripBlock}
    (hi : s.parityHandles[i]? = some ⟨job, st⟩) (hst : st ≠ .done) (hwritten : s.written ⊆ written)
    (hdurable : s.durable ⊆ durable) (hdone : ∀ b, job = .write b → st' = .done → b ∈ written)
    (hseen : ∀ k d seen, job = .fsync k d → st' = .running seen →
      ∀ b ∈ s.blocks, b.1 = k → L.diskOf b = some d → b ∈ seen)
    (hleft : ∀ k d, job = .fsync k d → st' = .done → ∀ b ∈ s.blocks, b.1 = k → L.diskOf b = some d →
      b ∈ durable) :
    Inv L { s with parityHandles := s.parityHandles.set i ⟨job, st'⟩, written, durable } := by
  have hjobs : (s.parityHandles.set i ⟨job, st'⟩).map ParityTask.job =
    s.parityHandles.map ParityTask.job :=
    map_set_of_eq hi rfl
  constructor
  · exact h.place
  · intro b hb
    rcases h.written b hb with hin | ⟨t, ht, hjob, hne⟩
    · exact .inl (hwritten hin)
    rcases mem_set_or_eq hi ht with rfl | ht
    · by_cases hd : st' = .done
      · exact .inl (hdone b hjob hd)
      · exact .inr ⟨_, mem_set (List.getElem?_eq_some_iff.mp hi).1 _, hjob, hd⟩
    · exact .inr ⟨t, ht, hjob, hne⟩
  · simpa only [hjobs] using h.synced
  · exact fun k d hk => h.strips k d (hjobs ▸ hk)
  · intro k d seen ht
    rcases mem_or_eq_of_mem_set ht with ht | heq
    · exact h.seen k d seen ht
    · cases heq
      exact hseen k d seen rfl rfl
  · intro k d ht b hb hk hd
    rcases mem_or_eq_of_mem_set ht with ht | heq
    · exact hdurable (h.durable k d ht b hb hk hd)
    · cases heq
      exact hleft k d rfl rfl b hb hk hd
  · exact h.inWrite
  · exact h.joining
  · exact fun hreq => absurd (h.requested hreq _ (mem_of_getElem? hi)) hst

theorem Inv.startTask (h : Inv L s)
    (hi : s.parityHandles[i]? = some ⟨job, .spawned⟩) (hok : FsyncsLast L s (.startTask i)) :
    Inv L { s with parityHandles := s.parityHandles.set i ⟨job, .running (s.atStart L job)⟩ } := by
  refine h.setTask hi (by simp) (Subset.refl _) (Subset.refl _) (by simp) ?_ (by simp)
  rintro k d _ rfl ⟨⟩ b hb hk hd
  refine mem_filter.mpr ⟨?_, decide_eq_true hd⟩
  rcases h.written b hb with hin | ⟨t, ht, hjob, hst⟩
  · exact hin
  · simp only [FsyncsLast, hi] at hok
    refine absurd (hok t ht ?_) hst
    rw [hjob]
    exact decide_eq_true ⟨hk, hd⟩

theorem Inv.endTask (h : Inv L s) {seen : List StripBlock}
    (hi : s.parityHandles[i]? = some ⟨job, .running seen⟩) :
    Inv L ({ s with parityHandles := s.parityHandles.set i ⟨job, .done⟩ }.afterTask seen job) := by
  cases job with
  | write =>
    refine h.setTask hi (by simp) (subset_cons_self ..) (Subset.refl _) ?_ (by simp) (by simp)
    rintro b ⟨⟩ -
    exact mem_cons_self
  | fsync =>
    refine h.setTask hi (by simp) (Subset.refl _) (subset_append_right ..) (by simp) (by simp) ?_
    rintro k d ⟨⟩ - b hb hk hd
    exact mem_append_left _ (h.seen _ _ seen (mem_of_getElem? hi) b hb hk hd)

theorem Inv.setPhase (h : Inv L s) (phase : SealPhase) (hw : s.nextBlock = 0 ∧ s.inWrite = false)
    (hreq : phase = .requested → ∀ t ∈ s.parityHandles, t.state = .done) :
    Inv L { s with phase := phase } :=
  { h with joining := fun _ => hw, requested := hreq }

theorem inv_step {e : SealEvent} (h : Inv L s) (hok : FsyncsLast L s e)
    (hs : s.step L e = some s') : Inv L s' := by
  cases e with
  | writeData =>
    simp only [step, Option.ite_none_right_eq_some] at hs
    obtain ⟨⟨hp, -, -, hlen⟩, hs⟩ := hs
    cases hs
    exact { h with inWrite := fun _ => hlen, joining := fun hne => absurd hp hne }
  | dataWritten =>
    simp only [step, Option.ite_none_right_eq_some] at hs
    obtain ⟨hw, hs⟩ := hs
    cases hs
    exact h.dataWritten hw
  | finishStrip =>
    simp only [step, Option.ite_none_right_eq_some] at hs
    obtain ⟨⟨hp, hw, -⟩, hs⟩ := hs
    exact (h.finish hw hp hs).1
  | beginSeal =>
    simp only [step, Option.ite_none_right_eq_some] at hs
    obtain ⟨⟨hp, hw⟩, hs⟩ := hs
    obtain ⟨s₁, hs₁, rfl⟩ := Option.map_eq_some_iff.mp hs
    split at hs₁
    · obtain ⟨hinv, hzero, hw₁, -⟩ := h.finish hw hp hs₁
      exact hinv.setPhase .joining ⟨hzero, hw₁⟩ nofun
    · cases hs₁
      exact h.setPhase .joining ⟨by omega, hw⟩ nofun
  | startTask =>
    simp only [step] at hs
    split at hs
    · rename_i job hi
      cases hs
      exact h.startTask hi hok
    · cases hs
  | endTask =>
    simp only [step] at hs
    split at hs
    · rename_i job seen hi
      cases hs
      exact h.endTask hi
    · cases hs
  | sealRequest =>
    simp only [step, Option.ite_none_right_eq_some] at hs
    obtain ⟨⟨hp, -, hdone⟩, hs⟩ := hs
    cases hs
    refine h.setPhase .requested (h.joining ?_) fun _ => hdone
    rw [hp]
    nofun

/-- **Sealed means durable**, if a strip's `fsync` of a disk starts after the strip's parity writes
    to it. -/
theorem durable_of_reach (h : Reach (step L) (FsyncsLast L) {} s) (hreq : s.phase = .requested) :
    ∀ b ∈ s.blocks, b ∈ s.durable := by
  have hinv : Inv L s := h.invariant inv_init inv_step
  intro b hb
  have hzero : s.nextBlock = 0 := (hinv.joining (by rw [hreq]; nofun)).1
  have hlt : b.1 < s.writeCursor := by
    rcases hinv.place b hb with hlt | ⟨-, hnext⟩
    · exact hlt
    · omega
  obtain ⟨d, hd, hsync⟩ := hinv.synced b hb
  obtain ⟨t, ht, hjob⟩ := mem_map.mp (hsync hlt)
  have hdone := hinv.requested hreq t ht
  refine hinv.durable b.1 d ?_ b hb rfl hd
  rw [← hjob, ← hdone]
  exact ht

/-- One data and one parity block. -/
def onePlusOne : ChunkLayout := ⟨1, 1, fun _ => [0, 1]⟩

/-- One strip: the parity write ends before the `fsync` tasks start. -/
theorem durable_onePlusOne : ∃ s, Reach (step onePlusOne) (FsyncsLast onePlusOne) {} s ∧
    s.phase = .requested ∧ s.blocks = [(0, 0), (0, 1)] ∧ ∀ b ∈ s.blocks, b ∈ s.durable := by
  exact Reach.exists_imp_of_run (fun s => s.phase = .requested ∧ s.blocks = [(0, 0), (0, 1)])
    [.writeData, .dataWritten, .beginSeal, .startTask 0, .startTask 1, .endTask 0, .startTask 2,
      .endTask 2, .endTask 1, .sealRequest] (by decide +kernel) fun s hr ⟨hreq, hblocks⟩ => ⟨hreq,
        hblocks, durable_of_reach hr hreq⟩

/-- **The parity block is not durable**: the `fsync` of its disk runs before its write. -/
theorem parity_lost : ∃ s, Reach (step onePlusOne) anyStep {} s ∧ s.phase = .requested ∧
    (0, 1) ∈ s.blocks ∧ (0, 1) ∉ s.durable := by
  exact Reach.exists_of_run [.writeData, .dataWritten, .beginSeal, .startTask 1, .endTask 1,
    .startTask 2, .endTask 2,
      .startTask 0, .endTask 0, .sealRequest] (by decide +kernel)

end ChunkSeal

end CrowDB
