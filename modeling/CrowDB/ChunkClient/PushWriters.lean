/-
  Push-mode writes (`writer/large_object.rs`, `writer/large_async_object.rs`).

  A caller feeds blocks through `on_data` and ends with `on_finish`.  Both writers push the block
  into the open chunk; `ChunkWriter::push` refuses it with `Pause` when the chunk turns out to be
  full.  `LargeObjectWriter` then opens the next chunk and pushes the block again,
  `LargeAsyncObjectWriter` opens the next chunk and returns, so that the refused block is lost. With
  a limit of zero it gives every block a chunk of its own.
-/
import CrowDB.ChunkClient.WriteStreamSafety

namespace CrowDB

open Lib List

variable {α : Type*}

/-! ## The writers -/

/-- The two writers for large objects. -/
inductive PushWriter where
  | largeObject
  | largeAsyncObject
deriving DecidableEq

namespace StreamWriter

variable (config : ChunkClientConfig) (scheme : EcScheme)

/-- The finished strips of the open chunk reach the limit. -/
def isFull (w : StreamWriter α) : Bool :=
  match w.chunkWriter with
  | some cw => decide (config.maxChunkSize ≤ cw.bytesInChunk)
  | none => false

/-- Seal a full chunk and open the next one. -/
def rotateIfFull (w : StreamWriter α) : Except WriteError (StreamWriter α) :=
  if w.isFull config then w.rotateChunk config scheme none else .ok w

/-- `on_data` of the asynchronous writer: one push, with whatever status. -/
def pushOnce (ahead : ℕ → ℕ) (w : StreamWriter α) (buffer : List α) :
    Except WriteError (FeedStatus × StreamWriter α) := do
  let w ← w.ensureOpen config scheme none
  let (status, w) ← w.tryPush config scheme ahead buffer
  let w ← w.rotateIfFull config scheme
  .ok (status, w)

end StreamWriter

namespace PushWriter

variable (config : ChunkClientConfig) (scheme : EcScheme) (ahead : ℕ → ℕ)

/-- `on_data`: take one block. -/
def onData (w : StreamWriter α) (buffer : List α) :
    PushWriter → Except WriteError (FeedStatus × StreamWriter α)
  | largeObject => do
    let w ← w.pushBlock config scheme none ahead buffer
    .ok (.continue_, w)
  | largeAsyncObject => w.pushOnce config scheme ahead buffer

/-- The open chunk is sealed; the locations of the result are what it returns. -/
def onFinish (w : StreamWriter α) : Except WriteError (StreamWriter α) := w.sealCurrent config scheme

/-- Blocks through `on_data`, and `on_finish`. -/
def write (writer : PushWriter) (blocks : List (List α)) : Except WriteError (StreamWriter α) := do
  let w ← blocks.foldlM (fun w buffer => do
    let r ← writer.onData config scheme ahead w buffer
    .ok r.2) {}
  onFinish config scheme w

end PushWriter

/-! ## What is stored -/

section Stores

variable (config : ChunkClientConfig) (scheme : EcScheme) (unitSizeKb : ℕ)

/-- Every block is written once, in order, inside its segment, and covered by what is sealed. -/
structure StoresBlocks (w : StreamWriter α) (blocks : List (List α)) : Prop where
  written : w.disk = blocks.mapIdx (place config scheme)
  apart : (w.disk.map fun d => (d.chunkId, d.strip, d.segment)).Nodup
  inside : ∀ d ∈ w.disk, d.data.length ≤ config.segmentBytes scheme unitSizeKb d.strip
  lengths : (w.locations.map Location.length).sum = blocks.flatten.length
  covered : ∀ d ∈ w.disk, ∃ units, (d.chunkId, units) ∈ w.sealed ∧ d.strip * scheme.dataNum +
    d.segment < units

/-- `n` blocks suit the configuration: the length of a full chunk and that of the last one can be
    sealed, and blocks are not longer than their segments. -/
structure Fits (n : ℕ) : Prop where
  chunk : chunkBlocks config scheme ≤ n →
    chunkBlocks config scheme ≤ sealUnits config (chunkBlocks config scheme * config.readBufferSize)
  rest : n % chunkBlocks config scheme ≤
    sealUnits config (n % chunkBlocks config scheme * config.readBufferSize)
  segments : ∀ i < n, config.readBufferSize ≤
    config.segmentBytes scheme unitSizeKb (i % chunkBlocks config scheme / scheme.dataNum)

/-- The asynchronous writer does not come to a full chunk. -/
def PushWriter.NeverPauses (n : ℕ) : PushWriter → Prop
  | largeObject => True
  | largeAsyncObject =>
    if config.maxChunkSize = 0 then scheme.dataNum = 1 ∨ n ≤ 1 else n ≤ chunkBlocks config scheme

end Stores

variable {config : ChunkClientConfig} {scheme : EcScheme} {ahead : ℕ → ℕ} {w : StreamWriter α}
  {cw : ChunkWriter α} {done shards blocks : List (List α)} {block : List α} {c : ℕ}

theorem place_injective (config : ChunkClientConfig) (scheme : EcScheme) {i j : ℕ} {b b' : List α}
    (hchunk : (place config scheme i b).chunkId = (place config scheme j b').chunkId)
    (hstrip : (place config scheme i b).strip = (place config scheme j b').strip)
    (hsegment : (place config scheme i b).segment = (place config scheme j b').segment) : i = j := by
  have hmod := place_strip_segment config scheme i b
  rw [hstrip, hsegment, place_strip_segment] at hmod
  rw [← Nat.div_add_mod i (chunkBlocks config scheme), ← hmod]
  exact (congrArg (fun k =>
    chunkBlocks config scheme * k + j % chunkBlocks config scheme) hchunk).trans
    (Nat.div_add_mod j _)

theorem nodup_places (config : ChunkClientConfig) (scheme : EcScheme) (blocks : List (List α)) :
    ((blocks.mapIdx (place config scheme)).map fun d => (d.chunkId, d.strip, d.segment)).Nodup := by
  rw [nodup_iff_injective_getElem]
  rintro ⟨i, hi⟩ ⟨j, hj⟩ heq
  simp only [getElem_map, getElem_mapIdx, Prod.mk.injEq] at heq
  exact Fin.ext (place_injective config scheme heq.1 heq.2.1 heq.2.2)

namespace StreamWriter

theorem restBytes_eq (hblocks : ∀ b ∈ blocks, b.length = config.readBufferSize) (c : ℕ) :
    (blocks.drop (c * chunkBlocks config scheme)).flatten.length =
      (blocks.length - c * chunkBlocks config scheme) * config.readBufferSize := by
  rw [flatten_length_of_full fun b hb => hblocks b (mem_of_mem_drop hb), length_drop]

/-- Positions below `n` in rows of `k`: the last one of a row bounds the others. -/
theorem forall_mod_lt_iff {k n : ℕ} (hk : 0 < k) (u : ℕ → ℕ) :
    (∀ i < n, i % k < u (min k (n - i / k * k))) ↔ (k ≤ n → k ≤ u k) ∧ n % k ≤ u (n % k) := by
  have hmod : n - n / k * k = n % k := by
    rw [Nat.mod_eq_sub_div_mul]
  constructor
  · intro h
    refine ⟨fun hle => ?_, ?_⟩
    · have := h (k - 1) (by omega)
      rw [Nat.mod_eq_of_lt (by omega), Nat.div_eq_of_lt (by omega), Nat.zero_mul, Nat.sub_zero,
        Nat.min_eq_left hle] at this
      omega
    · rcases Nat.eq_zero_or_pos (n % k) with hzero | hpos
      · rw [hzero]
        exact Nat.zero_le _
      · have hlt := Nat.mod_lt n hk
        have hsplit := Nat.div_add_mod' n k
        have heq : n - 1 = n / k * k + (n % k - 1) := by omega
        have := h (n - 1) (by omega)
        rw [heq, Nat.mul_add_mod_of_lt (by omega), mul_add_div_of_lt (by omega), hmod,
          Nat.min_eq_right hlt.le] at this
        omega
  · rintro ⟨hfull, hrest⟩ i hi
    have hlt := Nat.mod_lt i hk
    have hsplit := Nat.div_add_mod' i k
    rcases Nat.lt_or_ge (n - i / k * k) k with hlast | hrow
    · have hdiv : n / k = i / k := Nat.div_eq_of_lt_le (by omega) (by rw [Nat.succ_mul]; omega)
      rw [Nat.min_eq_right hlast.le, ← hdiv, hmod]
      rw [← hdiv] at hsplit
      omega
    · rw [Nat.min_eq_left hrow]
      exact hlt.trans_le (hfull (by omega))

section Finished

variable (h : w.Finished config scheme blocks c)
  (hblocks : ∀ b ∈ blocks, b.length = config.readBufferSize)

include h hblocks

theorem Finished.sum_length : (w.locations.map Location.length).sum = blocks.flatten.length := by
  have hsplit : blocks.length * config.readBufferSize =
      c * (chunkBlocks config scheme * config.readBufferSize) +
        (blocks.length - c * chunkBlocks config scheme) * config.readBufferSize := by
    rw [← Nat.mul_assoc, ← Nat.add_mul, Nat.add_sub_cancel' h.few]
  rw [h.locations, map_append, sum_append, sum_length_fullLocation,
    flatten_length_of_full hblocks, hsplit,
    restBytes_eq hblocks]
  dsimp only
  split_ifs with hzero
  · rw [hzero]
    rfl
  · simp

/-- The sealed chunks, and their lengths. -/
theorem Finished.mem_sealed (hsize : 0 < config.readBufferSize) (hpos : 0 < chunkBlocks config scheme)
    {i units : ℕ} :
    (i, units) ∈ w.sealed ↔ i * chunkBlocks config scheme < blocks.length ∧ units = sealUnits config
      (min (chunkBlocks config scheme) (blocks.length - i * chunkBlocks config scheme) *
        config.readBufferSize) := by
  have hlast := h.last
  have hbefore : ∀ j < c, j * chunkBlocks config scheme + chunkBlocks config scheme ≤
    blocks.length := by
    intro j hj
    rw [← Nat.succ_mul]
    exact (Nat.mul_le_mul_right _ (Nat.succ_le_of_lt hj)).trans h.few
  rw [Nat.succ_mul] at hlast
  rw [h.sealed, restBytes_eq hblocks, mem_append, List.mem_map]
  simp only [List.mem_range, Prod.mk.injEq]
  constructor
  · rintro (⟨j, hj, rfl, rfl⟩ | hrest)
    · have := hbefore j hj
      rw [Nat.min_eq_left (by omega)]
      exact ⟨by omega, rfl⟩
    · split_ifs at hrest with hzero
      · cases hrest
      · obtain ⟨rfl, rfl⟩ := Prod.mk.inj (mem_singleton.1 hrest)
        have hne : blocks.length - i * chunkBlocks config scheme ≠ 0 :=
          fun h0 => hzero (by rw [h0, Nat.zero_mul])
        rw [Nat.min_eq_right (by omega)]
        exact ⟨by omega, rfl⟩
  · rintro ⟨hlt, rfl⟩
    rcases Nat.lt_or_ge i c with hic | hic
    · have := hbefore i hic
      rw [Nat.min_eq_left (by omega)]
      exact .inl ⟨i, hic, rfl, rfl⟩
    · obtain rfl : i = c := by
        refine Nat.le_antisymm (Nat.le_of_lt_succ
          (Nat.lt_of_mul_lt_mul_right (a := chunkBlocks config scheme) ?_)) hic
        rw [Nat.succ_mul]
        omega
      rw [Nat.min_eq_right (by omega), if_neg (Nat.mul_pos (by omega) hsize).ne']
      exact .inr (mem_singleton_self _)

theorem Finished.covered_iff (hsize : 0 < config.readBufferSize)
    (hpos : 0 < chunkBlocks config scheme) :
    (∀ d ∈ w.disk, ∃ units, (d.chunkId, units) ∈ w.sealed ∧
      d.strip * scheme.dataNum + d.segment < units) ↔
      ∀ i < blocks.length, i % chunkBlocks config scheme <
        sealUnits config (min (chunkBlocks config scheme)
        (blocks.length - i / chunkBlocks config scheme * chunkBlocks config scheme) *
          config.readBufferSize) := by
  simp only [h.disk, mem_mapIdx, h.mem_sealed hblocks hsize hpos]
  constructor
  · intro hall i hi
    obtain ⟨_, ⟨-, rfl⟩, hlt⟩ := hall _ ⟨i, hi, rfl⟩
    rwa [place_strip_segment] at hlt
  · rintro hall _ ⟨i, hi, rfl⟩
    refine ⟨_, ⟨(Nat.div_mul_le_self _ _).trans_lt hi, rfl⟩, ?_⟩
    rw [place_strip_segment]
    exact hall i hi

theorem Finished.stores_iff (hsize : 0 < config.readBufferSize)
    (hpos : 0 < chunkBlocks config scheme)
    (unitSizeKb : ℕ) :
    StoresBlocks config scheme unitSizeKb w blocks ↔ Fits config scheme unitSizeKb blocks.length := by
  have hinside : (∀ d ∈ w.disk, d.data.length ≤ config.segmentBytes scheme unitSizeKb d.strip) ↔
      ∀ i < blocks.length, config.readBufferSize ≤
        config.segmentBytes scheme unitSizeKb (i % chunkBlocks config scheme / scheme.dataNum) := by
    simp only [h.disk, mem_mapIdx]
    constructor
    · intro hall i hi
      have := hall _ ⟨i, hi, rfl⟩
      rwa [place, hblocks _ (getElem_mem hi)] at this
    · rintro hall _ ⟨i, hi, rfl⟩
      rw [place, hblocks _ (getElem_mem hi)]
      exact hall i hi
  have hcovered := (h.covered_iff hblocks hsize hpos).trans
    (forall_mod_lt_iff hpos fun k => sealUnits config (k * config.readBufferSize))
  constructor
  · intro hstores
    obtain ⟨hchunk, hrest⟩ := hcovered.1 hstores.covered
    exact ⟨hchunk, hrest, hinside.1 hstores.inside⟩
  · intro hfits
    exact ⟨h.disk, h.disk ▸ nodup_places config scheme blocks, hinside.2 hfits.segments,
      h.sum_length hblocks,
      hcovered.2 ⟨hfits.chunk, hfits.rest⟩⟩

end Finished

/-! ## What a push adds -/

/-- At most one write is added to the disk. -/
def AddsOne (disk disk' : List (DataWrite α)) : Prop := ∃ ds, disk' = disk ++ ds ∧ ds.length ≤ 1

theorem AddsOne.refl (disk : List (DataWrite α)) : AddsOne disk disk :=
  ⟨[], (append_nil _).symm, Nat.zero_le _⟩

theorem pushStrip_addsOne (disk : List (DataWrite α)) (cw : ChunkWriter α) :
    Yields False (fun r => AddsOne disk r.2) (cw.pushStrip scheme disk block) := by
  rw [ChunkWriter.pushStrip]
  split
  · exact id
  · split_ifs
    · exact id
    · exact ⟨_, rfl, le_rfl⟩

theorem push_addsOne (k : ℕ) (disk : List (DataWrite α)) (cw : ChunkWriter α) :
    Yields False (fun r => AddsOne disk r.2.2) (cw.push config scheme k disk block) := by
  rw [ChunkWriter.push]
  split
  · exact id
  · split_ifs
    · refine (Yields.trivial (cw.finishStrip scheme)).bind fun finished _ => ?_
      split_ifs
      · exact .refl disk
      · refine (Yields.trivial (finished.openNextStrip config scheme k)).bind fun opened _ => ?_
        exact (pushStrip_addsOne disk opened).bind fun _ hadds => hadds
    · exact (pushStrip_addsOne disk cw).bind fun _ hadds => hadds

theorem ensureOpen_disk (w : StreamWriter α) :
    Yields False (fun w' => w'.disk = w.disk) (w.ensureOpen config scheme none) := by
  rw [ensureOpen]
  split
  · rfl
  · exact (Yields.trivial _).bind fun _ _ => rfl

theorem sealCurrent_disk (w : StreamWriter α) :
    Yields False (fun w' => w'.disk = w.disk) (w.sealCurrent config scheme) := by
  rw [sealCurrent]
  split
  · rfl
  · refine (Yields.trivial _).bind fun cw _ => ?_
    split_ifs
    · rfl
    · rfl

theorem rotateIfFull_disk (w : StreamWriter α) :
    Yields False (fun w' => w'.disk = w.disk) (w.rotateIfFull config scheme) := by
  rw [rotateIfFull]
  split_ifs
  · exact (sealCurrent_disk w).bind fun sealed hsealed =>
      (ensureOpen_disk sealed).mono fun _ hopened => hopened.trans hsealed
  · rfl

theorem pushOnce_addsOne (w : StreamWriter α) :
    Yields False (fun r => AddsOne w.disk r.2.disk) (w.pushOnce config scheme ahead block) := by
  refine (ensureOpen_disk w).bind fun opened hopened => ?_
  rw [← hopened]
  have htry : Yields False (fun r => AddsOne opened.disk r.2.disk)
    (opened.tryPush config scheme ahead block) := by
    rw [tryPush]
    split
    · exact id
    · exact (push_addsOne _ _ _).bind fun _ hadds => hadds
  refine htry.bind fun r hadds => (rotateIfFull_disk r.2).bind fun rotated hrotated => ?_
  change AddsOne opened.disk rotated.disk
  rwa [hrotated]

/-! ## The first chunk of the asynchronous writer -/

/-- The first chunk is filled.  Its last strip is finished with the next block only. -/
def FirstChunk (config : ChunkClientConfig) (scheme : EcScheme) (blocks : List (List α))
    (w : StreamWriter α) : Prop :=
  blocks = [] ∧ w = {} ∨ ∃ cw done shards, w.Filling config scheme none cw done shards ∧ shards ≠ [] ∧
    blocks = done ++ shards ∧ ∀ s ∈ shards, s.length = config.readBufferSize

theorem Filling.isFull_eq_false (h : w.Filling config scheme none cw done shards)
    (hsize : 0 < config.readBufferSize) (hmax : 0 < config.maxChunkSize) :
    w.isFull config = false := by
  simp only [isFull, h.current, h.bytes, decide_eq_false_iff_not, Nat.not_le]
  rcases Nat.eq_zero_or_pos cw.writeCursor with hzero | hpos
  · simpa [hzero] using hmax
  · refine Nat.not_le.1 fun hle => Nat.not_le.2 h.room ?_
    exact (le_mul_iff_chunkStrips_le (dataNum_pos h.data) hsize hpos).1 hle

theorem Filling.rotateIfFull_yields (h : w.Filling config scheme none cw done (shards ++ [block]))
    (hsize : 0 < config.readBufferSize) (hmax : 0 < config.maxChunkSize)
    (hsizes : ∀ s ∈ shards, s.length = config.readBufferSize)
    (hblock : block.length = config.readBufferSize)
    (status : FeedStatus) :
    Yields False (fun r => FirstChunk config scheme (done ++ shards ++ [block]) r.2)
      (w.rotateIfFull config scheme >>= fun w => Except.ok (status, w)) := by
  rw [rotateIfFull, h.isFull_eq_false hsize hmax, append_assoc]
  refine .inr ⟨cw, done, shards ++ [block], h, by simp, rfl, ?_⟩
  simpa [or_imp, forall_and] using ⟨hsizes, hblock⟩

/-- A block that has room in the first chunk. -/
theorem FirstChunk.pushOnce_yields (h : FirstChunk config scheme blocks w)
    (hsize : 0 < config.readBufferSize)
    (hmax : 0 < config.maxChunkSize) (hroom : blocks.length < chunkBlocks config scheme)
    (hblock : block.length = config.readBufferSize) :
    Yields False (fun r => FirstChunk config scheme (blocks ++ [block]) r.2)
      (w.pushOnce config scheme ahead block) := by
  have hopen : Yields False (fun w' => ∃ cw done shards,
    w'.Filling config scheme none cw done shards ∧
      blocks = done ++ shards ∧ ∀ s ∈ shards, s.length = config.readBufferSize)
      (w.ensureOpen config scheme none) := by
    rcases h with ⟨rfl, rfl⟩ | ⟨cw, done, shards, hw, -, h⟩
    · exact awaits_nil.ensureOpen_yields.weaken False.elim
    · exact .of_eq (ensureOpen_of_some hw.current) ⟨cw, done, shards, hw, h⟩
  refine hopen.bind ?_
  rintro w ⟨cw, done, shards, hw, rfl, hsizes⟩
  rcases Nat.lt_or_eq_of_le hw.few with hlt | hfull
  · refine (hw.tryPush_room hlt).bind ?_
    rintro r ⟨-, cw, hr⟩
    exact hr.rotateIfFull_yields hsize hmax hsizes hblock r.1
  · refine ((hw.tryPush_full hfull hsizes hsize (Nat.lt_succ_self _)).weaken False.elim).bind ?_
    rintro r (⟨-, -, cw, hr⟩ | ⟨-, cw, hr⟩)
    · have hempty : ∀ s ∈ ([] : List (List α)), s.length = config.readBufferSize := nofun
      have hrotated := hr.rotateIfFull_yields hsize hmax hempty hblock r.1
      rwa [append_nil] at hrotated
    · -- the chunk is not full yet
      rw [hr.count, Nat.succ_mul] at hroom
      omega

/-- **The block that comes to the full chunk** is not written. -/
theorem FirstChunk.pushOnce_lost (h : FirstChunk config scheme blocks w)
    (hsize : 0 < config.readBufferSize)
    (hne : blocks ≠ []) (hfull : blocks.length = chunkBlocks config scheme) :
    Yields False (fun r => r.2.disk.length = blocks.length)
      (w.pushOnce config scheme ahead block) := by
  obtain ⟨rfl, -⟩ | ⟨cw, done, shards, hw, hsome, rfl, hsizes⟩ := h
  · exact absurd rfl hne
  have hdata := dataNum_pos hw.data
  have hlen := length_pos_of_ne_nil hsome
  have hfew := hw.few
  have hcount := hfull
  rw [length_append, hw.count] at hcount
  have hfirst : cw.chunkId = 0 := by
    by_contra hpos
    have := Nat.le_mul_of_pos_left (chunkBlocks config scheme) (Nat.pos_of_ne_zero hpos)
    omega
  rw [hfirst, Nat.zero_mul, Nat.zero_add, chunkBlocks] at hcount
  have hstrip : shards.length = scheme.dataNum := by
    have := Nat.mul_le_mul_right scheme.dataNum (Nat.succ_le_of_lt hw.room)
    rw [Nat.succ_mul] at this
    omega
  refine Yields.bind (.of_eq (ensureOpen_of_some hw.current) rfl) ?_
  rintro _ rfl
  refine ((hw.tryPush_full hstrip hsizes hsize (Nat.lt_succ_self _)).weaken False.elim).bind ?_
  rintro r (⟨-, hnext, -⟩ | ⟨-, cw, hr⟩)
  · have := Nat.mul_le_mul_right scheme.dataNum (Nat.succ_le_of_lt hnext)
    rw [Nat.succ_mul, Nat.succ_mul] at this
    omega
  · have hdisk : r.2.disk.length = (done ++ shards).length := by rw [hr.disk, length_mapIdx]
    refine (rotateIfFull_disk r.2).bind fun rotated hrotated => ?_
    change rotated.disk.length = _
    rw [hrotated, hdisk]

/-! ## The asynchronous writer without a limit -/

/-- Each block has a chunk of its own, and the next chunk may be open. -/
structure Alone (config : ChunkClientConfig) (scheme : EcScheme) (blocks : List (List α))
    (w : StreamWriter α) : Prop where
  current : w.chunkWriter = none ∧ w.nextId = blocks.length ∨ ∃ cw, w.chunkWriter = some cw ∧
    w.nextId = blocks.length + 1 ∧ cw.chunkId = blocks.length ∧ cw.writeCursor = 0 ∧
      cw.bytesInChunk = 0 ∧ cw.currentStrip = some []
  data : blocks ≠ [] ∨ w.chunkWriter ≠ none → 0 < scheme.dataNum
  disk : w.disk = blocks.mapIdx fun i block => ⟨i, 0, 0, block⟩
  locations : w.locations = (List.range blocks.length).map fun i =>
    ⟨i, 0, config.readBufferSize, i * config.readBufferSize, config.readBufferSize⟩
  offset : w.logicalOffset = blocks.length * config.readBufferSize
  sealed : w.sealed = (List.range blocks.length).map fun i =>
    (i, sealUnits config config.readBufferSize)

theorem Alone.ensureOpen_yields (h : Alone config scheme blocks w) :
    Yields False (fun w' => Alone config scheme blocks w' ∧ w'.chunkWriter ≠ none)
      (w.ensureOpen config scheme none) := by
  rcases h.current with ⟨hnone, hnext⟩ | ⟨cw, hcw, -⟩
  · simp only [ensureOpen, hnone, ChunkWriter.open_]
    split_ifs with hbytes
    · exact id
    · refine ⟨⟨.inr ⟨_, rfl, ?_, hnext, rfl, rfl, rfl⟩, fun _ =>
        dataNum_pos (Nat.pos_of_ne_zero hbytes), h.disk,
        h.locations, h.offset, h.sealed⟩, Option.some_ne_none _⟩
      rw [hnext]
  · exact .of_eq (ensureOpen_of_some hcw) ⟨h, by simp [hcw]⟩

theorem Alone.pushOnce_yields (h : Alone config scheme blocks w) (hsize : 0 < config.readBufferSize)
    (hmax : config.maxChunkSize = 0) (hblock : block.length = config.readBufferSize) :
    Yields False (fun r => Alone config scheme (blocks ++ [block]) r.2)
      (w.pushOnce config scheme ahead block) := by
  refine h.ensureOpen_yields.bind fun w hw => ?_
  obtain ⟨hw, hopen⟩ := hw
  obtain ⟨cw, hcw, hnext, hid, hcursor, hbytes, hstrip⟩ := hw.current.resolve_left fun h => hopen h.1
  have hdata := hw.data (.inr hopen)
  have hpush : w.tryPush config scheme ahead block = .ok (.continue_, { w with
      chunkWriter := some { cw with currentStrip := some [block] }
      disk := w.disk ++ [⟨blocks.length, 0, 0, block⟩] }) := by
    have hroom : ¬ scheme.dataNum ≤ ([] : List (List α)).length := Nat.not_le.2 hdata
    simp only [tryPush, hcw, ChunkWriter.push, hstrip, if_neg hroom,
      ChunkWriter.pushStrip_room hstrip hdata, hid,
      hcursor]
    rfl
  refine Yields.bind (.of_eq hpush rfl) ?_
  rintro _ rfl
  have hfull : isFull config { w with
      chunkWriter := some { cw with currentStrip := some [block] }
      disk := w.disk ++ [⟨blocks.length, 0, 0, block⟩] } = true := by
    simp [isFull, hmax]
  dsimp only
  rw [rotateIfFull, if_pos hfull, rotateChunk, bind_assoc]
  refine ((sealCurrent_yields rfl rfl).weaken False.elim).bind ?_
  rintro _ ⟨-, rfl⟩
  have hsealed : Alone config scheme (blocks ++ [block]) (sealedWith config { w with
      chunkWriter := some { cw with currentStrip := some [block] }
      disk := w.disk ++ [⟨blocks.length, 0, 0, block⟩] } cw.chunkId
        (cw.bytesInChunk + [block].flatten.length)) := by
    rw [hbytes, hid, flatten_singleton, hblock, Nat.zero_add, sealedWith, if_neg hsize.ne']
    refine ⟨.inl ⟨rfl, ?_⟩, fun _ => hdata, ?_, ?_, ?_, ?_⟩
    · rw [length_append]
      exact hnext
    · rw [mapIdx_concat, hw.disk]
    · rw [length_append, length_singleton, range_succ, map_append, map_singleton,
        hw.locations, hw.offset]
    · rw [length_append, length_singleton, hw.offset, Nat.succ_mul]
    · rw [length_append, length_singleton, range_succ, map_append, map_singleton, hw.sealed]
  exact hsealed.ensureOpen_yields.bind fun _ hopened => hopened.1

theorem Alone.sealCurrent_yields (h : Alone config scheme blocks w) :
    Yields False (fun w' => w'.disk = w.disk ∧ w'.locations = w.locations ∧ w'.sealed = w.sealed)
      (w.sealCurrent config scheme) := by
  rcases h.current with ⟨hnone, -⟩ | ⟨cw, hcw, -, -, -, hbytes, hstrip⟩
  · rw [sealCurrent, hnone]
    exact ⟨rfl, rfl, rfl⟩
  · refine ((StreamWriter.sealCurrent_yields hcw hstrip).weaken False.elim).mono ?_
    rintro _ ⟨-, rfl⟩
    rw [hbytes, flatten_nil, length_nil, sealedWith, if_pos (Nat.add_zero 0)]
    exact ⟨rfl, rfl, rfl⟩

theorem chunkBlocks_of_no_limit (hmax : config.maxChunkSize = 0) :
    chunkBlocks config scheme = scheme.dataNum := by
  have hzero : 0 ⌈/⌉ (scheme.dataNum * config.readBufferSize) = 0 := zero_ceilDiv _
  rw [chunkBlocks, chunkStrips, hmax, hzero, Nat.max_eq_left (Nat.zero_le _), Nat.one_mul]

/-- Chunks of one block each are as they should be, if chunks have one block or there is one only. -/
theorem Alone.exists_finished (h : Alone config scheme blocks w) (hsize : 0 < config.readBufferSize)
    (hmax : config.maxChunkSize = 0) (hblocks : ∀ b ∈ blocks, b.length = config.readBufferSize)
    (hcase : scheme.dataNum = 1 ∨ blocks.length ≤ 1) {w' : StreamWriter α}
    (hsame : w'.disk = w.disk ∧ w'.locations = w.locations ∧ w'.sealed = w.sealed) :
    ∃ c, w'.Finished config scheme blocks c := by
  obtain ⟨hdisk, hlocations, hsealed⟩ := hsame
  rw [h.disk] at hdisk
  rw [h.locations] at hlocations
  rw [h.sealed] at hsealed
  have hchunk : chunkBlocks config scheme = scheme.dataNum := chunkBlocks_of_no_limit hmax
  rcases hcase with hone | hfew
  · rw [hone] at hchunk
    refine ⟨blocks.length, ?_, ?_, fun b hb => hblocks b (mem_of_mem_take hb), ?_, ?_, ?_⟩
    · rw [hchunk, Nat.mul_one]
    · rw [hchunk, Nat.mul_one]
      exact Nat.le_succ _
    · rw [hdisk]
      congr 1
      funext i b
      simp [place, hchunk, hone, Nat.mod_one]
    · simp [hlocations, hchunk, fullLocation]
    · simp [hsealed, hchunk]
  · rcases Nat.le_one_iff_eq_zero_or_eq_one.1 hfew with hnil | hone
    · obtain rfl := length_eq_zero_iff.1 hnil
      refine ⟨0, by simp, by simp, fun b hb => hblocks b (mem_of_mem_take hb), hdisk, ?_, ?_⟩
      · simpa using hlocations
      · simpa using hsealed
    · obtain ⟨b, rfl⟩ := length_eq_one_iff.1 hone
      have hb : b.length = config.readBufferSize := hblocks b mem_cons_self
      refine ⟨0, by simp, ?_, fun b hb => hblocks b (mem_of_mem_take hb), ?_, ?_, ?_⟩
      · rw [Nat.zero_add, Nat.one_mul, hchunk]
        exact h.data (.inl (cons_ne_nil _ _))
      · simpa [place] using hdisk
      · simpa [hb, hsize.ne'] using hlocations
      · simpa [hb, hsize.ne'] using hsealed

theorem Alone.disk_ne (h : Alone config scheme blocks w) (hmax : config.maxChunkSize = 0)
    (hcase : ¬ (scheme.dataNum = 1 ∨ blocks.length ≤ 1)) :
    w.disk ≠ blocks.mapIdx (place config scheme) := by
  obtain ⟨hdata, hlen⟩ := not_or.1 hcase
  have hone : 1 < blocks.length := Nat.not_le.1 hlen
  intro heq
  have hget := congrArg (fun disk => (disk[1]?).map DataWrite.chunkId) (h.disk.symm.trans heq)
  simp only [getElem?_mapIdx, getElem?_eq_getElem hone, Option.map_some, place,
    chunkBlocks_of_no_limit hmax,
    Option.some.injEq] at hget
  rcases Nat.eq_zero_or_pos scheme.dataNum with hzero | hpos
  · simp [hzero] at hget
  · rw [Nat.div_eq_of_lt (by omega)] at hget
    cases hget

end StreamWriter

namespace PushWriter

open StreamWriter

theorem write_largeObject (config : ChunkClientConfig) (scheme : EcScheme) (ahead : ℕ → ℕ)
    (blocks : List (List α)) : largeObject.write config scheme ahead blocks =
      blocks.foldlM (pushBlock config scheme none ahead) {} >>= sealCurrent config scheme := by
  have hdata : (fun (w : StreamWriter α) buffer => do
      let r ← largeObject.onData config scheme ahead w buffer
      .ok r.2) = pushBlock config scheme none ahead := by
    funext w buffer
    rw [onData, bind_assoc]
    exact bind_pure _
  rw [write, hdata]
  rfl

theorem dataNum_pos_of_write (writer : PushWriter) (hne : blocks ≠ []) :
    Yields False (fun _ => 0 < scheme.dataNum) (writer.write config scheme ahead blocks) := by
  by_cases hbytes : config.stripDataBytes scheme = 0
  · have hopen : ensureOpen config scheme none ({} : StreamWriter α) = .error .panicked := by
      simp only [ensureOpen, ChunkWriter.open_, if_pos hbytes]
      rfl
    obtain ⟨block, rest, rfl⟩ := exists_cons_of_ne_nil hne
    rw [write, foldlM_cons]
    cases writer with
    | largeObject =>
      simp only [onData, pushBlock, hopen]
      exact id
    | largeAsyncObject =>
      simp only [onData, pushOnce, hopen]
      exact id
  · exact (Yields.trivial _).mono fun _ _ => dataNum_pos (Nat.pos_of_ne_zero hbytes)

theorem largeObject_finished {init : List (List α)} {last : List α}
    (hsize : 0 < config.readBufferSize)
    (hinit : ∀ b ∈ init, b.length = config.readBufferSize) :
    Yields False (fun w => ∃ c, w.Finished config scheme (init ++ [last]) c)
      (largeObject.write config scheme ahead (init ++ [last])) := by
  rw [write_largeObject]
  exact ((pushSeal_yields hsize hinit fun _ _ => rfl).weaken False.elim).mono fun _ h => h.2

section Async

variable (hsize : 0 < config.readBufferSize)
  (hblocks : ∀ b ∈ blocks, b.length = config.readBufferSize)
include hsize hblocks

theorem firstChunk_yields (hmax : 0 < config.maxChunkSize)
    (hroom : blocks.length ≤ chunkBlocks config scheme) :
    Yields False (FirstChunk config scheme blocks) (blocks.foldlM (fun w buffer => do
      let r ← largeAsyncObject.onData config scheme ahead w buffer
      .ok r.2) {}) := by
  refine Yields.foldlM (.inl ⟨rfl, rfl⟩) fun before block rest w heq hw => ?_
  have hlen := congrArg length heq
  rw [length_append, length_cons] at hlen
  exact (hw.pushOnce_yields hsize hmax (by omega) (hblocks block (by simp [heq]))).bind fun _ h => h

/-- The asynchronous writer when the first chunk has room for all blocks. -/
theorem largeAsyncObject_finished (hmax : 0 < config.maxChunkSize) (hne : blocks ≠ [])
    (hroom : blocks.length ≤ chunkBlocks config scheme) :
    Yields False (fun w => ∃ c, w.Finished config scheme blocks c)
      (largeAsyncObject.write config scheme ahead blocks) := by
  refine (firstChunk_yields hsize hblocks hmax hroom).bind ?_
  rintro w (⟨hnil, -⟩ | ⟨cw, done, shards, hw, -, rfl, -⟩)
  · exact absurd hnil hne
  · refine ((sealCurrent_yields hw.current hw.strip).weaken False.elim).mono ?_
    rintro _ ⟨-, rfl⟩
    exact ⟨_, hw.finished⟩

/-- The asynchronous writer loses a block when there are more than a chunk takes. -/
theorem largeAsyncObject_loses (hmax : 0 < config.maxChunkSize)
    (hpos : 0 < chunkBlocks config scheme)
    (hmore : chunkBlocks config scheme < blocks.length) :
    Yields False (fun w => w.disk.length < blocks.length)
      (largeAsyncObject.write config scheme ahead blocks) := by
  obtain ⟨before, block, rest, rfl, hbefore⟩ : ∃ before block rest, blocks = before ++ block :: rest ∧
      before.length = chunkBlocks config scheme :=
    ⟨_, _, _, (take_append_drop _ _).symm.trans (by rw [drop_eq_getElem_cons hmore]), by
      rw [length_take]
      omega⟩
  have hfull : ∀ b ∈ before, b.length = config.readBufferSize := fun b hb => hblocks b (by simp [hb])
  have hne : before ≠ [] := ne_nil_of_length_pos (by omega)
  rw [write, foldlM_append, bind_assoc]
  refine (firstChunk_yields hsize hfull hmax hbefore.le).bind fun w hw => ?_
  have hlost : Yields False (fun w' : StreamWriter α => w'.disk.length = before.length) (do
      let r ← largeAsyncObject.onData config scheme ahead w block
      .ok r.2) :=
    (hw.pushOnce_lost hsize hne hbefore).bind fun _ h => h
  rw [foldlM_cons, bind_assoc]
  refine hlost.bind fun w hw => ?_
  -- each of the other blocks is one write at most
  have hrest : Yields False (fun w' : StreamWriter α => w'.disk.length ≤ before.length + rest.length)
      (rest.foldlM (fun w buffer => do
        let r ← largeAsyncObject.onData config scheme ahead w buffer
        .ok r.2) w) := by
    refine Yields.foldlM (I := fun fed (w' : StreamWriter α) =>
      w'.disk.length ≤ before.length + fed.length)
      hw.le fun fed block rest w _ hfed => ?_
    refine (pushOnce_addsOne w).bind ?_
    rintro r ⟨ds, hdisk, hds⟩
    change r.2.disk.length ≤ _
    rw [hdisk, length_append, length_append, length_singleton]
    omega
  refine hrest.bind fun w hw => (sealCurrent_disk w).mono fun w' hdisk => ?_
  rw [hdisk, length_append, length_cons]
  omega

/-- The asynchronous writer without a limit. -/
theorem largeAsyncObject_alone (hmax : config.maxChunkSize = 0) :
    Yields False (fun w' => ∃ w : StreamWriter α, Alone config scheme blocks w ∧
        (w'.disk = w.disk ∧ w'.locations = w.locations ∧ w'.sealed = w.sealed))
      (largeAsyncObject.write config scheme ahead blocks) := by
  refine Yields.bind (P := Alone config scheme blocks) (Yields.foldlM ?_ ?_) ?_
  · exact ⟨.inl ⟨rfl, rfl⟩, by simp, rfl, rfl, by simp, rfl⟩
  · intro before block rest w heq hw
    exact (hw.pushOnce_yields hsize hmax (hblocks block (by simp [heq]))).bind fun _ h => h
  · exact fun w hw => hw.sealCurrent_yields.mono fun w' hsame => ⟨w, hw, hsame⟩

end Async

/-- **Push-mode writers store every block once**, in consecutive data segments, exactly if the
    blocks suit the configuration and the writer does not come to a full chunk. -/
theorem storesBlocks_iff (config : ChunkClientConfig) (scheme : EcScheme) (unitSizeKb : ℕ)
    (writer : PushWriter) (ahead : ℕ → ℕ) (blocks : List (List α)) (w : StreamWriter α)
    (hsize : 0 < config.readBufferSize) (hblocks : ∀ b ∈ blocks, b.length = config.readBufferSize)
    (hw : writer.write config scheme ahead blocks = .ok w) :
    StoresBlocks config scheme unitSizeKb w blocks ↔
      Fits config scheme unitSizeKb blocks.length ∧
        writer.NeverPauses config scheme blocks.length := by
  rcases eq_or_ne blocks [] with rfl | hne
  · obtain rfl : w = {} := (Except.ok.inj hw).symm
    refine iff_of_true ⟨rfl, nodup_nil, nofun, rfl, nofun⟩ ⟨⟨fun h => ?_, ?_, nofun⟩, ?_⟩
    · exact h.trans (Nat.zero_le _)
    · rw [length_nil, Nat.zero_mod]
      exact Nat.zero_le _
    · cases writer with
      | largeObject => trivial
      | largeAsyncObject => simp [NeverPauses]
  have hdata := (Yields.iff.1 (dataNum_pos_of_write writer hne)).1 w hw
  have hpos : 0 < chunkBlocks config scheme := Nat.mul_pos chunkStrips_pos hdata
  have hkept (hfinished : ∃ c, w.Finished config scheme blocks c)
      (hnever : writer.NeverPauses config scheme blocks.length) :
      StoresBlocks config scheme unitSizeKb w blocks ↔ Fits config scheme unitSizeKb blocks.length ∧
        writer.NeverPauses config scheme blocks.length := by
    obtain ⟨c, hfinished⟩ := hfinished
    exact (hfinished.stores_iff hblocks hsize hpos unitSizeKb).trans (and_iff_left hnever).symm
  have hlost (hdisk : w.disk ≠ blocks.mapIdx (place config scheme))
      (hpauses : ¬ writer.NeverPauses config scheme blocks.length) :
      StoresBlocks config scheme unitSizeKb w blocks ↔ Fits config scheme unitSizeKb blocks.length ∧
        writer.NeverPauses config scheme blocks.length :=
    iff_of_false (fun hstores => hdisk hstores.written) fun h => hpauses h.2
  cases writer with
  | largeObject =>
    obtain ⟨init, last, rfl⟩ := (eq_nil_or_concat' blocks).resolve_left hne
    have hinit : ∀ b ∈ init, b.length = config.readBufferSize := fun b hb => hblocks b (by simp [hb])
    exact hkept ((Yields.iff.1 (largeObject_finished hsize hinit)).1 w hw) trivial
  | largeAsyncObject =>
    rcases Nat.eq_zero_or_pos config.maxChunkSize with hmax | hmax
    · obtain ⟨v, hv, hsame⟩ := (Yields.iff.1 (largeAsyncObject_alone hsize hblocks hmax)).1 w hw
      have hnever : NeverPauses config scheme blocks.length largeAsyncObject ↔
          scheme.dataNum = 1 ∨ blocks.length ≤ 1 := by
        rw [NeverPauses, if_pos hmax]
      by_cases hcase : scheme.dataNum = 1 ∨ blocks.length ≤ 1
      · exact hkept (hv.exists_finished hsize hmax hblocks hcase hsame) (hnever.2 hcase)
      · exact hlost (hsame.1 ▸ hv.disk_ne hmax hcase) (mt hnever.1 hcase)
    · have hnever : NeverPauses config scheme blocks.length largeAsyncObject ↔
          blocks.length ≤ chunkBlocks config scheme := by
        rw [NeverPauses, if_neg hmax.ne']
      by_cases hroom : blocks.length ≤ chunkBlocks config scheme
      · exact hkept ((Yields.iff.1 (largeAsyncObject_finished hsize hblocks hmax hne hroom)).1 w hw)
          (hnever.2 hroom)
      · have hless := (Yields.iff.1 (largeAsyncObject_loses hsize hblocks hmax hpos
          (Nat.not_le.1 hroom))).1 w hw
        refine hlost (fun hdisk => ?_) (mt hnever.1 hroom)
        rw [hdisk, length_mapIdx] at hless
        exact lt_irrefl _ hless

/-- Chunks of one block of 1024 bytes. -/
def oneBlockChunks : ChunkClientConfig := { readBufferSize := 1024, maxChunkSize := 1024 }

/-- A block of equal bytes. -/
def filled (byte : ℕ) : List ℕ := List.replicate 1024 byte

theorem length_filled (byte : ℕ) : (filled byte).length = 1024 := length_replicate

theorem storesBlocks_two_chunks :
    ∃ w, largeObject.write oneBlockChunks ⟨1, 1⟩ (fun _ => 0) [filled 7, filled 8] = .ok w ∧
      StoresBlocks oneBlockChunks ⟨1, 1⟩ 1024 w [filled 7, filled 8] := by
  obtain ⟨w, hw, -⟩ := Yields.exists_of_any (x := largeObject.write oneBlockChunks ⟨1, 1⟩ (fun _ => 0)
    [filled 7, filled 8]) (p := fun _ => true) (by decide +kernel)
  refine ⟨w, hw, (storesBlocks_iff oneBlockChunks ⟨1, 1⟩ 1024 largeObject
    (fun _ => 0) [filled 7, filled 8] w
    (by decide) ?_ hw).2 ⟨⟨?_, ?_, ?_⟩, trivial⟩⟩
  · simp [oneBlockChunks, length_filled]
  · decide
  · decide
  · decide

/-- The second block comes to a full chunk: `on_data` and `on_finish` return, and it is written
    nowhere. -/
theorem block_lost : ∃ w, largeAsyncObject.write oneBlockChunks ⟨1, 1⟩
      (fun _ => 0) [filled 7, filled 8] = .ok w ∧
      w.disk = [⟨0, 0, 0, filled 7⟩] ∧ ¬ StoresBlocks oneBlockChunks
        ⟨1, 1⟩ 1024 w [filled 7, filled 8] := by
  obtain ⟨w, hw, hdisk⟩ := Yields.exists_of_any
    (x := largeAsyncObject.write oneBlockChunks ⟨1, 1⟩ (fun _ => 0)
    [filled 7, filled 8]) (p := fun w => decide (w.disk = [⟨0, 0, 0, filled 7⟩])) (by decide +kernel)
  have hdisk := of_decide_eq_true hdisk
  refine ⟨w, hw, hdisk, fun hstores => ?_⟩
  have hlen := congrArg length hstores.written
  rw [hdisk] at hlen
  simp at hlen

end PushWriter

end CrowDB
