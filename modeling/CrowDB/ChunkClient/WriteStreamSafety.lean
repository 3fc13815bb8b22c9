/-
  What a stream write returns.

  The locations that `write_stream` returns should describe exactly the bytes of the stream, and it
  should not return `Ok` when the reader reported an error (`Exact`).  But a read error is only
  logged, the parity of a last strip of several blocks cannot be computed when the last of them is
  shorter (`ragged`), a strip prefetch of depth one lets the writer wait for ever, and the segments
  of appended strips may be smaller than a block.

  The blocks go to the data segments one after another (`place`).  A writer that is between two
  blocks has full chunks behind it and fills the next one (`Awaits`); each push keeps that, and
  succeeds exactly if the strip that it needs can be opened (`CanOpen`).
-/
import CrowDB.Lib.Fallible
import CrowDB.ChunkClient.WriteStream
import Mathlib.Algebra.Order.Floor.Div
import Mathlib.Algebra.Order.Ring.Nat

namespace CrowDB

open Lib List

variable {α : Type*} {blockSize : ℕ} {buf : List α}

/-! ## The fetch stage -/

/-- The full blocks of `bytes`, and a shorter last one. -/
def blocksOf (blockSize : ℕ) (bytes : List α) : List (List α) := (splitBlocks blockSize bytes).1 ++
    if (splitBlocks blockSize bytes).2.isEmpty then [] else [(splitBlocks blockSize bytes).2]

theorem splitBlocks_of_lt (h : buf.length < blockSize) : splitBlocks blockSize buf = ([], buf) := by
  rw [splitBlocks, if_neg]
  omega

theorem splitBlocks_append (hsize : 0 < blockSize) (buf bytes : List α) :
    splitBlocks blockSize (buf ++ bytes) =
      ((splitBlocks blockSize buf).1 ++
        (splitBlocks blockSize ((splitBlocks blockSize buf).2 ++ bytes)).1,
        (splitBlocks blockSize ((splitBlocks blockSize buf).2 ++ bytes)).2) := by
  fun_induction splitBlocks blockSize buf with
  | case1 buf hfull _ ih =>
    have hlen : blockSize ≤ (buf ++ bytes).length := by
      rw [length_append]
      omega
    rw [splitBlocks, if_pos ⟨hsize, hlen⟩, drop_append_of_le_length hfull.2,
      take_append_of_le_length hfull.2]
    simp only [ih, cons_append]
    rfl
  | case2 => rfl

theorem splitBlocks_rest_lt (hsize : 0 < blockSize) (buf : List α) :
    (splitBlocks blockSize buf).2.length < blockSize := by
  fun_induction splitBlocks blockSize buf with
  | case1 _ _ _ ih => exact ih
  | case2 =>
    simp only
    omega

theorem splitBlocks_full (buf : List α) : ∀ block ∈ (splitBlocks blockSize buf).1, block.length =
      blockSize := by
  fun_induction splitBlocks blockSize buf with
  | case1 _ _ _ ih =>
    intro block hblock
    rcases mem_cons.1 hblock with rfl | hrest
    · rw [length_take]
      omega
    · exact ih block hrest
  | case2 =>
    intro block hblock
    cases hblock

theorem splitBlocks_flatten (blockSize : ℕ) (buf : List α) :
    (splitBlocks blockSize buf).1.flatten ++ (splitBlocks blockSize buf).2 = buf := by
  fun_induction splitBlocks blockSize buf with
  | case1 _ _ _ ih =>
    rw [flatten_cons, append_assoc, ih, take_append_drop]
  | case2 => rfl

theorem blocksOf_of_lt (h : buf.length < blockSize) :
    blocksOf blockSize buf = if buf.isEmpty then [] else [buf] := by
  rw [blocksOf, splitBlocks_of_lt h, nil_append]

/-- However the reader delivers the bytes, the blocks are those of the bytes. -/
theorem runFetchStage_eq (hsize : 0 < blockSize) (hbuf : buf.length < blockSize)
    (reads : List (ReadResult α)) :
    runFetchStage blockSize buf reads = blocksOf blockSize (buf ++ delivered reads) := by
  induction reads generalizing buf with
  | nil => rw [runFetchStage, delivered, append_nil, blocksOf_of_lt hbuf]
  | cons read _ ih =>
    match read with
    | .err | .ok [] => rw [runFetchStage, delivered, append_nil, blocksOf_of_lt hbuf]
    | .ok (b :: bytes) =>
      rw [runFetchStage, ih (splitBlocks_rest_lt hsize _), delivered, ← append_assoc,
        blocksOf, blocksOf,
        splitBlocks_append hsize (buf ++ b :: bytes), append_assoc]

theorem flatten_length_of_full {blocks : List (List α)} (h : ∀ b ∈ blocks, b.length = blockSize) :
    blocks.flatten.length = blocks.length * blockSize := by
  induction blocks with
  | nil => simp
  | cons b _ ih =>
    rw [flatten_cons, length_append, h b mem_cons_self, ih fun c hc =>
      h c (mem_cons_of_mem _ hc), length_cons,
      Nat.add_mul, Nat.one_mul, Nat.add_comm]

/-! ## Where the blocks belong -/

theorem ChunkClientConfig.readBufferSize_pos (config : ChunkClientConfig)
    (h : config.validate = .ok ()) :
    0 < config.readBufferSize := by
  rw [validate] at h
  split_ifs at h with hzero
  exact Nat.pos_of_ne_zero hzero

section Places

variable (config : ChunkClientConfig) (scheme : EcScheme)

/-- The strips of a chunk of full blocks: as many as reach the limit, and at least one. -/
def chunkStrips : ℕ := max 1 (config.maxChunkSize ⌈/⌉ (scheme.dataNum * config.readBufferSize))

/-- The blocks of a full chunk. -/
def chunkBlocks : ℕ := chunkStrips config scheme * scheme.dataNum

/-- The `i`-th data segment. -/
def place (i : ℕ) (block : List α) : DataWrite α :=
  ⟨i / chunkBlocks config scheme, i % chunkBlocks config scheme / scheme.dataNum,
    i % scheme.dataNum, block⟩

/-- The strips that the first chunk gets for `n` blocks. -/
def stripsUsed (n : ℕ) : ℕ := min (chunkStrips config scheme) (n ⌈/⌉ scheme.dataNum)

/-- The units that `seal` reports for a chunk of so many bytes. -/
def sealUnits (bytes : ℕ) : ℕ := bytes / config.unitBytes % 0x100000000

/-- The location of the `i`-th chunk, which is full. -/
def fullLocation (i : ℕ) : Location :=
  let bytes := chunkBlocks config scheme * config.readBufferSize
  ⟨i, 0, bytes, i * bytes, bytes⟩

variable (objectSize : Option ℕ)

/-- The prefetch task of a chunk at its start. -/
def firstPrefetch : StripPrefetch := ⟨1, ChunkWriter.stripsRemaining config scheme objectSize⟩

/-- The prefetch task has nothing to do. -/
def StripPrefetch.Stopped (p : StripPrefetch) : Prop :=
  p.remaining = some 0 ∨ config.maxChunkSize / config.stripDataBytes scheme % 0x100000000 ≤ p.next

/-- A chunk can get `k` strips: the prefetch runs two strips ahead, or has nothing to do from the
    start (else it and the writer wait for each other), and the cursor can count them. -/
def CanOpen (k : ℕ) : Prop :=
  k ≤ 1 ∨ k ≤ 0x100000000 ∧
    (2 ≤ config.preallocDepth % 0x100000000 ∨
      (firstPrefetch config scheme objectSize).Stopped config scheme)

end Places

variable {config : ChunkClientConfig} {scheme : EcScheme} {objectSize : Option ℕ} {ahead : ℕ → ℕ}
  {w : StreamWriter α} {cw : ChunkWriter α} {done shards blocks : List (List α)}
    {block : List α} {n : ℕ}

theorem CanOpen.mono {k m : ℕ} (h : CanOpen config scheme objectSize m) (hle : k ≤ m) :
    CanOpen config scheme objectSize k := by
  refine h.imp hle.trans fun h => ⟨hle.trans h.1, h.2⟩

theorem chunkStrips_pos : 0 < chunkStrips config scheme :=
  Nat.lt_of_lt_of_le Nat.one_pos (le_max_left _ _)

theorem dataNum_pos (h : 0 < config.stripDataBytes scheme) : 0 < scheme.dataNum :=
  Nat.pos_of_ne_zero fun h0 => h.ne' (by rw [ChunkClientConfig.stripDataBytes, h0, Nat.zero_mul])

theorem le_mul_iff_chunkStrips_le (hdata : 0 < scheme.dataNum)
    (hsize : 0 < config.readBufferSize) {k : ℕ}
    (hk : 0 < k) :
    config.maxChunkSize ≤ k * scheme.dataNum * config.readBufferSize ↔
      chunkStrips config scheme ≤ k := by
  have hpos : 0 < scheme.dataNum * config.readBufferSize := Nat.mul_pos hdata hsize
  rw [chunkStrips, max_le_iff, ceilDiv_le_iff_le_mul hpos, Nat.mul_comm _ k, ← Nat.mul_assoc]
  exact ⟨fun h => ⟨hk, h⟩, fun h => h.2⟩

theorem place_strip_segment (config : ChunkClientConfig) (scheme : EcScheme) (i : ℕ)
    (block : List α) :
    (place config scheme i block).strip * scheme.dataNum + (place config scheme i block).segment =
      i % chunkBlocks config scheme := by
  have hmod : i % scheme.dataNum = i % chunkBlocks config scheme % scheme.dataNum :=
    (Nat.mod_mod_of_dvd i (Nat.dvd_mul_left _ _)).symm
  rw [place, hmod]
  exact Nat.div_add_mod' _ _

theorem mul_add_div_of_lt {a b c : ℕ} (h : c < b) : (a * b + c) / b = a := by
  rw [Nat.mul_comm, Nat.mul_add_div (Nat.zero_lt_of_lt h), Nat.div_eq_of_lt h, Nat.add_zero]

theorem place_eq {chunkId strip segment : ℕ} (hstrip : strip < chunkStrips config scheme)
    (hsegment : segment < scheme.dataNum) (block : List α) :
    place config scheme (chunkId * chunkBlocks config scheme + (strip * scheme.dataNum + segment))
      block =
      ⟨chunkId, strip, segment, block⟩ := by
  have hin : strip * scheme.dataNum + segment < chunkBlocks config scheme := by
    have := Nat.mul_le_mul_right scheme.dataNum (Nat.succ_le_of_lt hstrip)
    rw [Nat.succ_mul] at this
    exact Nat.lt_of_lt_of_le (Nat.add_lt_add_left hsegment _) this
  have hmod := Nat.mul_add_mod_of_lt (a := chunkId) hin
  have hseg : (chunkId * chunkBlocks config scheme + (strip * scheme.dataNum + segment))
    % scheme.dataNum =
      segment := by
    rw [← Nat.mod_mod_of_dvd _ (Nat.dvd_mul_left scheme.dataNum (chunkStrips config scheme)),
      ← chunkBlocks, hmod,
      Nat.mul_add_mod_of_lt hsegment]
  rw [place, hmod, hseg, mul_add_div_of_lt hin, mul_add_div_of_lt hsegment]

/-! ## The state of the writer -/

namespace StreamWriter

/-- The first `c` chunks are full and sealed. -/
structure Closed (config : ChunkClientConfig) (scheme : EcScheme) (objectSize : Option ℕ)
    (w : StreamWriter α) (c : ℕ) : Prop where
  locations : w.locations = (List.range c).map (fullLocation config scheme)
  offset : w.logicalOffset = c * (chunkBlocks config scheme * config.readBufferSize)
  sealed : w.sealed = (List.range c).map fun i =>
    (i, sealUnits config (chunkBlocks config scheme * config.readBufferSize))
  opened : 0 < c → CanOpen config scheme objectSize (chunkStrips config scheme)

/-- No chunk is open: those before are full, and have all blocks. -/
structure Rotating (config : ChunkClientConfig) (scheme : EcScheme) (objectSize : Option ℕ)
    (w : StreamWriter α) (blocks : List (List α)) : Prop where
  current : w.chunkWriter = none
  full : ∀ b ∈ blocks, b.length = config.readBufferSize
  count : blocks.length = w.nextId * chunkBlocks config scheme
  disk : w.disk = blocks.mapIdx (place config scheme)
  closed : w.Closed config scheme objectSize w.nextId

/-- A chunk is open, and the ones before it are full.  The finished strips have the blocks `done`, the
    open strip has `shards`. -/
structure Filling (config : ChunkClientConfig) (scheme : EcScheme) (objectSize : Option ℕ)
    (w : StreamWriter α) (cw : ChunkWriter α) (done shards : List (List α)) : Prop where
  current : w.chunkWriter = some cw
  newest : w.nextId = cw.chunkId + 1
  data : 0 < config.stripDataBytes scheme
  strip : cw.currentStrip = some shards
  few : shards.length ≤ scheme.dataNum
  room : cw.writeCursor < chunkStrips config scheme
  bytes : cw.bytesInChunk = cw.writeCursor * scheme.dataNum * config.readBufferSize
  full : ∀ b ∈ done, b.length = config.readBufferSize
  count : done.length = cw.chunkId * chunkBlocks config scheme + cw.writeCursor * scheme.dataNum
  disk : w.disk = (done ++ shards).mapIdx (place config scheme)
  closed : w.Closed config scheme objectSize cw.chunkId
  opened : CanOpen config scheme objectSize (cw.writeCursor + 1)
  prefetch : config.preallocDepth % 0x100000000 < 2 →
    cw.prefetch = firstPrefetch config scheme objectSize ∧ cw.strips = cw.writeCursor + 1

/-- The open chunk is full and its last strip finished. -/
structure Full (config : ChunkClientConfig) (scheme : EcScheme) (objectSize : Option ℕ)
    (w : StreamWriter α) (cw : ChunkWriter α) (blocks : List (List α)) : Prop where
  current : w.chunkWriter = some cw
  newest : w.nextId = cw.chunkId + 1
  strip : cw.currentStrip = none
  bytes : cw.bytesInChunk = chunkBlocks config scheme * config.readBufferSize
  full : ∀ b ∈ blocks, b.length = config.readBufferSize
  count : blocks.length = (cw.chunkId + 1) * chunkBlocks config scheme
  disk : w.disk = blocks.mapIdx (place config scheme)
  closed : w.Closed config scheme objectSize cw.chunkId
  opened : CanOpen config scheme objectSize (chunkStrips config scheme)

/-- Between two blocks, all of them full. -/
def Awaits (config : ChunkClientConfig) (scheme : EcScheme) (objectSize : Option ℕ)
    (blocks : List (List α)) (w : StreamWriter α) : Prop :=
  w.Rotating config scheme objectSize blocks ∨ ∃ cw done shards,
    w.Filling config scheme objectSize cw done shards ∧ blocks = done ++ shards ∧
      ∀ s ∈ shards, s.length = config.readBufferSize

/-- What a write of `n` blocks needs. -/
structure Runs (config : ChunkClientConfig) (scheme : EcScheme) (objectSize : Option ℕ) (n : ℕ) :
    Prop where
  code : 0 < n → 0 < scheme.codeNum
  data : 0 < config.stripDataBytes scheme
  opens : CanOpen config scheme objectSize (stripsUsed config scheme n)

end StreamWriter

/-! ## Strips -/

/-- The parity of the blocks can be computed. -/
structure Even (scheme : EcScheme) (shards : List (List α)) : Prop where
  data : 0 < scheme.dataNum
  code : 0 < scheme.codeNum
  some : shards ≠ []
  few : shards.length ≤ scheme.dataNum
  sizes : ∀ s ∈ shards, ∀ s' ∈ shards, s.length = s'.length

theorem encodeParityFromShards_eq_ok : encodeParityFromShards scheme shards = .ok () ↔
      Even scheme shards := by
  unfold encodeParityFromShards
  constructor
  · intro h
    split_ifs at h with hscheme
    cases shards with
    | nil => cases h
    | cons shard rest =>
      dsimp only at h
      split_ifs at h with hfew hodd
      have hsame : ∀ s ∈ shard :: rest, s.length = shard.length := by
        simpa using hodd
      exact ⟨by omega, by omega, cons_ne_nil _ _, Nat.not_lt.1 hfew, fun s hs s' hs' =>
        (hsame s hs).trans (hsame s' hs').symm⟩
  · rintro ⟨hdata, hcode, hsome, hfew, hsizes⟩
    rw [if_neg (by omega)]
    cases shards with
    | nil => exact absurd rfl hsome
    | cons shard rest =>
      have hodd : (rest.any fun s => decide (s.length ≠ shard.length)) = false := by
        rw [any_eq_false]
        intro s hs
        simp [hsizes s (mem_cons_of_mem _ hs) shard mem_cons_self]
      simp only [hodd]
      rw [if_neg (by omega)]
      rfl

namespace ChunkWriter

theorem finishStrip_yields (hstrip : cw.currentStrip = some shards) :
    Yields (Even scheme shards) (fun cw' => Even scheme shards ∧ cw' = { cw with
        currentStrip := none, bytesInChunk := cw.bytesInChunk + shards.flatten.length })
      (cw.finishStrip scheme) := by
  rw [finishStrip, hstrip]
  cases hparity : encodeParityFromShards scheme shards with
  | ok => simp [hparity, Yields, encodeParityFromShards_eq_ok.1 hparity]
  | error =>
    simp only [hparity]
    intro heven
    rw [encodeParityFromShards_eq_ok.2 heven] at hparity
    cases hparity

theorem stop_of_stopped {p : StripPrefetch} (h : p.Stopped config scheme) (written : ℕ) :
    p.decide config scheme written = .stop := by
  rw [StripPrefetch.decide]
  split_ifs with hnone hfull
  · rfl
  · rfl
  · exact absurd h (not_or.2 ⟨hnone, hfull⟩)
  · exact absurd h (not_or.2 ⟨hnone, hfull⟩)

theorem ahead_eq {p : StripPrefetch} {written : ℕ}
    (h : p.decide config scheme written ≠ .append) (k : ℕ) :
    p.ahead config scheme written k = p := by
  cases k with
  | zero => rfl
  | succ =>
    rw [StripPrefetch.ahead]
    split
    · contradiction
    · rfl

/-- **The next strip can be opened** exactly if that is `CanOpen`. -/
theorem openNextStrip_yields (hopened : CanOpen config scheme objectSize (cw.writeCursor + 1))
    (hprefetch : config.preallocDepth % 0x100000000 < 2 →
      cw.prefetch = firstPrefetch config scheme objectSize ∧ cw.strips = cw.writeCursor + 1) (k : ℕ) :
    Yields (CanOpen config scheme objectSize (cw.writeCursor + 2))
      (fun cw' => CanOpen config scheme objectSize (cw.writeCursor + 2) ∧ ∃ strips prefetch, cw' =
        { cw with writeCursor := cw.writeCursor + 1, currentStrip := some [], strips, prefetch } ∧
        (config.preallocDepth % 0x100000000 < 2 →
          prefetch = firstPrefetch config scheme objectSize ∧ strips = cw.writeCursor + 2))
      (cw.openNextStrip config scheme k) := by
  have hbits : ¬ 0xFFFFFFFF ≤ cw.writeCursor ↔ cw.writeCursor + 2 ≤ 0x100000000 := by omega
  simp only [openNextStrip]
  rcases Nat.lt_or_ge (config.preallocDepth % 0x100000000) 2 with hdepth | hdepth
  · obtain ⟨hfirst, hstrips⟩ := hprefetch hdepth
    rw [hfirst]
    by_cases hstop : (firstPrefetch config scheme objectSize).Stopped config scheme
    · have hdecide := stop_of_stopped hstop cw.writeCursor
      rw [ahead_eq (by simp [hdecide]), hdecide, hstrips]
      have hmax : max (cw.writeCursor + 1) (firstPrefetch config scheme objectSize).next =
        cw.writeCursor + 1 :=
        Nat.max_eq_left (Nat.le_add_left _ _)
      rw [hmax, if_neg (lt_irrefl _)]
      split_ifs with hcursor
      · rintro (hone | ⟨hcount, -⟩) <;> omega
      · exact ⟨.inr ⟨hbits.1 hcursor, .inr hstop⟩, _, _, rfl, fun _ => ⟨rfl, rfl⟩⟩
    · -- the task waits for the writer
      have hnot : ¬ (2 ≤ config.preallocDepth % 0x100000000 ∨
          (firstPrefetch config scheme objectSize).Stopped config scheme) := not_or.2 ⟨Nat.not_le.2
            hdepth, hstop⟩
      have hzero : cw.writeCursor = 0 := by
        have := hopened.resolve_right fun h => hnot h.2
        omega
      have hdecide : (firstPrefetch config scheme objectSize).decide config scheme
        cw.writeCursor = .wait := by
        obtain ⟨hmore, hroom⟩ := not_or.1 hstop
        rw [StripPrefetch.decide, if_neg hmore, if_neg hroom, hzero, if_pos]
        exact Nat.le_of_lt_succ hdepth
      rw [ahead_eq (by simp [hdecide]), hdecide, hstrips, hzero]
      exact fun h => (h.resolve_left (by omega)).2.elim (Nat.not_le.2 hdepth) hstop
  · split_ifs with hcursor hready
    · rintro (hone | ⟨hcount, -⟩) <;> omega
    · exact ⟨.inr ⟨hbits.1 hcursor, .inl hdepth⟩, _, _, rfl, fun h => absurd hdepth (Nat.not_le.2 h)⟩
    · split
      · exact ⟨.inr ⟨hbits.1 hcursor, .inl hdepth⟩, _, _, rfl, fun h =>
          absurd hdepth (Nat.not_le.2 h)⟩
      · exact ⟨.inr ⟨hbits.1 hcursor, .inl hdepth⟩, _, _, rfl, fun h =>
          absurd hdepth (Nat.not_le.2 h)⟩
      · -- the task is not ahead of the writer, so it does not wait
        rename_i hwait
        rw [StripPrefetch.decide] at hwait
        split_ifs at hwait
        omega

theorem pushStrip_room (hstrip : cw.currentStrip = some shards)
    (hroom : shards.length < scheme.dataNum)
    (disk : List (DataWrite α)) (block : List α) :
    cw.pushStrip scheme disk block = .ok ({ cw with currentStrip := some (shards ++ [block]) },
      disk ++ [⟨cw.chunkId, cw.writeCursor, shards.length, block⟩]) := by
  simp only [pushStrip, hstrip, if_neg (Nat.not_le.2 hroom)]

end ChunkWriter

/-! ## Calls -/

namespace StreamWriter

theorem ensureOpen_of_some (hw : w.chunkWriter = some cw) :
    w.ensureOpen config scheme objectSize = .ok w := by
  rw [ensureOpen, hw]

theorem Rotating.ensureOpen_yields (h : w.Rotating config scheme objectSize blocks) :
    Yields (0 < config.stripDataBytes scheme)
      (fun w' => ∃ cw, w'.Filling config scheme objectSize cw blocks [])
      (w.ensureOpen config scheme objectSize) := by
  simp only [ensureOpen, h.current, ChunkWriter.open_]
  split_ifs with hbytes
  · exact fun hpos => hpos.ne' hbytes
  · exact ⟨_, {
      current := rfl
      newest := rfl
      data := Nat.pos_of_ne_zero hbytes
      strip := rfl
      few := Nat.zero_le _
      room := chunkStrips_pos
      bytes := by simp
      full := h.full
      count := by simpa using h.count
      disk := by simpa using h.disk
      closed := { h.closed with }
      opened := .inl le_rfl
      prefetch := fun _ => ⟨rfl, rfl⟩ }⟩

theorem Awaits.ensureOpen_yields (h : Awaits config scheme objectSize blocks w) :
    Yields (0 < config.stripDataBytes scheme)
      (fun w' => ∃ cw done shards, w'.Filling config scheme objectSize cw done shards ∧
        blocks = done ++ shards ∧ ∀ s ∈ shards, s.length = config.readBufferSize)
      (w.ensureOpen config scheme objectSize) := by
  rcases h with h | ⟨cw, done, shards, h⟩
  · refine h.ensureOpen_yields.mono ?_
    rintro w' ⟨cw, hw'⟩
    exact ⟨cw, blocks, [], hw', (append_nil _).symm, nofun⟩
  · exact .of_eq (ensureOpen_of_some h.1.current) ⟨cw, done, shards, h⟩

/-- The open strip takes one more block. -/
theorem Filling.append (h : w.Filling config scheme objectSize cw done shards)
    (hroom : shards.length < scheme.dataNum) (block : List α) :
    Filling config scheme objectSize
      { w with
        chunkWriter := some { cw with currentStrip := some (shards ++ [block]) }
        disk := w.disk ++ [⟨cw.chunkId, cw.writeCursor, shards.length, block⟩] }
      { cw with currentStrip := some (shards ++ [block]) } done (shards ++ [block]) where
  current := rfl
  newest := h.newest
  data := h.data
  strip := rfl
  few := by rwa [length_append, length_singleton, Nat.add_one_le_iff]
  room := h.room
  bytes := h.bytes
  full := h.full
  count := h.count
  disk := by
    dsimp only
    rw [← append_assoc, mapIdx_concat, length_append, h.count, Nat.add_assoc,
      place_eq h.room hroom, h.disk]
  closed := { h.closed with }
  opened := h.opened
  prefetch := h.prefetch

theorem Filling.tryPush_room (h : w.Filling config scheme objectSize cw done shards)
    (hroom : shards.length < scheme.dataNum) {ok : Prop} :
    Yields ok (fun r => r.1 = .continue_ ∧
        ∃ cw, r.2.Filling config scheme objectSize cw done (shards ++ [block]))
      (w.tryPush config scheme ahead block) := by
  simp only [tryPush, h.current, ChunkWriter.push, h.strip, if_neg (Nat.not_le.2 hroom),
    ChunkWriter.pushStrip_room h.strip hroom]
  exact ⟨rfl, _, h.append hroom block⟩

theorem Filling.tryPush_full (h : w.Filling config scheme objectSize cw done shards)
    (hfull : shards.length = scheme.dataNum) (hsizes : ∀ s ∈ shards, s.length = config.readBufferSize)
    (hsize : 0 < config.readBufferSize) (hn : (done ++ shards).length < n) :
    Yields (Runs config scheme objectSize n)
      (fun r => (r.1 = .continue_ ∧ cw.writeCursor + 1 < chunkStrips config scheme ∧
          ∃ cw, r.2.Filling config scheme objectSize cw (done ++ shards) [block]) ∨
        r.1 = .pause ∧ ∃ cw, r.2.Full config scheme objectSize cw (done ++ shards))
      (w.tryPush config scheme ahead block) := by
  have hdata := dataNum_pos h.data
  have hblocks : ∀ b ∈ done ++ shards, b.length = config.readBufferSize := fun b hb =>
    (mem_append.1 hb).elim (h.full b) (hsizes b)
  have hbytes : cw.bytesInChunk + shards.flatten.length =
      (cw.writeCursor + 1) * scheme.dataNum * config.readBufferSize := by
    rw [h.bytes, flatten_length_of_full hsizes, hfull, ← Nat.add_mul, Nat.succ_mul]
  have hcount : (done ++ shards).length =
      cw.chunkId * chunkBlocks config scheme + (cw.writeCursor + 1) * scheme.dataNum := by
    rw [length_append, h.count, hfull, Nat.succ_mul, Nat.add_assoc]
  have hlimit := le_mul_iff_chunkStrips_le hdata hsize (Nat.succ_pos cw.writeCursor)
  have heven : Runs config scheme objectSize n → Even scheme shards := fun hruns =>
    ⟨hdata, hruns.code (Nat.zero_lt_of_lt hn), ne_nil_of_length_pos (hfull ▸ hdata), h.few,
      fun s hs s' hs' =>
      (hsizes s hs).trans (hsizes s' hs').symm⟩
  simp only [tryPush, h.current, ChunkWriter.push, h.strip, hfull, Nat.le_refl, if_true, bind_assoc]
  refine ((ChunkWriter.finishStrip_yields h.strip).weaken heven).bind ?_
  rintro finished ⟨-, hfinished⟩
  rw [hbytes] at hfinished
  have hcw : finished.bytesInChunk = (cw.writeCursor + 1) * scheme.dataNum *
    config.readBufferSize := by
    rw [hfinished]
  rw [hcw]
  split_ifs with hlast
  · -- the chunk is full
    have hstrips : chunkStrips config scheme = cw.writeCursor + 1 :=
      Nat.le_antisymm (hlimit.1 hlast) h.room
    subst hfinished
    exact .inr ⟨rfl, _, {
      current := rfl
      newest := h.newest
      strip := rfl
      bytes := by rw [chunkBlocks, hstrips]
      full := hblocks
      count := by rw [hcount, ← hstrips, ← chunkBlocks, Nat.succ_mul]
      disk := h.disk
      closed := { h.closed with }
      opened := hstrips ▸ h.opened }⟩
  · have hnext : cw.writeCursor + 1 < chunkStrips config scheme :=
      Nat.not_le.1 fun h => hlast (hlimit.2 h)
    have hcursor : finished.writeCursor = cw.writeCursor := by rw [hfinished]
    have hopens : Runs config scheme objectSize n →
        CanOpen config scheme objectSize (finished.writeCursor + 2) := by
      intro hruns
      rw [hcursor]
      refine hruns.opens.mono (Nat.le_min.2 ⟨hnext, Nat.not_lt.1 fun hlt => ?_⟩)
      have hle := (ceilDiv_le_iff_le_mul hdata).1 (Nat.le_of_lt_succ hlt)
      rw [Nat.mul_comm] at hle
      omega
    have hprefetch : config.preallocDepth % 0x100000000 < 2 →
        finished.prefetch = firstPrefetch config scheme objectSize ∧
          finished.strips = finished.writeCursor + 1 := by
      rw [hfinished]
      exact h.prefetch
    rw [bind_assoc]
    refine ((ChunkWriter.openNextStrip_yields (hcursor ▸ h.opened) hprefetch _).weaken hopens).bind ?_
    rintro opened ⟨hopened, strips, prefetch, heq, hprefetch⟩
    rw [hfinished] at heq hopened hprefetch
    have hempty : Filling config scheme objectSize { w with chunkWriter := some opened } opened
        (done ++ shards) [] := by
      subst heq
      exact {
        current := rfl
        newest := h.newest
        data := h.data
        strip := rfl
        few := Nat.zero_le _
        room := hnext
        bytes := rfl
        full := hblocks
        count := hcount
        disk := by simpa using h.disk
        closed := { h.closed with }
        opened := hopened
        prefetch := hprefetch }
    rw [ChunkWriter.pushStrip_room hempty.strip hdata]
    exact .inl ⟨rfl, hnext, _, hempty.append hdata block⟩

/-- The writer after the open chunk is sealed with so many bytes. -/
def sealedWith (config : ChunkClientConfig) (w : StreamWriter α) (chunkId bytes : ℕ) :
    StreamWriter α :=
  if bytes = 0 then { w with chunkWriter := none }
  else { w with
    chunkWriter := none
    locations := w.locations ++ [⟨chunkId, 0, bytes, w.logicalOffset, bytes⟩]
    logicalOffset := w.logicalOffset + bytes
    sealed := w.sealed ++ [(chunkId, sealUnits config bytes)] }

theorem sealCurrent_of_ok {cw' : ChunkWriter α} (hw : w.chunkWriter = some cw)
    (hseal : cw.sealStrip scheme = .ok cw') :
    w.sealCurrent config scheme = .ok (sealedWith config w cw'.chunkId cw'.bytesInChunk) := by
  rw [sealCurrent, hw, sealedWith]
  simp only [hseal, bind, Except.bind]
  split_ifs
  · rfl
  · rfl

/-- The open chunk is sealed exactly if the parity of its last strip can be computed. -/
theorem sealCurrent_yields (hw : w.chunkWriter = some cw) (hstrip : cw.currentStrip = some shards) :
    Yields (shards = [] ∨ Even scheme shards)
      (fun w' => (shards = [] ∨ Even scheme shards) ∧
        w' = sealedWith config w cw.chunkId (cw.bytesInChunk + shards.flatten.length))
      (w.sealCurrent config scheme) := by
  cases hshards : shards with
  | nil =>
    refine .of_eq (sealCurrent_of_ok hw ?_) ⟨.inl rfl, rfl⟩
    rw [ChunkWriter.sealStrip, hstrip, hshards]
  | cons shard rest =>
    rw [← hshards]
    have hfinish : Yields (Even scheme shards) _ _ := ChunkWriter.finishStrip_yields hstrip
    have hseal : cw.sealStrip scheme = cw.finishStrip scheme := by
      rw [ChunkWriter.sealStrip, hstrip, hshards]
    cases heq : cw.finishStrip scheme with
    | ok cw' =>
      rw [heq] at hfinish
      obtain ⟨heven, rfl⟩ := hfinish
      exact .of_eq (sealCurrent_of_ok hw (hseal.trans heq)) ⟨.inr heven, rfl⟩
    | error e =>
      rw [heq] at hfinish
      rw [sealCurrent, hw]
      simp only [hseal, heq]
      rintro (hnil | heven)
      · rw [hshards] at hnil
        cases hnil
      · exact hfinish heven

theorem Full.sealed (h : w.Full config scheme objectSize cw blocks)
    (hsize : 0 < config.readBufferSize)
    (hdata : 0 < scheme.dataNum) :
    (sealedWith config w cw.chunkId cw.bytesInChunk).Rotating config scheme objectSize blocks := by
  have hpos : 0 < chunkBlocks config scheme * config.readBufferSize :=
    Nat.mul_pos (Nat.mul_pos chunkStrips_pos hdata) hsize
  rw [sealedWith, h.bytes, if_neg hpos.ne']
  refine ⟨rfl, h.full, ?_, h.disk, ?_, ?_, ?_, fun _ => h.opened⟩
  · rw [h.count, h.newest]
  · rw [h.newest, range_succ, map_append, map_singleton, ← h.closed.locations, fullLocation,
      h.closed.offset]
  · rw [h.newest, h.closed.offset, Nat.succ_mul]
  · rw [h.newest, range_succ, map_append, map_singleton, ← h.closed.sealed]

theorem Full.rotateChunk_yields (h : w.Full config scheme objectSize cw blocks)
    (hsize : 0 < config.readBufferSize) (hdata : 0 < scheme.dataNum) :
    Yields (0 < config.stripDataBytes scheme)
      (fun w' => ∃ cw, w'.Filling config scheme objectSize cw blocks [])
      (w.rotateChunk config scheme objectSize) := by
  have hseal : cw.sealStrip scheme = .ok cw := by rw [ChunkWriter.sealStrip, h.strip]
  rw [rotateChunk, sealCurrent_of_ok h.current hseal]
  exact (h.sealed hsize hdata).ensureOpen_yields

/-- **One block**: it gets the next segment, when the strip of that segment can be opened. -/
theorem Awaits.pushBlock_yields (h : Awaits config scheme objectSize blocks w)
    (hsize : 0 < config.readBufferSize) (hn : blocks.length < n) :
    Yields (Runs config scheme objectSize n)
      (fun w' => ∃ cw done shards, w'.Filling config scheme objectSize cw done (shards ++ [block]) ∧
        blocks = done ++ shards ∧ ∀ s ∈ shards, s.length = config.readBufferSize)
      (w.pushBlock config scheme objectSize ahead block) := by
  refine (h.ensureOpen_yields.weaken Runs.data).bind ?_
  rintro w ⟨cw, done, shards, hw, rfl, hsizes⟩
  have hdata := dataNum_pos hw.data
  by_cases hroom : shards.length < scheme.dataNum
  · refine (hw.tryPush_room hroom).bind ?_
    rintro ⟨_, w⟩ ⟨rfl, cw, hw⟩
    exact ⟨cw, done, shards, hw, rfl, hsizes⟩
  · have hfull : shards.length = scheme.dataNum := Nat.le_antisymm hw.few (Nat.not_lt.1 hroom)
    refine (hw.tryPush_full hfull hsizes hsize hn).bind ?_
    rintro ⟨_, w⟩ (⟨rfl, -, cw, hw⟩ | ⟨rfl, cw, hw⟩)
    · exact ⟨cw, done ++ shards, [], hw, (append_nil _).symm, nofun⟩
    · -- the next chunk gets the block
      refine ((hw.rotateChunk_yields hsize hdata).weaken Runs.data).bind ?_
      rintro w ⟨cw, hw⟩
      refine (hw.tryPush_room hdata).bind ?_
      rintro ⟨_, w⟩ ⟨rfl, cw, hw⟩
      exact ⟨cw, done ++ shards, [], hw, (append_nil _).symm, nofun⟩

theorem awaits_nil : Awaits config scheme objectSize [] ({} : StreamWriter α) :=
  .inl ⟨rfl, nofun, by simp, rfl, rfl, by simp, rfl, fun h => absurd h (lt_irrefl 0)⟩

/-- **A run of full blocks.** -/
theorem pushBlocks_yields (hsize : 0 < config.readBufferSize) (hn : blocks.length ≤ n)
    (hblocks : ∀ b ∈ blocks, b.length = config.readBufferSize) :
    Yields (Runs config scheme objectSize n) (Awaits config scheme objectSize blocks)
      (blocks.foldlM (pushBlock config scheme objectSize ahead) {}) := by
  refine Yields.foldlM awaits_nil fun before block rest w heq hw => ?_
  have hlen : before.length < n := by
    have := congrArg length heq
    rw [length_append, length_cons] at this
    omega
  refine (hw.pushBlock_yields hsize hlen).mono ?_
  rintro w ⟨cw, done, shards, hfilling, rfl, hsizes⟩
  refine .inr ⟨cw, done, shards ++ [block], hfilling, append_assoc _ _ _, fun s hs => ?_⟩
  rcases mem_append.1 hs with hs | hs
  · exact hsizes s hs
  · rw [mem_singleton.1 hs]
    exact hblocks block (by simp [heq])

/-! ## The end of a write -/

/-- A finished write: `c` full chunks, and one more with the rest of the blocks. -/
structure Finished (config : ChunkClientConfig) (scheme : EcScheme) (w : StreamWriter α)
    (blocks : List (List α)) (c : ℕ) : Prop where
  few : c * chunkBlocks config scheme ≤ blocks.length
  last : blocks.length ≤ (c + 1) * chunkBlocks config scheme
  full : ∀ b ∈ blocks.take (c * chunkBlocks config scheme), b.length = config.readBufferSize
  disk : w.disk = blocks.mapIdx (place config scheme)
  locations : w.locations = (List.range c).map (fullLocation config scheme) ++
    let bytes := (blocks.drop (c * chunkBlocks config scheme)).flatten.length
    if bytes = 0 then []
    else [⟨c, 0, bytes, c * (chunkBlocks config scheme * config.readBufferSize), bytes⟩]
  sealed : w.sealed = (List.range c).map (fun i =>
      (i, sealUnits config (chunkBlocks config scheme * config.readBufferSize))) ++
    let bytes := (blocks.drop (c * chunkBlocks config scheme)).flatten.length
    if bytes = 0 then [] else [(c, sealUnits config bytes)]

theorem Filling.finished (h : w.Filling config scheme objectSize cw done shards) :
    (sealedWith config w cw.chunkId (cw.bytesInChunk + shards.flatten.length)).Finished config scheme
      (done ++ shards) cw.chunkId := by
  have hle : cw.chunkId * chunkBlocks config scheme ≤ done.length := by
    rw [h.count]
    exact Nat.le_add_right _ _
  have hbytes : cw.bytesInChunk + shards.flatten.length =
      ((done ++ shards).drop (cw.chunkId * chunkBlocks config scheme)).flatten.length := by
    have hrest : ∀ b ∈ done.drop (cw.chunkId * chunkBlocks config scheme), b.length =
      config.readBufferSize :=
      fun b hb => h.full b (mem_of_mem_drop hb)
    rw [drop_append_of_le_length hle, flatten_append, length_append, flatten_length_of_full hrest,
      length_drop, h.count, Nat.add_sub_cancel_left, h.bytes]
  have hlast : (done ++ shards).length ≤ (cw.chunkId + 1) * chunkBlocks config scheme := by
    have hroom := Nat.mul_le_mul_right scheme.dataNum (Nat.succ_le_of_lt h.room)
    rw [Nat.succ_mul, ← chunkBlocks] at hroom
    have hfew := h.few
    rw [length_append, h.count, Nat.succ_mul]
    omega
  have hfull : ∀ b ∈ (done ++ shards).take (cw.chunkId * chunkBlocks config scheme),
      b.length = config.readBufferSize := by
    rw [take_append_of_le_length hle]
    exact fun b hb => h.full b (mem_of_mem_take hb)
  rw [sealedWith, hbytes]
  split_ifs with hzero
  · refine ⟨by rw [length_append]; omega, hlast, hfull, h.disk, ?_, ?_⟩
    · simp only [hzero, if_true, append_nil, h.closed.locations]
    · simp only [hzero, if_true, append_nil, h.closed.sealed]
  · refine ⟨by rw [length_append]; omega, hlast, hfull, h.disk, ?_, ?_⟩
    · simp only [hzero, if_false, h.closed.locations, h.closed.offset]
    · simp only [hzero, if_false, h.closed.sealed]

/-- The strips of a write could be opened. -/
theorem Filling.canOpen (h : w.Filling config scheme objectSize cw done shards) :
    CanOpen config scheme objectSize (stripsUsed config scheme (done ++ shards).length) := by
  rcases Nat.eq_zero_or_pos cw.chunkId with hzero | hpos
  · refine h.opened.mono ((Nat.min_le_right _ _).trans ?_)
    rw [ceilDiv_le_iff_le_mul (dataNum_pos h.data), length_append, h.count, hzero,
      Nat.zero_mul, Nat.zero_add,
      Nat.mul_comm scheme.dataNum, Nat.succ_mul]
    exact Nat.add_le_add_left h.few _
  · exact (h.closed.opened hpos).mono (Nat.min_le_left _ _)

/-- The parity of the last strip can be computed: its last block is as long as the others, or
    alone. -/
def Seals (config : ChunkClientConfig) (scheme : EcScheme) (before : ℕ) (last : List α) : Prop :=
  0 < scheme.codeNum ∧ (last.length = config.readBufferSize ∨ before % scheme.dataNum = 0)

theorem Filling.even_iff (h : w.Filling config scheme objectSize cw done (shards ++ [block]))
    (hsizes : ∀ s ∈ shards, s.length = config.readBufferSize) :
    Even scheme (shards ++ [block]) ↔ Seals config scheme (done ++ shards).length block := by
  have hfew := h.few
  rw [length_append, length_singleton] at hfew
  have hmod : (done ++ shards).length % scheme.dataNum = shards.length := by
    rw [length_append, h.count, chunkBlocks, ← Nat.mul_assoc, ← Nat.add_mul]
    exact Nat.mul_add_mod_of_lt hfew
  rw [Seals, hmod, length_eq_zero_iff]
  constructor
  · intro heven
    refine ⟨heven.code, or_iff_not_imp_right.2 fun hne => ?_⟩
    obtain ⟨s, hs⟩ := exists_mem_of_ne_nil shards hne
    rw [← hsizes s hs]
    exact heven.sizes _ (by simp) s (by simp [hs])
  · rintro ⟨hcode, hlast⟩
    refine ⟨dataNum_pos h.data, hcode, by simp, h.few, ?_⟩
    rcases hlast with hlast | rfl
    · have hall : ∀ s ∈ shards ++ [block], s.length = config.readBufferSize := by
        simpa [or_imp, forall_and] using ⟨hsizes, hlast⟩
      exact fun s hs s' hs' => (hall s hs).trans (hall s' hs').symm
    · simp

/-- **Blocks, the last of which may be short**, up to the seal of the last chunk. -/
theorem pushSeal_yields {last : List α} (hsize : 0 < config.readBufferSize)
    (hblocks : ∀ b ∈ blocks, b.length = config.readBufferSize)
    {finish : StreamWriter α → Except WriteError (StreamWriter α)}
    (hfinish : ∀ w : StreamWriter α, w.chunkWriter ≠ none → finish w = w.sealCurrent config scheme) :
    Yields (Runs config scheme objectSize (blocks.length + 1) ∧
      Seals config scheme blocks.length last)
      (fun w => (Runs config scheme objectSize (blocks.length + 1) ∧
        Seals config scheme blocks.length last) ∧
        ∃ c, w.Finished config scheme (blocks ++ [last]) c)
      ((blocks ++ [last]).foldlM (pushBlock config scheme objectSize ahead) {} >>= finish) := by
  rw [foldlM_append, bind_assoc]
  refine ((pushBlocks_yields hsize (Nat.le_succ _) hblocks).weaken And.left).bind fun w hw => ?_
  rw [foldlM_cons, bind_assoc]
  refine ((hw.pushBlock_yields hsize (Nat.lt_succ_self _)).weaken And.left).bind ?_
  rintro w ⟨cw, done, shards, hfilling, rfl, hsizes⟩
  have hne : w.chunkWriter ≠ none := by simp [hfilling.current]
  have heven := hfilling.even_iff hsizes
  rw [foldlM_nil, pure_bind, hfinish w hne]
  refine ((sealCurrent_yields hfilling.current hfilling.strip).weaken fun h =>
    .inr (heven.2 h.2)).mono ?_
  rintro w ⟨hseals, rfl⟩
  have hseals := hseals.resolve_left (by simp)
  have hfinished := hfilling.finished
  have hopened := hfilling.canOpen
  rw [← append_assoc] at hfinished hopened
  have hlen : (done ++ shards ++ [last]).length = (done ++ shards).length + 1 := length_append
  rw [hlen] at hopened
  exact ⟨⟨⟨fun _ => hseals.code, hfilling.data, hopened⟩, heven.1 hseals⟩, _, hfinished⟩

end StreamWriter

/-! ## What locations describe -/

section Describes

variable (disk : List (DataWrite α))

/-- The blocks that are written to a chunk. -/
def chunkWrites (chunkId : ℕ) : List (DataWrite α) := disk.filter fun d => d.chunkId = chunkId

/-- The bytes of a chunk. -/
def chunkBytes (chunkId : ℕ) : List α := (chunkWrites disk chunkId).flatMap DataWrite.data

/-- The bytes that a location names. -/
def Location.describes (l : Location) : List α :=
  ((chunkBytes disk l.chunkId).drop l.offset).take l.length

end Describes

/-- The locations follow each other in the object from `start` on. -/
def Contiguous : ℕ → List Location → Prop
  | _, [] => True
  | start, l :: ls =>
    l.logicalOffset = start ∧ l.logicalLength = l.length ∧ Contiguous (start + l.length) ls

theorem Contiguous.concat {start : ℕ} {ls : List Location} {l : Location} (h : Contiguous start ls)
    (hoffset : l.logicalOffset = start + (ls.map Location.length).sum)
    (hlen : l.logicalLength = l.length) :
    Contiguous start (ls ++ [l]) := by
  induction ls generalizing start with
  | nil => exact ⟨by simpa using hoffset, hlen, trivial⟩
  | cons _ _ ih =>
    refine ⟨h.1, h.2.1, ih h.2.2 ?_⟩
    rw [hoffset, map_cons, sum_cons, Nat.add_assoc]

theorem sum_length_fullLocation (config : ChunkClientConfig) (scheme : EcScheme) (c : ℕ) :
    (((List.range c).map (fullLocation config scheme)).map Location.length).sum =
      c * (chunkBlocks config scheme * config.readBufferSize) := by
  induction c with
  | zero => simp
  | succ c ih =>
    rw [range_succ, map_append, map_append, sum_append, ih, Nat.succ_mul]
    simp [fullLocation]

theorem contiguous_fullLocation (config : ChunkClientConfig) (scheme : EcScheme) (c : ℕ) :
    Contiguous 0 ((List.range c).map (fullLocation config scheme)) := by
  induction c with
  | zero => trivial
  | succ c ih =>
    rw [range_succ, map_append, map_singleton]
    refine ih.concat ?_ rfl
    rw [sum_length_fullLocation, Nat.zero_add, fullLocation]

/-- The blocks of a chunk, when each block is at its place. -/
theorem map_data_chunkWrites (hpos : 0 < chunkBlocks config scheme) (blocks : List (List α)) (i : ℕ) :
    (chunkWrites (blocks.mapIdx (place config scheme)) i).map DataWrite.data =
      (blocks.drop (i * chunkBlocks config scheme)).take (chunkBlocks config scheme) := by
  induction blocks using reverseRecOn with
  | nil => simp [chunkWrites]
  | append_singleton blocks block ih =>
    have hone : (chunkWrites [place config scheme blocks.length block] i).map DataWrite.data =
        if blocks.length / chunkBlocks config scheme = i then [block] else [] := by
      by_cases h : blocks.length / chunkBlocks config scheme = i
      · simp [chunkWrites, place, h]
      · simp [chunkWrites, place, h]
    have hdiv : blocks.length / chunkBlocks config scheme = i ↔
        i * chunkBlocks config scheme ≤ blocks.length ∧
          blocks.length < i * chunkBlocks config scheme + chunkBlocks config scheme := by
      rw [Nat.div_eq_iff hpos]
      omega
    rw [mapIdx_concat, chunkWrites, filter_append, ← chunkWrites, ← chunkWrites, map_append, ih, hone]
    split_ifs with hin
    · obtain ⟨hle, hlt⟩ := hdiv.1 hin
      rw [drop_append_of_le_length hle, take_of_length_le, take_of_length_le]
      · rw [length_append, length_drop, length_singleton]
        omega
      · rw [length_drop]
        omega
    · rw [append_nil]
      rcases Nat.lt_or_ge blocks.length (i * chunkBlocks config scheme) with hlt | hge
      · rw [drop_eq_nil_of_le hlt.le, drop_eq_nil_of_le (by simpa using hlt)]
      · have hafter : chunkBlocks config scheme ≤
          (blocks.drop (i * chunkBlocks config scheme)).length := by
          rw [length_drop]
          have := mt hdiv.2 hin
          omega
        rw [drop_append_of_le_length hge, take_append_of_le_length hafter]

theorem chunkBytes_places (hpos : 0 < chunkBlocks config scheme) (blocks : List (List α)) (i : ℕ) :
    chunkBytes (blocks.mapIdx (place config scheme)) i =
      ((blocks.drop (i * chunkBlocks config scheme)).take (chunkBlocks config scheme)).flatten := by
  rw [chunkBytes, flatMap_def, map_data_chunkWrites hpos]

theorem flatMap_fullLocation (hpos : 0 < chunkBlocks config scheme) (blocks : List (List α)) {c : ℕ}
    (hfull : ∀ b ∈ blocks.take (c * chunkBlocks config scheme), b.length = config.readBufferSize) :
    ((List.range c).map (fullLocation config scheme)).flatMap
      (Location.describes (blocks.mapIdx (place config scheme))) =
      (blocks.take (c * chunkBlocks config scheme)).flatten := by
  induction c with
  | zero => simp
  | succ c ih =>
    rw [Nat.succ_mul, take_add] at hfull
    have hchunk : (fullLocation config scheme c).describes (blocks.mapIdx (place config scheme)) =
        ((blocks.drop (c * chunkBlocks config scheme)).take (chunkBlocks config scheme)).flatten := by
      rw [Location.describes, fullLocation, chunkBytes_places hpos, drop_zero, take_of_length_le]
      rw [flatten_length_of_full fun b hb => hfull b (mem_append_right _ hb), length_take]
      exact Nat.mul_le_mul_right _ (Nat.min_le_left _ _)
    rw [range_succ, map_append, flatMap_append, ih fun b hb => hfull b (mem_append_left _ hb),
      map_singleton,
      flatMap_singleton, hchunk, Nat.succ_mul, take_add, flatten_append]

namespace StreamWriter

/-- The locations of a finished write describe its blocks. -/
theorem Finished.described {c : ℕ} (h : w.Finished config scheme blocks c)
    (hpos : 0 < chunkBlocks config scheme) :
    w.locations.flatMap (Location.describes w.disk) = blocks.flatten := by
  rw [h.locations, h.disk, flatMap_append, flatMap_fullLocation hpos blocks h.full]
  conv_rhs => rw [← take_append_drop (c * chunkBlocks config scheme) blocks, flatten_append]
  congr 1
  dsimp only
  split_ifs with hzero
  · exact (eq_nil_of_length_eq_zero hzero).symm
  · have hlast : (blocks.drop (c * chunkBlocks config scheme)).length ≤
      chunkBlocks config scheme := by
      have := h.last
      rw [Nat.succ_mul] at this
      rw [length_drop]
      omega
    rw [flatMap_singleton, Location.describes, chunkBytes_places hpos, drop_zero,
      take_of_length_le hlast,
      take_length]

theorem Finished.contiguous {c : ℕ} (h : w.Finished config scheme blocks c) :
    Contiguous 0 w.locations := by
  rw [h.locations]
  dsimp only
  split_ifs
  · rw [append_nil]
    exact contiguous_fullLocation config scheme c
  · refine (contiguous_fullLocation config scheme c).concat ?_ rfl
    rw [sum_length_fullLocation, Nat.zero_add]

end StreamWriter

/-! ## Exact writes -/

section Exact

variable (config : ChunkClientConfig) (scheme : EcScheme) (unitSizeKb : ℕ)

/-- The locations of a finished write describe `bytes`, in order and without gaps; each block is in
    the next data segment, and inside it. -/
structure StreamWriter.Describes (w : StreamWriter α) (bytes : List α) : Prop where
  described : w.locations.flatMap (Location.describes w.disk) = bytes
  contiguous : Contiguous 0 w.locations
  placed : w.disk = (blocksOf config.readBufferSize bytes).mapIdx (place config scheme)
  inside : ∀ d ∈ w.disk, d.data.length ≤ config.segmentBytes scheme unitSizeKb d.strip

/-- A stream write is exact, or fails when the reader fails. -/
structure Exact (reads : List (ReadResult α)) (result : Except WriteError (StreamWriter α)) :
    Prop where
  exact : readFails reads = false → ∃ w, result = .ok w ∧ w.Describes config scheme unitSizeKb
    (delivered reads)
  fails : readFails reads = true → ∀ w, result ≠ .ok w

/-- The stream ends within a block that is not the first one of its strip. -/
def ragged (length : ℕ) : Bool :=
  decide (length % config.readBufferSize ≠ 0 ∧
    config.readBufferSize ≤ length % (config.readBufferSize * scheme.dataNum))

/-- A stream of `length` bytes can be written: the strips have data, the first chunk gets the strips
    that it needs, and the parity of all of them can be computed. -/
structure Writes (objectSize : Option ℕ) (length : ℕ) : Prop where
  data : 0 < config.stripDataBytes scheme
  code : 0 < length → 0 < scheme.codeNum
  opens : CanOpen config scheme objectSize
    (stripsUsed config scheme (length ⌈/⌉ config.readBufferSize))
  even : ragged config scheme length = false

/-- Each block of a stream of `length` bytes is not longer than its segment. -/
def FitsSegments (length : ℕ) : Prop :=
  ∀ i, i * config.readBufferSize < length →
    min config.readBufferSize (length - i * config.readBufferSize) ≤
    config.segmentBytes scheme unitSizeKb (i % chunkBlocks config scheme / scheme.dataNum)

end Exact

theorem blocksOf_flatten (blockSize : ℕ) (bytes : List α) :
    (blocksOf blockSize bytes).flatten = bytes := by
  conv_rhs => rw [← splitBlocks_flatten blockSize bytes]
  rw [blocksOf, flatten_append]
  split_ifs with hempty
  · rw [isEmpty_iff.1 hempty, flatten_nil]
  · rw [flatten_singleton]

theorem delivered_cons {bytes : List α} (h : bytes ≠ []) (reads : List (ReadResult α)) :
    delivered (.ok bytes :: reads) = bytes ++ delivered reads := by
  cases bytes with
  | nil => exact absurd rfl h
  | cons => rw [delivered]

theorem blocksOf_nil (hsize : 0 < blockSize) : blocksOf blockSize ([] : List α) = [] :=
  blocksOf_of_lt hsize

/-- The blocks of some bytes: the last one may be shorter. -/
theorem blocksOf_eq_concat (hsize : 0 < blockSize) {bytes : List α} (hne : bytes ≠ []) :
    ∃ blocks last, blocksOf blockSize bytes = blocks ++ [last] ∧
      (∀ b ∈ blocks, b.length = blockSize) ∧
      last.length ∈ Set.Ioc 0 blockSize ∧ blocks.flatten ++ last = bytes := by
  have hflat := splitBlocks_flatten blockSize bytes
  have hfull : ∀ b ∈ (splitBlocks blockSize bytes).1, b.length = blockSize := splitBlocks_full bytes
  have hrest := splitBlocks_rest_lt hsize bytes
  rw [blocksOf]
  split_ifs with hempty
  · rw [isEmpty_iff.1 hempty, append_nil] at hflat
    rcases eq_nil_or_concat (splitBlocks blockSize bytes).1 with hnil | ⟨blocks, last, heq⟩
    · rw [hnil] at hflat
      exact absurd hflat.symm hne
    · rw [concat_eq_append] at heq
      rw [heq] at hflat hfull ⊢
      have hlast : last.length = blockSize := hfull last (by simp)
      refine ⟨blocks, last, append_nil _, fun b hb => hfull b (by simp [hb]),
        ⟨by omega, hlast.le⟩, ?_⟩
      simpa using hflat
  · exact ⟨_, _, rfl, hfull, ⟨length_pos_of_ne_nil (by simpa using hempty), hrest.le⟩, hflat⟩

section Lengths

variable {last : List α} (hlast : last.length ∈ Set.Ioc 0 config.readBufferSize)

include hlast

theorem ceilDiv_length (k : ℕ) :
    (k * config.readBufferSize + last.length) ⌈/⌉ config.readBufferSize = k + 1 := by
  obtain ⟨hpos, hle⟩ := hlast
  rw [Nat.ceilDiv_eq_add_pred_div]
  refine Nat.div_eq_of_lt_le ?_ ?_
  · rw [Nat.succ_mul]
    omega
  · rw [Nat.succ_mul, Nat.succ_mul]
    omega

theorem ragged_eq_false_iff (scheme : EcScheme) (k : ℕ) :
    ragged config scheme (k * config.readBufferSize + last.length) = false ↔
    last.length = config.readBufferSize ∨ k % scheme.dataNum = 0 := by
  obtain ⟨hpos, hle⟩ := hlast
  have hsize : 0 < config.readBufferSize := Nat.lt_of_lt_of_le hpos hle
  rw [ragged, decide_eq_false_iff_not, not_and_or, not_not, Nat.not_le]
  rcases Nat.eq_or_lt_of_le hle with heq | hlt
  · simp [heq]
  · have hdiv : (k * config.readBufferSize + last.length) % (config.readBufferSize * scheme.dataNum) /
        config.readBufferSize = k % scheme.dataNum := by
      rw [Nat.mod_mul_right_div_self, mul_add_div_of_lt hlt]
    rw [Nat.mul_add_mod_of_lt hlt, ← hdiv, Nat.div_eq_zero_iff_lt hsize]
    omega

theorem writes_iff (k : ℕ) :
    Writes config scheme objectSize (k * config.readBufferSize + last.length) ↔
    StreamWriter.Runs config scheme objectSize (k + 1) ∧ StreamWriter.Seals config scheme k last := by
  have hpos : 0 < k * config.readBufferSize + last.length := Nat.add_pos_right _ hlast.1
  have hceil := ceilDiv_length hlast k
  have hragged := ragged_eq_false_iff hlast scheme k
  constructor
  · rintro ⟨hdata, hcode, hopens, heven⟩
    rw [hceil] at hopens
    exact ⟨⟨fun _ => hcode hpos, hdata, hopens⟩, hcode hpos, hragged.1 heven⟩
  · rintro ⟨⟨-, hdata, hopens⟩, hcode, heven⟩
    rw [← hceil] at hopens
    exact ⟨hdata, fun _ => hcode, hopens, hragged.2 heven⟩

end Lengths

theorem length_of_full {last : List α} (hfull : ∀ b ∈ blocks, b.length = config.readBufferSize) :
    (blocks.flatten ++ last).length = blocks.length * config.readBufferSize + last.length := by
  rw [length_append, flatten_length_of_full hfull]

theorem length_block {last : List α} (hfull : ∀ b ∈ blocks, b.length = config.readBufferSize)
    (hle : last.length ≤ config.readBufferSize) {i : ℕ} (hi : i < (blocks ++ [last]).length) :
    (blocks ++ [last])[i].length =
      min config.readBufferSize ((blocks.flatten ++ last).length - i * config.readBufferSize) := by
  rw [length_of_full hfull]
  rcases Nat.lt_or_ge i blocks.length with hlt | hge
  · have hmul := Nat.mul_le_mul_right config.readBufferSize (Nat.succ_le_of_lt hlt)
    rw [Nat.succ_mul] at hmul
    rw [getElem_append_left hlt, hfull _ (getElem_mem hlt)]
    omega
  · rw [length_append, length_singleton] at hi
    obtain rfl : i = blocks.length := by omega
    rw [getElem_concat_length rfl]
    omega

/-- The blocks of the bytes are inside their segments. -/
theorem fitsSegments_iff (hsize : 0 < config.readBufferSize) (unitSizeKb : ℕ) (bytes : List α) :
    (∀ d ∈ (blocksOf config.readBufferSize bytes).mapIdx (place config scheme),
      d.data.length ≤ config.segmentBytes scheme unitSizeKb d.strip) ↔
    FitsSegments config scheme unitSizeKb bytes.length := by
  rcases eq_or_ne bytes [] with rfl | hne
  · simp [blocksOf_nil hsize, FitsSegments]
  · obtain ⟨blocks, last, heq, hfull, ⟨hpos, hle⟩, rfl⟩ := blocksOf_eq_concat hsize hne
    have hlast : ∀ i, i * config.readBufferSize < (blocks.flatten ++ last).length ↔
        i < (blocks ++ [last]).length := by
      intro i
      rw [length_of_full hfull, length_append, length_singleton, Nat.lt_succ_iff]
      refine ⟨fun h => ?_, fun h => ?_⟩
      · refine Nat.le_of_lt_succ (Nat.lt_of_mul_lt_mul_right (a := config.readBufferSize) ?_)
        rw [Nat.succ_mul]
        omega
      · have := Nat.mul_le_mul_right config.readBufferSize h
        omega
    simp only [heq, mem_mapIdx, FitsSegments, hlast]
    refine ⟨fun h i hi => ?_, ?_⟩
    · rw [← length_block hfull hle hi]
      exact h _ ⟨i, hi, rfl⟩
    · rintro h _ ⟨i, hi, rfl⟩
      rw [place, length_block hfull hle hi]
      exact h i hi

namespace StreamWriter

theorem Finished.describes_iff {c : ℕ} {bytes : List α}
    (h : w.Finished config scheme (blocksOf config.readBufferSize bytes) c)
    (hwrites : 0 < config.stripDataBytes scheme) (hsize : 0 < config.readBufferSize)
    (unitSizeKb : ℕ) :
    w.Describes config scheme unitSizeKb bytes ↔
      FitsSegments config scheme unitSizeKb bytes.length := by
  have hpos : 0 < chunkBlocks config scheme := Nat.mul_pos chunkStrips_pos (dataNum_pos hwrites)
  rw [← fitsSegments_iff hsize, ← h.disk]
  refine ⟨Describes.inside, fun hinside => ⟨?_, h.contiguous, h.disk, hinside⟩⟩
  rw [h.described hpos, blocksOf_flatten]

/-- **The drive loop** returns exactly if the stream can be written. -/
theorem drive_yields (hsize : 0 < config.readBufferSize) (bytes : List α) :
    Yields (Writes config scheme objectSize bytes.length)
      (fun w => Writes config scheme objectSize bytes.length ∧
        ∃ c, w.Finished config scheme (blocksOf config.readBufferSize bytes) c)
      (drive config scheme objectSize ahead (blocksOf config.readBufferSize bytes)) := by
  rcases eq_or_ne bytes [] with rfl | hne
  · rw [blocksOf_nil hsize, drive, foldlM_nil, pure_bind]
    refine (awaits_nil.ensureOpen_yields.weaken Writes.data).bind ?_
    rintro w ⟨cw, done, shards, hfilling, hnil, -⟩
    obtain ⟨rfl, rfl⟩ := nil_eq_append_iff.1 hnil
    refine ((sealCurrent_yields hfilling.current hfilling.strip).weaken fun _ => .inl rfl).mono ?_
    rintro w ⟨-, rfl⟩
    refine ⟨⟨hfilling.data, fun h => absurd h (lt_irrefl 0), .inl ?_, by simp [ragged]⟩,
      _, hfilling.finished⟩
    simp [stripsUsed]
  · obtain ⟨blocks, last, heq, hfull, hlast, rfl⟩ := blocksOf_eq_concat hsize hne
    rw [length_of_full hfull, writes_iff hlast, heq]
    refine pushSeal_yields hsize hfull fun w hw => ?_
    obtain ⟨cw, hcw⟩ := Option.ne_none_iff_exists'.1 hw
    rw [ensureOpen_of_some hcw]
    rfl

theorem writeStream_yields (scheme : EcScheme) (ahead : ℕ → ℕ) (hsize : 0 < config.readBufferSize)
    (hzero : objectSize ≠ some 0) (reads : List (ReadResult α)) :
    Yields (Writes config scheme objectSize (delivered reads).length)
      (fun w => Writes config scheme objectSize (delivered reads).length ∧
        ∃ c, w.Finished config scheme (blocksOf config.readBufferSize (delivered reads)) c)
      (writeStream config scheme objectSize ahead reads) := by
  have hempty : ([] : List α).length < config.readBufferSize := hsize
  rw [writeStream, if_neg hzero, runFetchStage_eq hsize hempty, nil_append]
  exact drive_yields hsize (delivered reads)

/-- **Stream writes are exact or fail**: exactly if the stream can be written when the reader does not
    fail, and cannot when it does. -/
theorem exact_iff (config : ChunkClientConfig) (scheme : EcScheme) (unitSizeKb : ℕ)
    (objectSize : Option ℕ)
    (ahead : ℕ → ℕ) (reads : List (ReadResult α)) (hconfig : config.validate = .ok ()) :
    Exact config scheme unitSizeKb reads (writeStream config scheme objectSize ahead reads) ↔
      if objectSize = some 0 then readFails reads = false ∧ delivered reads = []
      else if readFails reads then ¬ Writes config scheme objectSize (delivered reads).length
      else Writes config scheme objectSize (delivered reads).length ∧
        FitsSegments config scheme unitSizeKb (delivered reads).length := by
  have hsize := config.readBufferSize_pos hconfig
  by_cases hzero : objectSize = some 0
  · rw [if_pos hzero, writeStream, if_pos hzero]
    constructor
    · rintro ⟨hexact, hfails⟩
      have hread : readFails reads = false := by
        by_contra hread
        exact hfails (by simpa using hread) _ rfl
      obtain ⟨_, ⟨⟩, hdescribes⟩ := hexact hread
      exact ⟨hread, hdescribes.described.symm⟩
    · rintro ⟨hread, hnil⟩
      refine ⟨fun _ => ⟨_, rfl, ?_⟩, fun h => absurd (hread.symm.trans h) Bool.false_ne_true⟩
      rw [hnil]
      exact ⟨rfl, trivial, by rw [blocksOf_nil hsize]; rfl, nofun⟩
  · obtain ⟨hpost, hok⟩ := Yields.iff.1 (writeStream_yields scheme ahead hsize hzero reads)
    rw [if_neg hzero]
    cases hread : readFails reads with
    | true =>
      rw [if_pos rfl]
      constructor
      · intro hexact hwrites
        obtain ⟨w, hw⟩ := hok hwrites
        exact hexact.fails hread w hw
      · intro hwrites
        refine ⟨fun h => absurd (h.symm.trans hread) Bool.false_ne_true, fun _ w hw =>
          hwrites (hpost w hw).1⟩
    | false =>
      rw [if_neg Bool.false_ne_true]
      constructor
      · intro hexact
        obtain ⟨w, hw, hdescribes⟩ := hexact.exact hread
        obtain ⟨hwrites, c, hfinished⟩ := hpost w hw
        exact ⟨hwrites, (hfinished.describes_iff hwrites.data hsize unitSizeKb).1 hdescribes⟩
      · rintro ⟨hwrites, hfits⟩
        obtain ⟨w, hw⟩ := hok hwrites
        obtain ⟨-, c, hfinished⟩ := hpost w hw
        exact ⟨fun _ => ⟨w, hw, (hfinished.describes_iff hwrites.data hsize unitSizeKb).2 hfits⟩,
          fun h => absurd (hread.symm.trans h) Bool.false_ne_true⟩

/-- Two bytes in two reads. -/
theorem exact_two_reads : Exact {} ⟨4, 2⟩ 1024 [.ok [7], .ok [8]]
    (writeStream {} ⟨4, 2⟩ none (fun _ => 0) [.ok [7], .ok [8]]) := by
  refine (exact_iff {} ⟨4, 2⟩ 1024 none (fun _ => 0) [.ok [7], .ok [8]] rfl).2
    ⟨⟨?_, ?_, .inl ?_, ?_⟩, ?_⟩
  · decide
  · decide
  · decide
  · decide
  · intro i hi
    obtain rfl : i = 0 := by
      simp [delivered] at hi
      omega
    decide

/-- One byte and a read error are taken as the whole stream; one block and one byte are refused. -/
theorem error_accepted_and_short_block_refused :
    (∃ w, writeStream {} ⟨4, 2⟩ none (fun _ => 0) [.ok [7], .err] = .ok w) ∧
      ∀ w, writeStream {} ⟨4, 2⟩ none
        (fun _ => 0) [.ok (List.replicate 0x100000 7), .ok [8]] ≠ .ok w := by
  have hsize : 0 < ({} : ChunkClientConfig).readBufferSize := by decide
  refine ⟨?_, fun w hw => ?_⟩
  · refine (Yields.iff.1 (writeStream_yields ⟨4, 2⟩ (fun _ => 0) hsize (by simp) [.ok [7], .err])).2
      ?_
    exact ⟨by decide, by decide, .inl (by decide), by decide⟩
  · obtain ⟨hwrites, -⟩ := (Yields.iff.1 (writeStream_yields ⟨4, 2⟩ (fun _ => 0) hsize
      (by simp) _)).1 w hw
    have hsome : replicate 0x100000 7 ≠ [] := ne_nil_of_length_pos (by rw [length_replicate]; decide)
    have heven := hwrites.even
    rw [delivered_cons hsome, length_append, length_replicate] at heven
    revert heven
    decide

end StreamWriter

end CrowDB
