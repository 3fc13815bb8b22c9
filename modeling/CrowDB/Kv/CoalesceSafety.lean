/-
  What the coalescer keeps: a batch is what its writes gather one after the other (`Gathered`), no
  round takes more writes than the limit (`Bounded`), and every write is in the batch or in exactly
  one round, in the order of arrival, and has the result of its round (`Tracked`).
-/
import CrowDB.Kv.Coalesce

namespace CrowDB.Kv

open Lib List Option

/-- The batch of some writes. -/
def PendingBatch.gather (ops : List (Option DedupTag × Bytes)) (waiters : List ℕ) : PendingBatch :=
  ⟨ops.flatMap fun op => opBody op.2, min ops.length 65535, roundTags ops, waiters⟩

theorem PendingBatch.gather_join (ops : List (Option DedupTag × Bytes)) (waiters : List ℕ)
    (payload : Bytes)
    (tag : Option DedupTag) (waiter : ℕ) :
    (gather ops waiters).join payload tag waiter = gather (ops ++ [(tag, payload)])
      (waiters ++ [waiter]) := by
  have hcount : min (min ops.length 65535 + 1) 65535 = min (ops.length + 1) 65535 := by omega
  have htag : filterMap Prod.fst [(tag, payload)] = tag.toList := by cases tag <;> rfl
  simp [gather, join, roundTags, hcount, htag]

theorem PendingBatch.payload_gather (ops : List (Option DedupTag × Bytes)) (waiters : List ℕ) :
    (gather ops waiters).round.payload = roundPayload ops := by
  have hhigh : min ops.length 65535 / 256 % 256 = min ops.length 65535 / 256 := by omega
  simp [gather, round, roundPayload, leBytes, hhigh]

namespace Coalescer

/-- The writes of the rounds, in the order of the rounds. -/
def placed (s : Coalescer) : List ℕ := s.rounds.flatMap (·.waiters)

/-- The writes in the batch. -/
def held (s : Coalescer) : List ℕ := s.pending.elim [] (·.waiters)

/-- The payloads of some writes. -/
def ops (s : Coalescer) (waiters : List ℕ) : List (Option DedupTag × Bytes) :=
  waiters.filterMap (s.requests[·]?)

variable {cfg : CoalesceConfig} {s s' : Coalescer} {e : CoalesceEvent} {batch : PendingBatch}
  {round : CoalesceRound}
  {payload : Bytes} {tag : Option DedupTag} {i : ℕ} {phase : RoundPhase} {waiters : List ℕ}
  {ok : Coalescer → CoalesceEvent → Prop}

/-- The write joins the batch, or opens one. -/
def joined (s : Coalescer) (payload : Bytes) (tag : Option DedupTag) (batch : PendingBatch) :
    Coalescer :=
  { s.written payload tag with pending := some (batch.join payload tag s.requests.length) }

/-! ## Rounds under a change of phase -/

theorem getElem?_setPhase {j : ℕ} (h : (s.setPhase i phase).rounds[j]? = some round) :
    ∃ round', s.rounds[j]? = some round' ∧ round = if i = j then
    { round' with phase := phase } else round' := by
  rw [setPhase, getElem?_modify] at h
  obtain ⟨round', hround', heq⟩ := map_eq_some_iff.1 h
  exact ⟨round', hround', heq.symm⟩

theorem mem_setPhase (h : round ∈ (s.setPhase i phase).rounds) :
    round ∈ s.rounds ∨ ∃ round', s.rounds[i]? = some round' ∧ round =
    { round' with phase := phase } := by
  obtain ⟨j, hj⟩ := getElem?_of_mem h
  obtain ⟨round', hround', heq⟩ := getElem?_setPhase hj
  split at heq
  · rename_i hij
    exact .inr ⟨round', hij ▸ hround', heq⟩
  · exact .inl (heq ▸ mem_of_getElem? hround')

theorem placed_setPhase (s : Coalescer) (i : ℕ) (phase : RoundPhase) :
    (s.setPhase i phase).placed = s.placed := by
  have hwaiters : (s.setPhase i phase).rounds.map (·.waiters) = s.rounds.map (·.waiters) := by
    apply ext_getElem?
    intro j
    rw [getElem?_map, getElem?_map, setPhase, getElem?_modify]
    cases s.rounds[j]? with
    | none => rfl
    | some =>
      by_cases hij : i = j <;> simp [hij]
  rw [placed, placed, flatMap_def, flatMap_def, hwaiters]

/-! ## The writes of a batch -/

theorem ops_written (h : ∀ w ∈ waiters, w < s.requests.length) :
    (s.written payload tag).ops waiters = s.ops waiters := by
  apply filterMap_congr
  intro w hw
  exact getElem?_append_left (h w hw)

theorem ops_written_new (h : ∀ w ∈ waiters, w < s.requests.length) :
    (s.written payload tag).ops (waiters ++ [s.requests.length]) = s.ops waiters ++
      [(tag, payload)] := by
  have hlast : (s.written payload tag).ops [s.requests.length] = [(tag, payload)] := by
    simp [ops, written]
  rw [ops, filterMap_append]
  exact congrArg₂ _ (ops_written h) hlast

/-- The batch and the rounds hold what was written. -/
structure Gathered (s : Coalescer) : Prop where
  inRange : ∀ w ∈ s.placed ++ s.held, w < s.requests.length
  batch : ∀ b ∈ s.pending, b = .gather (s.ops b.waiters) b.waiters
  rounds : ∀ round ∈ s.rounds, round.payload = roundPayload (s.ops round.waiters) ∧
    round.tags = roundTags (s.ops round.waiters)

namespace Gathered

theorem init : Gathered init := ⟨nofun, nofun, nofun⟩

variable (h : Gathered s)
include h

theorem congr (hpending : s'.pending = s.pending) (hrequests : s'.requests = s.requests)
    (hrounds : s'.rounds = s.rounds) : Gathered s' := by
  refine ⟨?_, ?_, ?_⟩
  · rw [placed, held, hrounds, hpending, hrequests]
    exact h.inRange
  · rw [hpending]
    unfold ops
    rw [hrequests]
    exact h.batch
  · rw [hrounds]
    unfold ops
    rw [hrequests]
    exact h.rounds

theorem setPhase (i : ℕ) (phase : RoundPhase) : Gathered (s.setPhase i phase) := by
  refine ⟨?_, h.batch, ?_⟩
  · rw [placed_setPhase]
    exact h.inRange
  · intro round hround
    obtain hold | ⟨round', hround', rfl⟩ := mem_setPhase hround
    · exact h.rounds round hold
    · exact h.rounds round' (mem_of_getElem? hround')

theorem start (hpending : s.pending = some batch) : Gathered (s.start batch.round) := by
  have hbatch := h.batch batch hpending
  refine ⟨?_, ?_, ?_⟩
  · have hplaced : (s.start batch.round).placed ++ (s.start batch.round).held =
      s.placed ++ s.held := by
      simp [placed, held, Coalescer.start, PendingBatch.round, PendingBatch.empty, hpending]
    rw [hplaced]
    exact h.inRange
  · intro b hb
    cases hb
    rfl
  · intro round hround
    obtain hold | hnew := mem_append.1 hround
    · exact h.rounds round hold
    · obtain rfl := mem_singleton.1 hnew
      refine ⟨?_, congrArg PendingBatch.tags hbatch⟩
      rw [hbatch]
      exact PendingBatch.payload_gather _ _

theorem joined (hpending : s.pending.getD .empty = batch) :
    Gathered (s.joined payload tag batch) := by
  have hheld : s.held = batch.waiters := by
    subst hpending
    cases hp : s.pending <;> simp [held, hp, PendingBatch.empty]
  have hbatch : batch = .gather (s.ops batch.waiters) batch.waiters := by
    subst hpending
    cases hp : s.pending with
    | none => rfl
    | some b => exact h.batch b hp
  have hrange : ∀ w ∈ batch.waiters, w < s.requests.length := fun w hw =>
    h.inRange w (mem_append_right _ (hheld ▸ hw))
  have hlen : (s.joined payload tag batch).requests.length = s.requests.length + 1 := by
    simp [Coalescer.joined, written]
  refine ⟨?_, ?_, ?_⟩
  · intro w hw
    have hw' : w ∈ s.placed ++ (batch.waiters ++ [s.requests.length]) := hw
    rw [← append_assoc, ← hheld] at hw'
    obtain hold | hnew := mem_append.1 hw'
    · have := h.inRange w hold
      omega
    · have := mem_singleton.1 hnew
      omega
  · intro b hb
    cases hb
    have hops : (s.written payload tag).ops (batch.waiters ++ [s.requests.length]) =
        s.ops batch.waiters ++ [(tag, payload)] := ops_written_new hrange
    calc batch.join payload tag s.requests.length
        = .gather (s.ops batch.waiters ++ [(tag, payload)])
          (batch.waiters ++ [s.requests.length]) := by
          conv_lhs => rw [hbatch]
          exact PendingBatch.gather_join _ _ _ _ _
      _ = _ := by rw [← hops]; rfl
  · intro round hround
    have hround' : round ∈ s.rounds := hround
    have hops : (s.written payload tag).ops round.waiters = s.ops round.waiters := by
      apply ops_written
      intro w hw
      exact h.inRange w (mem_append_left _ (mem_flatMap.2 ⟨round, hround', hw⟩))
    have hold := h.rounds round hround'
    rw [← hops] at hold
    exact hold
omit h in
theorem length_ops (h : ∀ w ∈ waiters, w < s.requests.length) :
    (s.ops waiters).length = waiters.length := by
  induction waiters with
  | nil => rfl
  | cons w _ ih =>
    have hw := getElem?_eq_getElem (h w mem_cons_self)
    have hrest := ih fun w hw => h w (mem_cons_of_mem _ hw)
    rw [ops, filterMap_cons, hw]
    exact congrArg Nat.succ hrest

theorem opCount_eq (hpending : s.pending = some batch) :
    batch.opCount = min batch.waiters.length 65535 := by
  have hrange : ∀ w ∈ batch.waiters, w < s.requests.length := fun w hw =>
    h.inRange w (mem_append_right _ (by rw [held, hpending]; exact hw))
  have hcount := congrArg PendingBatch.opCount (h.batch batch hpending)
  rw [← length_ops hrange]
  exact hcount

theorem eq_empty (hpending : s.pending = some batch) (hcount : batch.opCount = 0) :
    batch = .empty := by
  have hlen := h.opCount_eq hpending
  have hwaiters : batch.waiters = [] := length_eq_zero_iff.1 (by omega)
  have hbatch := h.batch batch hpending
  rw [hwaiters] at hbatch
  exact hbatch

theorem drop : Gathered { s with pending := none } :=
  ⟨fun w hw => h.inRange w (mem_append_left _ (append_nil s.placed ▸ hw)), nofun, h.rounds⟩

theorem step (hs : Steps cfg s e s') : Gathered s' := by
  cases hs with
  | idle hpending => exact (h.joined (by rw [hpending, getD_none])).start rfl
  | join hpending => exact h.joined (by rw [hpending]; rfl)
  | overflow hpending => exact (h.joined (by rw [hpending]; rfl)).start rfl
  | finish _ _ | leave _ _ | reset _ _ _ => exact (h.setPhase _ _).congr rfl rfl rfl
  | takeEmpty _ _ hpending hempty =>
    obtain rfl := h.eq_empty hpending hempty
    exact (h.setPhase _ _).congr hpending.symm rfl rfl
  | take _ _ hpending => exact ((h.setPhase _ _).start hpending).congr rfl rfl rfl
  | drop => exact (h.setPhase _ _).drop.congr rfl rfl rfl
  | tick | look | rest _ => exact h.congr rfl rfl rfl
  | restEmpty hpending hempty =>
    obtain rfl := h.eq_empty hpending hempty
    exact h.congr hpending.symm rfl rfl
  | rescue hpending => exact (h.start hpending).congr rfl rfl rfl

end Gathered

/-! ## The operation count -/

/-- The batch is short of `max_keys`, and every round can say how many operations it has. -/
structure Bounded (cfg : CoalesceConfig) (s : Coalescer) : Prop where
  batch : ∀ b ∈ s.pending, b.waiters.length < max 1 cfg.maxKeys
  rounds : ∀ round ∈ s.rounds, round.waiters.length ≤ 65535

namespace Bounded

theorem init : Bounded cfg init := ⟨nofun, nofun⟩

variable (h : Bounded cfg s)
include h

theorem congr (hpending : s'.pending = s.pending) (hrounds : s'.rounds = s.rounds) :
    Bounded cfg s' := by
  refine ⟨?_, ?_⟩
  · rw [hpending]
    exact h.batch
  · rw [hrounds]
    exact h.rounds

theorem setPhase (i : ℕ) (phase : RoundPhase) : Bounded cfg (s.setPhase i phase) := by
  refine ⟨h.batch, ?_⟩
  intro round hround
  obtain hold | ⟨round', hround', rfl⟩ := mem_setPhase hround
  · exact h.rounds round hold
  · exact h.rounds round' (mem_of_getElem? hround')

theorem start (hround : round.waiters.length ≤ max 1 cfg.maxKeys) : Bounded cfg (s.start round) := by
  refine ⟨?_, ?_⟩
  · intro b hb
    cases hb
    exact lt_of_lt_of_le Nat.zero_lt_one (le_max_left _ _)
  · intro round' hround'
    obtain hold | hnew := mem_append.1 hround'
    · exact h.rounds round' hold
    · obtain rfl := mem_singleton.1 hnew
      have hkeys : cfg.maxKeys < 65536 := Nat.mod_lt _ (by omega)
      omega

theorem step (hg : Gathered s) (hs : Steps cfg s e s') : Bounded cfg s' := by
  have hkeys : cfg.maxKeys < 65536 := Nat.mod_lt _ (by omega)
  cases hs with
  | idle => exact (h.congr rfl rfl : Bounded cfg (s.written _ _)).start (le_max_left _ _)
  | @join payload tag batch hpending hfits =>
    have hcount := hg.opCount_eq hpending
    refine ⟨?_, h.rounds⟩
    intro b hb
    cases hb
    have hlen : (batch.join payload tag s.requests.length).waiters.length =
      batch.waiters.length + 1 := by
      simp [PendingBatch.join]
    simp only [PendingBatch.join] at hfits
    omega
  | @overflow payload tag batch hpending _ =>
    have hbatch := h.batch batch hpending
    refine (h.congr rfl rfl : Bounded cfg (s.written _ _)).start ?_
    have hlen : (batch.join payload tag s.requests.length).round.waiters.length =
      batch.waiters.length + 1 := by
      simp [PendingBatch.join, PendingBatch.round]
    omega
  | finish _ _ | leave _ _ | reset _ _ _ => exact (h.setPhase _ _).congr rfl rfl
  | takeEmpty _ _ hpending hempty =>
    obtain rfl := hg.eq_empty hpending hempty
    exact (h.setPhase _ _).congr hpending.symm rfl
  | take _ _ hpending => exact ((h.setPhase _ _).start (h.batch _ hpending).le).congr rfl rfl
  | drop => exact ⟨nofun, (h.setPhase _ _).rounds⟩
  | tick | look | rest _ => exact h.congr rfl rfl
  | restEmpty hpending hempty =>
    obtain rfl := hg.eq_empty hpending hempty
    exact h.congr hpending.symm rfl
  | rescue hpending => exact (h.start (h.batch _ hpending).le).congr rfl rfl

end Bounded

/-! ## Every write in one round -/

/-- The rounds and the batch hold the writes in order, and the waiters of a round have its
    result. -/
structure Tracked (s : Coalescer) : Prop where
  order : s.placed ++ s.held = List.range s.requests.length
  results : ∀ round ∈ s.rounds, ∀ w ∈ round.waiters, s.results w = round.phase.result
  waiting : ∀ w, w ∉ s.placed → s.results w = none

namespace Tracked

theorem init : Tracked init := ⟨rfl, nofun, fun _ _ => rfl⟩

variable (h : Tracked s)
include h

theorem congr (hpending : s'.pending = s.pending) (hrequests : s'.requests = s.requests)
    (hrounds : s'.rounds = s.rounds) (hresults : s'.results = s.results) : Tracked s' := by
  refine ⟨?_, ?_, ?_⟩
  · rw [placed, held, hrounds, hpending, hrequests]
    exact h.order
  · rw [hrounds, hresults]
    exact h.results
  · rw [placed, hrounds, hresults]
    exact h.waiting

theorem nodup : s.placed.Nodup := (h.order ▸ nodup_range).of_append_left

theorem round_unique {j : ℕ} {round' : CoalesceRound} {w : ℕ}
    (hi : s.rounds[i]? = some round) (hj : s.rounds[j]? = some round')
    (hw : w ∈ round.waiters) (hw' : w ∈ round'.waiters) : i = j := by
  have hpair := (nodup_flatMap.1 h.nodup).2
  rw [List.pairwise_iff_getElem] at hpair
  obtain ⟨hilt, rfl⟩ := List.getElem?_eq_some_iff.1 hi
  obtain ⟨hjlt, rfl⟩ := List.getElem?_eq_some_iff.1 hj
  obtain hij | rfl | hij := Nat.lt_trichotomy i j
  · exact absurd hw' (hpair i j hilt hjlt hij hw)
  · rfl
  · exact absurd hw (hpair j i hjlt hilt hij hw')

theorem setPhase (hround : s.rounds[i]? = some round) (hresult : phase.result = round.phase.result) :
    Tracked (s.setPhase i phase) := by
  refine ⟨?_, ?_, ?_⟩
  · rw [placed_setPhase]
    exact h.order
  · intro round' hround' w hw
    obtain hold | ⟨round'', hround'', rfl⟩ := mem_setPhase hround'
    · exact h.results round' hold w hw
    · obtain rfl := some.inj (hround.symm.trans hround'')
      exact (h.results round (mem_of_getElem? hround) w hw).trans hresult.symm
  · rw [placed_setPhase]
    exact h.waiting

theorem finish {result : ProposeResult} (hround : s.rounds[i]? = some round) :
    Tracked ((s.setPhase i (.resolved result)).send round.waiters result) := by
  have hplaced := placed_setPhase s i (.resolved result)
  refine ⟨?_, ?_, ?_⟩
  · exact (congrArg (· ++ s.held) hplaced).trans h.order
  · intro round' hround' w hw
    obtain ⟨j, hj⟩ := getElem?_of_mem hround'
    obtain ⟨old, hold, heq⟩ := getElem?_setPhase hj
    have hwaiters : round'.waiters = old.waiters := by
      rw [heq]
      split <;> rfl
    by_cases hij : i = j
    · obtain rfl := some.inj (hround.symm.trans (hij ▸ hold))
      rw [heq, if_pos hij]
      exact if_pos (hwaiters ▸ hw)
    · -- the waiters of another round are not told
      have hnot : w ∉ round.waiters :=
        fun hmem => hij (h.round_unique hround hold hmem (hwaiters ▸ hw))
      rw [heq, if_neg hij]
      exact (if_neg hnot).trans (h.results old (mem_of_getElem? hold) w (hwaiters ▸ hw))
  · intro w hw
    have hnot : w ∉ s.placed := hplaced ▸ hw
    have hnotRound : w ∉ round.waiters := fun hmem =>
      hnot (mem_flatMap.2 ⟨round, mem_of_getElem? hround, hmem⟩)
    exact (if_neg hnotRound).trans (h.waiting w hnot)

theorem start (hpending : s.pending = some batch) : Tracked (s.start batch.round) := by
  have hheld : s.held = batch.waiters := by rw [held, hpending]; rfl
  have hplaced : (s.start batch.round).placed = s.placed ++ s.held := by
    simp [placed, Coalescer.start, PendingBatch.round, hheld]
  have hnodup : (s.placed ++ s.held).Nodup := h.order ▸ nodup_range
  refine ⟨?_, ?_, ?_⟩
  · rw [hplaced]
    exact (append_nil _).trans h.order
  · intro round hround w hw
    obtain hold | hnew := mem_append.1 hround
    · exact h.results round hold w hw
    · obtain rfl := mem_singleton.1 hnew
      refine h.waiting w fun hmem => ?_
      exact disjoint_of_nodup_append hnodup hmem (hheld ▸ hw)
  · intro w hw
    rw [hplaced] at hw
    exact h.waiting w fun hmem => hw (mem_append_left _ hmem)

theorem joined (hpending : s.pending.getD .empty = batch) : Tracked (s.joined payload tag batch) := by
  have hheld : s.held = batch.waiters := by
    subst hpending
    cases hp : s.pending <;> simp [held, hp, PendingBatch.empty]
  refine ⟨?_, h.results, h.waiting⟩
  calc (s.joined payload tag batch).placed ++ (s.joined payload tag batch).held
      = s.placed ++ (batch.waiters ++ [s.requests.length]) := rfl
    _ = range s.requests.length ++ [s.requests.length] := by rw [← append_assoc, ← hheld, h.order]
    _ = range (s.requests ++ [(tag, payload)]).length := by
      rw [length_append, length_singleton, range_succ]

end Tracked

/-- The reset of the coalescer finds no write in the batch. -/
def ClearsEmpty (s : Coalescer) (e : CoalesceEvent) : Prop := ∀ i, e = .clear i → s.held = []

theorem Tracked.step (h : Tracked s) (hg : Gathered s) (hok : ClearsEmpty s e)
    (hs : Steps cfg s e s') :
    Tracked s' := by
  cases hs with
  | idle hpending => exact (h.joined (by rw [hpending, getD_none])).start rfl
  | join hpending => exact h.joined (by rw [hpending]; rfl)
  | overflow hpending => exact (h.joined (by rw [hpending]; rfl)).start rfl
  | finish hround => exact h.finish hround
  | leave hround hphase =>
    exact (h.setPhase hround (by rw [hphase]; rfl) : Tracked (s.setPhase _ (.done _))).congr
      rfl rfl rfl rfl
  | takeEmpty hround hphase hpending hempty =>
    obtain rfl := hg.eq_empty hpending hempty
    exact (h.setPhase hround (by rw [hphase]; rfl) : Tracked (s.setPhase _ (.clearing _))).congr
      hpending.symm rfl rfl rfl
  | take hround hphase hpending =>
    have hphased : Tracked (s.setPhase _ (.done _)) := h.setPhase hround (by rw [hphase]; rfl)
    exact (hphased.start hpending).congr rfl rfl rfl rfl
  | reset hround hphase => exact h.setPhase hround (by rw [hphase]; rfl)
  | @drop i round result batch hround hphase hpending =>
    have hphased : Tracked (s.setPhase i (.done result)) := h.setPhase hround (by rw [hphase]; rfl)
    -- nobody waits in the batch that is dropped
    have hheld : s.held = [] := hok i rfl
    have hwaiters : batch.waiters = [] := by
      rw [held, hpending] at hheld
      exact hheld
    refine ⟨?_, ?_, ?_⟩
    · have horder := hphased.order
      rw [show (s.setPhase i (.done result)).held = [] from hheld] at horder
      exact horder
    · intro round hround w hw
      rw [hwaiters]
      exact hphased.results round hround w hw
    · intro w hw
      rw [hwaiters]
      exact hphased.waiting w hw
  | tick | look | rest _ => exact h.congr rfl rfl rfl rfl
  | restEmpty hpending hempty =>
    obtain rfl := hg.eq_empty hpending hempty
    exact h.congr hpending.symm rfl rfl rfl
  | rescue hpending => exact (h.start hpending).congr rfl rfl rfl rfl

/-! ## Runs -/

theorem gathered_of_reach (h : Reach (step cfg) ok init s) : Gathered s :=
  h.invariant Gathered.init fun hinv _ hs => hinv.step (steps_of_step hs)

theorem bounded_of_reach (h : Reach (step cfg) ok init s) : Bounded cfg s :=
  h.invariant_of gathered_of_reach Bounded.init fun hg hinv _ hs => hinv.step hg (steps_of_step hs)

theorem tracked_of_reach (h : Reach (step cfg) ClearsEmpty init s) : Tracked s :=
  h.invariant_of gathered_of_reach Tracked.init fun hg hinv hok hs =>
    hinv.step hg hok (steps_of_step hs)

end Coalescer

end CrowDB.Kv
