/-
  Every write is proposed and answered.

  In a fair run rounds end, the clock goes on and the watchdog keeps looking.  While a write
  stays in the batch, every activity brings the batch closer to its bound or uses up a round;
  without activity the watchdog takes the batch.
-/
import CrowDB.Kv.CoalesceSafety

namespace CrowDB.Kv

open Lib List Option

/-- The events after which the watchdog waits anew. -/
def CoalesceEvent.active : CoalesceEvent → Bool
  | .enqueue _ _ | .drain _ _ | .flush => true
  | .finish _ _ | .clear _ | .tick _ | .look => false

namespace Coalescer

variable {cfg : CoalesceConfig} {s s' : Coalescer} {e : CoalesceEvent}
  {round : CoalesceRound} {i w : ℕ}
  {ok : Coalescer → CoalesceEvent → Prop}

/-! ## Activity -/

theorem Steps.now_le (hs : Steps cfg s e s') : s.now ≤ s'.now := by
  cases hs with
  | tick => exact Nat.le_add_right _ _
  | _ => exact le_rfl

theorem Steps.lastActivity_eq (hs : Steps cfg s e s') (hidle : e.active = false) :
    s'.lastActivity = s.lastActivity := by
  cases hs with
  | finish _ _ | reset _ _ _ | drop _ _ _ | tick | look => rfl
  | _ => cases hidle

/-- Rounds end, the clock goes on, and the watchdog keeps looking and flushes what it finds. -/
structure Fair (r : InfRun (step cfg) ok init) : Prop where
  finishes : ∀ n i round, (r.state n).rounds[i]? = some round → round.phase = .proposing →
    ∃ m, n ≤ m ∧ ∃ result, r.event m = .finish i result
  clock : ∀ n t, ∃ m, n ≤ m ∧ t ≤ (r.state m).now
  looks : ∀ n, ∃ m, n ≤ m ∧ r.event m = .look
  flushes : ∀ n, (r.state n).armed = true → ∃ m, n ≤ m ∧ r.event m = .flush

variable {r : InfRun (step cfg) ok init} {phase : RoundPhase}

theorem steps_of_run (r : InfRun (step cfg) ok init) (n : ℕ) :
    Steps cfg (r.state n) (r.event n) (r.state (n + 1)) :=
  steps_of_step (r.moves n)

theorem active_again (hfair : Fair r) (n : ℕ) : ∃ m, n ≤ m ∧ (r.event m).active = true := by
  by_contra hnot
  push Not at hnot
  have hidle : ∀ m, n ≤ m → (r.event m).active = false :=
    fun m hle => Bool.eq_false_iff.2 (hnot m hle)
  have hlast : ∀ m, n ≤ m → (r.state m).lastActivity = (r.state n).lastActivity := fun m hle =>
    r.keeps (fun k hk hkept => ((steps_of_run r k).lastActivity_eq (hidle k hk)).trans hkept)
      (P := fun s => s.lastActivity = (r.state n).lastActivity) rfl hle
  -- a second after the last activity the watchdog looks, finds none, and flushes
  obtain ⟨late, hlate, hnow⟩ := hfair.clock n ((r.state n).lastActivity + watchdogUs)
  obtain ⟨m, hm, hlook⟩ := hfair.looks late
  have hlater : (r.state late).now ≤ (r.state m).now :=
    r.keeps (fun k _ hk => hk.trans (steps_of_run r k).now_le)
      (P := fun s => (r.state late).now ≤ s.now) le_rfl hm
  have harmed : (r.state (m + 1)).armed = true := by
    have hs := r.moves m
    have hquiet := hlast m (hlate.trans hm)
    rw [hlook, step] at hs
    split at hs
    · cases hs
    · rw [← some.inj hs]
      exact decide_eq_true (by omega)
  obtain ⟨k, hk, hflush⟩ := hfair.flushes (m + 1) harmed
  have := hidle k (by omega)
  rw [hflush] at this
  cases this

/-! ## A write in the batch -/

/-- The rounds whose drain is to come. -/
def undrained (s : Coalescer) : ℕ := s.rounds.countP (·.phase.undrained)

/-- The room left in the batch, and the drains to come. -/
def rank (s : Coalescer) : ℕ := 65536 - s.pending.elim 0 (·.opCount) + s.undrained

theorem undrained_setPhase (hround : s.rounds[i]? = some round) (phase : RoundPhase) :
    (s.setPhase i phase).undrained + round.phase.undrained.toNat = s.undrained +
      phase.undrained.toNat := by
  obtain ⟨hlt, rfl⟩ := List.getElem?_eq_some_iff.1 hround
  have hsplit : s.rounds = s.rounds.take i ++ s.rounds[i] :: s.rounds.drop (i + 1) := by
    rw [List.getElem_cons_drop, take_append_drop]
  have hmodify : (s.setPhase i phase).rounds =
      s.rounds.take i ++ { s.rounds[i] with phase := phase } :: s.rounds.drop (i + 1) :=
    modify_eq_take_cons_drop hlt
  have hcount : s.undrained = (s.rounds.take i ++ s.rounds[i] :: s.rounds.drop (i + 1)).countP
    (·.phase.undrained) :=
    congrArg _ hsplit
  rw [undrained, hmodify, hcount, countP_append, countP_append, countP_cons, countP_cons]
  cases phase.undrained <;> cases s.rounds[i].phase.undrained <;> simp <;> omega

/-- A write stays in the batch only while the rank falls with every activity. -/
theorem held_step (hg : Gathered s) (hok : ClearsEmpty s e) (hs : Steps cfg s e s')
    (hw : w ∈ s.held) :
    w ∈ s'.placed ∨ w ∈ s'.held ∧ s'.rank ≤ s.rank ∧ (e.active = true → s'.rank < s.rank) := by
  have hkeys : cfg.maxKeys < 65536 := Nat.mod_lt _ (by omega)
  have hnone : s.pending ≠ none := by
    intro hpending
    rw [held, hpending] at hw
    cases hw
  have hempty : ∀ {batch : PendingBatch}, s.pending = some batch → batch.opCount ≠ 0 := by
    intro batch hpending hcount
    rw [held, hpending, hg.eq_empty hpending hcount] at hw
    cases hw
  have hplaced : ∀ {batch : PendingBatch}, s.pending = some batch → w ∈ batch.waiters := by
    intro batch hpending
    rw [held, hpending] at hw
    exact hw
  cases hs with
  | idle hpending | reset _ _ hpending | rest hpending => exact absurd hpending hnone
  | takeEmpty _ _ hpending hcount | restEmpty hpending hcount => exact absurd hcount (hempty hpending)
  | drop =>
    rw [hok _ rfl] at hw
    cases hw
  | @join payload tag batch hpending hfits =>
    refine .inr ⟨mem_append_left _ (hplaced hpending), ?_⟩
    simp only [PendingBatch.join] at hfits
    have hrank : rank { s.written payload tag with pending := some (batch.join payload tag
      s.requests.length) } =
        65536 - min (batch.opCount + 1) 65535 + s.undrained := rfl
    have hrank' : s.rank = 65536 - batch.opCount + s.undrained := by rw [rank, hpending]; rfl
    exact ⟨by omega, fun _ => by omega⟩
  | overflow hpending =>
    refine .inl (mem_flatMap.2 ⟨_, mem_concat_self, ?_⟩)
    exact mem_append_left _ (hplaced hpending)
  | take _ _ hpending | rescue hpending =>
    exact .inl (mem_flatMap.2 ⟨_, mem_concat_self, hplaced hpending⟩)
  | @finish i round result hround hphase =>
    have hcount := undrained_setPhase hround (.resolved result)
    rw [hphase] at hcount
    refine .inr ⟨hw, le_of_eq ?_, fun hactive => absurd hactive Bool.false_ne_true⟩
    exact congrArg (65536 - s.pending.elim 0 (·.opCount) + ·) (Nat.add_right_cancel hcount)
  | @leave i round result occupied hround hphase =>
    have hcount : (s.touch.setPhase i (.done result)).undrained + 1 = s.undrained := by
      have hcount := undrained_setPhase hround (.done result)
      rw [hphase] at hcount
      exact hcount
    have hrank : (s.touch.setPhase i (.done result)).rank =
        65536 - s.pending.elim 0 (·.opCount) + (s.touch.setPhase i (.done result)).undrained := rfl
    refine .inr ⟨hw, ?_⟩
    rw [hrank, rank]
    exact ⟨by omega, fun _ => by omega⟩
  | tick | look => exact .inr ⟨hw, le_rfl, fun hactive => absurd hactive Bool.false_ne_true⟩

/-! ## A write in a round -/

/-- The later of two states of a round. -/
def Stays (round round' : CoalesceRound) : Prop :=
  round'.waiters = round.waiters ∧ ∀ result, round.phase.result = some result →
    round'.phase.result = some result

theorem stays_setPhase {j : ℕ} {old : CoalesceRound} (hround : s.rounds[i]? = some round)
    (hold : s.rounds[j]? = some old)
    (hresult : old.phase.result = none ∨ phase.result = old.phase.result) :
    ∃ round', (s.setPhase j phase).rounds[i]? = some round' ∧ Stays round round' := by
  refine ⟨if j = i then { round with phase := phase } else round, ?_, ?_⟩
  · rw [setPhase, getElem?_modify, hround]
    rfl
  · by_cases hji : j = i
    · obtain rfl := some.inj (hold.symm.trans (hji ▸ hround))
      rw [if_pos hji]
      refine ⟨rfl, fun result hdone => ?_⟩
      obtain hnone | hsame := hresult
      · rw [hnone] at hdone
        cases hdone
      · exact hsame.trans hdone
    · rw [if_neg hji]
      exact ⟨rfl, fun _ hdone => hdone⟩

theorem stays_start (new : CoalesceRound)
    (h : ∃ round', s.rounds[i]? = some round' ∧ Stays round round') :
    ∃ round', (s.start new).rounds[i]? = some round' ∧ Stays round round' := by
  obtain ⟨round', hround', hstays⟩ := h
  have hlt := (List.getElem?_eq_some_iff.1 hround').1
  exact ⟨round', (List.getElem?_append_left hlt).trans hround', hstays⟩

theorem round_stays (hs : Steps cfg s e s') (hround : s.rounds[i]? = some round) :
    ∃ round', s'.rounds[i]? = some round' ∧ Stays round round' := by
  have hsame : ∃ round', s.rounds[i]? = some round' ∧ Stays round round' :=
    ⟨round, hround, rfl, fun _ h => h⟩
  cases hs with
  | idle _ | overflow _ _ | rescue _ => exact stays_start _ hsame
  | join _ _ | tick | look | rest _ | restEmpty _ _ => exact hsame
  | finish hold hphase => exact stays_setPhase hround hold (.inl (by rw [hphase]; rfl))
  | leave hold hphase | takeEmpty hold hphase _ _ | reset hold hphase _ | drop hold hphase _ =>
    exact stays_setPhase hround hold (.inr (by rw [hphase]; rfl))
  | take hold hphase =>
    exact stays_start _ (stays_setPhase hround hold (.inr (by rw [hphase]; rfl)))

theorem round_stays_run (r : InfRun (step cfg) ok init) {n m : ℕ} (hle : n ≤ m)
    (hround : (r.state n).rounds[i]? = some round) :
    ∃ round', (r.state m).rounds[i]? = some round' ∧ Stays round round' := by
  refine r.keeps (fun k _ hk => ?_) (P := fun s => ∃ round', s.rounds[i]? = some round' ∧
    Stays round round')
    ⟨round, hround, rfl, fun _ h => h⟩ hle
  obtain ⟨mid, hmid, hwaiters, hresult⟩ := hk
  obtain ⟨round', hround', hwaiters', hresult'⟩ := round_stays (steps_of_run r k) hmid
  exact ⟨round', hround', hwaiters'.trans hwaiters, fun result h =>
    hresult' result (hresult result h)⟩

theorem round_ends (hfair : Fair r) {n : ℕ} (hround : (r.state n).rounds[i]? = some round) :
    ∃ m, n ≤ m ∧ ∃ round' result, (r.state m).rounds[i]? = some round' ∧ round'.waiters =
      round.waiters ∧
      round'.phase.result = some result := by
  cases hphase : round.phase with
  | resolved result | clearing result | done result =>
    exact ⟨n, le_rfl, round, result, hround, rfl, by rw [hphase]; rfl⟩
  | proposing =>
    obtain ⟨m, hle, result, hevent⟩ := hfair.finishes n i round hround hphase
    obtain ⟨mid, hmid, hwaiters, -⟩ := round_stays_run r hle hround
    have hs := steps_of_run r m
    rw [hevent] at hs
    generalize hstate : r.state (m + 1) = s' at hs
    cases hs with
    | finish =>
      refine ⟨m + 1, Nat.le_succ_of_le hle, { mid with phase := .resolved result }, result,
        ?_, hwaiters, rfl⟩
      rw [hstate]
      simp [setPhase, send, hmid]

/-! ## Placed once, and answered -/

/-- Where no reset finds a write in the batch, every write is placed in one round, and its waiter
    gets that result. -/
theorem coalesce_settles (r : InfRun (step cfg) ClearsEmpty init) (hfair : Fair r) {n w : ℕ}
    (hw : w < (r.state n).requests.length) :
    ∃ (i m : ℕ) (result : ProposeResult), (∀ k, m ≤ k → ∃ round : CoalesceRound,
      (r.state k).rounds[i]? = some round ∧ round.waiters.count w = 1 ∧
        round.payload = roundPayload ((r.state k).ops round.waiters) ∧
          round.phase.result = some result ∧
        (r.state k).results w = some result) ∧
      (∀ (k j : ℕ) (round : CoalesceRound), (r.state k).rounds[j]? = some round →
        w ∈ round.waiters → j = i) ∧
      ∀ k result', (r.state k).results w = some result' → result' = result := by
  have htracked : ∀ k, Tracked (r.state k) := fun k => tracked_of_reach (r.reach k)
  have hgathered : ∀ k, Gathered (r.state k) := fun k => gathered_of_reach (r.reach k)
  -- it is in a round, or in the batch until it is in one
  have hplaced : ∃ m, w ∈ (r.state m).placed := by
    have hmem : w ∈ (r.state n).placed ++ (r.state n).held := by
      rw [(htracked n).order]
      exact mem_range.2 hw
    obtain hplaced | hheld := mem_append.1 hmem
    · exact ⟨n, hplaced⟩
    · obtain ⟨m, -, hm⟩ := r.eventually_of_rank (P := (w ∈ held ·))
        (Q := (w ∈ placed ·)) rank (fun e => e.active = true)
        (fun k hk => held_step (hgathered k) (r.meets k) (steps_of_run r k) hk)
          (active_again hfair) hheld
      exact ⟨m, hm⟩
  obtain ⟨m₀, hm₀⟩ := hplaced
  obtain ⟨round₀, hmem₀, hw₀⟩ := mem_flatMap.1 hm₀
  obtain ⟨i, hi⟩ := getElem?_of_mem hmem₀
  obtain ⟨m, -, round₁, result, hround₁, hwaiters₁, hresult₁⟩ := round_ends hfair hi
  have hw₁ : w ∈ round₁.waiters := hwaiters₁ ▸ hw₀
  have hlater : ∀ k, m ≤ k → ∃ round : CoalesceRound, (r.state k).rounds[i]? = some round ∧
    w ∈ round.waiters ∧
      round.phase.result = some result := by
    intro k hk
    obtain ⟨round, hround, hwaiters, hresult⟩ := round_stays_run r hk hround₁
    exact ⟨round, hround, hwaiters ▸ hw₁, hresult result hresult₁⟩
  have hunique : ∀ (k j : ℕ) (round : CoalesceRound), (r.state k).rounds[j]? = some round →
    w ∈ round.waiters → j = i := by
    intro k j round hround hmem
    obtain ⟨round', hround', hwaiters, -⟩ := round_stays_run r (le_max_left k m) hround
    obtain ⟨round'', hround'', hmem'', -⟩ := hlater _ (le_max_right k m)
    exact (htracked _).round_unique hround' hround'' (hwaiters ▸ hmem) hmem''
  refine ⟨i, m, result, ?_, hunique, ?_⟩
  · intro k hk
    obtain ⟨round, hround, hmem, hresult⟩ := hlater k hk
    have hmemRound := mem_of_getElem? hround
    have hnodup := (nodup_flatMap.1 (htracked k).nodup).1 round hmemRound
    exact ⟨round, hround, count_eq_one_of_mem hnodup hmem,
      ((hgathered k).rounds round hmemRound).1, hresult,
      ((htracked k).results round hmemRound w hmem).trans hresult⟩
  · intro k result' hresult'
    -- a waiter that has a result is in a round, and that round keeps its result
    have hmem : w ∈ (r.state k).placed := by
      by_contra hnot
      rw [(htracked k).waiting w hnot] at hresult'
      cases hresult'
    obtain ⟨round, hmemRound, hmem⟩ := mem_flatMap.1 hmem
    obtain ⟨j, hj⟩ := getElem?_of_mem hmemRound
    obtain rfl := hunique k j round hj hmem
    obtain ⟨round', hround', -, hkept⟩ := round_stays_run r (le_max_left k m) hj
    obtain ⟨round'', hround'', -, hresult''⟩ := hlater _ (le_max_right k m)
    obtain rfl := some.inj (hround'.symm.trans hround'')
    have hphase := (htracked k).results round hmemRound w hmem
    exact some.inj ((hkept result' (hphase.symm.trans hresult')).symm.trans hresult'')

/-! ## A quiet run -/

/-- The default threshold, and room for a batch. -/
def defaultCoalesce : CoalesceConfig := ⟨128, 1⟩

/-- A write, one that joins the batch while its round runs, the two rounds and their drains; then the
    watchdog looks once a second. -/
def quietEvent : ℕ → CoalesceEvent
  | 0 => .enqueue [1, 0, 65] none
  | 1 => .enqueue [1, 0, 66] (some ⟨7, 1⟩)
  | 2 => .finish 0 (.chosen 1)
  | 3 => .drain 0 0
  | 4 => .finish 1 (.chosen 2)
  | 5 => .drain 1 0
  | 6 => .clear 1
  | n + 7 => if n % 3 = 0 then .tick watchdogUs else if n % 3 = 1 then .look else .flush

/-- The rounds of the two writes. -/
def quietRounds (first second : RoundPhase) : List CoalesceRound :=
  [⟨[1, 0, 65], [], [0], first⟩, ⟨[1, 0, 66], [⟨7, 1⟩], [1], second⟩]

/-- The two writes. -/
def quietRequests : List (Option DedupTag × Bytes) := [(none, [1, 0, 65]), (some ⟨7, 1⟩, [1, 0, 66])]

/-- The batch with the second write. -/
def quietBatch : PendingBatch := ⟨[66], 1, [⟨7, 1⟩], [1]⟩

/-- The answer to the first write. -/
def firstResult (w : ℕ) : Option ProposeResult := if w ∈ [0] then some (.chosen 1) else none

/-- The answers to both writes. -/
def bothResults (w : ℕ) : Option ProposeResult := if w ∈ [1] then some (.chosen 2) else firstResult w

/-- The states of the quiet run. -/
def quietState : ℕ → Coalescer
  | 0 => init
  | 1 => ⟨some .empty, (quietRounds .proposing .proposing).take 1, quietRequests.take 1, fun _ =>
      none, 0, 0, false⟩
  | 2 => ⟨some quietBatch, (quietRounds .proposing .proposing).take 1, quietRequests, fun _ =>
      none, 0, 0, false⟩
  | 3 => ⟨some quietBatch, (quietRounds (.resolved (.chosen 1)) .proposing).take 1,
      quietRequests, firstResult,
      0, 0, false⟩
  | 4 => ⟨some .empty, quietRounds (.done (.chosen 1)) .proposing, quietRequests, firstResult,
      0, 0, false⟩
  | 5 => ⟨some .empty, quietRounds (.done (.chosen 1)) (.resolved (.chosen 2)),
      quietRequests, bothResults,
      0, 0, false⟩
  | 6 => ⟨some .empty, quietRounds (.done (.chosen 1)) (.clearing (.chosen 2)),
      quietRequests, bothResults,
      0, 0, false⟩
  | n + 7 => ⟨none, quietRounds (.done (.chosen 1)) (.done (.chosen 2)), quietRequests, bothResults,
      (n + 2) / 3 * watchdogUs, 0, n % 3 = 2⟩

theorem quiet_moves (n : ℕ) : step defaultCoalesce (quietState n) (quietEvent n) =
      some (quietState (n + 1)) := by
  match n with
  | 0 | 1 | 2 | 3 | 4 | 5 | 6 => rfl
  | n + 7 =>
    obtain hn | hn | hn : n % 3 = 0 ∨ n % 3 = 1 ∨ n % 3 = 2 := by omega
    · have hnext : (n + 1) % 3 = 1 := by omega
      have hnow : (n + 1 + 2) / 3 = (n + 2) / 3 + 1 := by omega
      simp [quietEvent, quietState, step, hn, hnext, hnow, Nat.add_mul]
    · have hnext : (n + 1) % 3 = 2 := by omega
      have hnow : (n + 1 + 2) / 3 = (n + 2) / 3 := by omega
      have hlate : watchdogUs ≤ (n + 2) / 3 * watchdogUs := Nat.le_mul_of_pos_left _ (by omega)
      simp [quietEvent, quietState, step, hn, hnext, hnow, hlate]
    · have hnext : (n + 1) % 3 = 0 := by omega
      have hnow : (n + 1 + 2) / 3 = (n + 2) / 3 := by omega
      simp [quietEvent, quietState, step, flush, hn, hnext, hnow]

/-- The quiet run. -/
def quietRun : InfRun (step defaultCoalesce) ClearsEmpty init where
  state := quietState
  event := quietEvent
  starts := rfl
  meets := by
    intro n i hclear
    match n with
    | 0 | 1 | 2 | 3 | 4 | 5 => cases hclear
    | 6 => rfl
    | n + 7 =>
      simp only [quietEvent] at hclear
      split_ifs at hclear
  moves := quiet_moves

theorem proposing_quiet {n : ℕ} (hround : (quietState n).rounds[i]? = some round)
    (hphase : round.phase = .proposing) : n ≤ 2 ∧ i = 0 ∨ n ≤ 4 ∧ i = 1 := by
  have hfirst : ∀ {phase}, ((quietRounds phase .proposing).take 1)[i]? = some round →
      i = 0 ∧ round.phase = phase := by
    intro phase h
    cases i with
    | zero => cases h; exact ⟨rfl, rfl⟩
    | succ => cases h
  have hboth : ∀ {phase}, (quietRounds (.done (.chosen 1)) phase)[i]? = some round →
      i = 1 ∧ round.phase = phase := by
    intro phase h
    match i with
    | 0 => cases h; cases hphase
    | 1 => cases h; exact ⟨rfl, rfl⟩
    | i + 2 => cases h
  match n with
  | 0 => cases hround
  | 1 | 2 => exact .inl ⟨by decide, (hfirst hround).1⟩
  | 3 => cases hphase.symm.trans (hfirst hround).2
  | 4 => exact .inr ⟨le_rfl, (hboth hround).1⟩
  | 5 | 6 | n + 7 => cases hphase.symm.trans (hboth hround).2

theorem quietRun_fair : Fair quietRun := by
  refine ⟨?_, ?_, ?_, ?_⟩
  · intro n i round hround hphase
    obtain ⟨hle, rfl⟩ | ⟨hle, rfl⟩ := proposing_quiet hround hphase
    · exact ⟨2, hle, .chosen 1, rfl⟩
    · exact ⟨4, hle, .chosen 2, rfl⟩
  · intro n t
    refine ⟨3 * (n + t) + 7, by omega, ?_⟩
    have hnow : (3 * (n + t) + 2) / 3 = n + t := by omega
    show t ≤ (3 * (n + t) + 2) / 3 * watchdogUs
    rw [hnow]
    exact (Nat.le_add_left _ _).trans (Nat.le_mul_of_pos_right _ (by decide))
  · intro n
    refine ⟨3 * n + 1 + 7, by omega, ?_⟩
    have hn : (3 * n + 1) % 3 = 1 := by omega
    show quietEvent (3 * n + 1 + 7) = .look
    simp [quietEvent, hn]
  · intro n _
    refine ⟨3 * n + 2 + 7, by omega, ?_⟩
    have hn : (3 * n + 2) % 3 = 2 := by omega
    show quietEvent (3 * n + 2 + 7) = .flush
    simp [quietEvent, hn]

/-- The second write waits in the batch while the first round runs, and then gets into a round of its
    own and is answered. -/
theorem coalesce_settles_quiet : (quietRun.state 2).held = [1] ∧
      ∃ (i m : ℕ) (result : ProposeResult), ∀ k, m ≤ k → ∃ round : CoalesceRound,
        (quietRun.state k).rounds[i]? = some round ∧ round.waiters.count 1 = 1 ∧
        (quietRun.state k).results 1 = some result := by
  refine ⟨rfl, ?_⟩
  obtain ⟨i, m, result, hround, -, -⟩ :=
    coalesce_settles quietRun quietRun_fair (n := 2) (w := 1) (Nat.lt_succ_self 1)
  refine ⟨i, m, result, fun k hk => ?_⟩
  obtain ⟨round, hi, hcount, -, -, hresult⟩ := hround k hk
  exact ⟨round, hi, hcount, hresult⟩

/-! ## A write that is lost -/

/-- A write joins the fresh batch between the two sections of a drain: it is in no round and in no
    batch. -/
theorem coalesce_drops : ∃ s, Reach (step defaultCoalesce) anyStep init s ∧ s.requests.length = 2 ∧
      s.pending = none ∧
      (∀ round ∈ s.rounds, 1 ∉ round.waiters) ∧ s.results 1 =
        some (.err "coalescer round dropped") := by
  exact Reach.exists_of_run
    [.enqueue [] none, .finish 0 (.chosen 1), .drain 0 0, .enqueue [] none, .clear 0]
      (by decide +kernel)

end Coalescer

end CrowDB.Kv
