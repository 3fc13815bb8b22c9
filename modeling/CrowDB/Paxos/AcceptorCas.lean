/-
  One slot of the acceptor under concurrent calls (`prepare` and `inner_accept` of
  `paxos/acceptor.rs`, `cas_promised` and `cas_accepted` of `paxos/slot_node.rs`).

  The promise and the accepted entry are two atomic pointers.  Any number of calls run at once, and
  every load and every compare-and-swap is a step. An accept goes on when its swap of the promise
  fails, so a promise that is made in between is passed over: an entry may then be recorded below
  it, or above the promise that is stored.
-/
import CrowDB.Lib.Lists
import CrowDB.Lib.Runs
import CrowDB.Paxos.Roles

namespace CrowDB

open Lib List Option

/-- A heap cell that is never written again, at an address that is not reused. -/
structure Boxed (α : Type*) where
  addr : ℕ
  val : α
deriving DecidableEq

/-- How far a call is. -/
inductive SlotCall where
  /-- `prepare`, about to load the promise -/
  | prepare (ballot : PxBallot)
  /-- about to load the accepted entry -/
  | prepareLoaded (ballot : PxBallot) (current : Option (Boxed PxBallot))
  /-- about to swap the promise -/
  | prepareCas (ballot : PxBallot) (current : Option (Boxed PxBallot)) (accepted : Option PxLogEntry)
  /-- about to return `Promised` -/
  | promised (ballot : PxBallot) (accepted : Option PxLogEntry)
  /-- `inner_accept`, about to load the promise -/
  | accept (entry : PxLogEntry)
  /-- about to load the promise again (`promised_cloned`) -/
  | acceptLoaded (entry : PxLogEntry) (current : Option (Boxed PxBallot))
  /-- about to swap the promise -/
  | acceptRaise (entry : PxLogEntry) (current : Option (Boxed PxBallot))
  /-- about to load the accepted entry -/
  | acceptRead (entry : PxLogEntry)
  /-- about to swap the accepted entry -/
  | acceptCas (entry : PxLogEntry) (current : Option (Boxed PxLogEntry))
  | returned
deriving DecidableEq

/-- The node of a slot, the calls on it, and the promises that were returned. -/
structure SlotAtomics where
  nextAddr : ℕ := 0
  promised : Option (Boxed PxBallot) := none
  accepted : Option (Boxed PxLogEntry) := none
  calls : List SlotCall := []
  returned : List PxBallot := []
deriving DecidableEq

/-- A call begins, or goes on. -/
inductive SlotEvent where
  | prepare (ballot : PxBallot)
  | accept (entry : PxLogEntry)
  | run (call : ℕ)
deriving DecidableEq

namespace SlotAtomics

variable (s : SlotAtomics)

/-- The promise as a ballot, a missing one being `(0, 0)`. -/
def promisedBallot : PxBallot := (s.promised.map Boxed.val).getD .zero

/-- Call `c` goes on. -/
def goto (c : ℕ) (pc : SlotCall) : SlotAtomics := { s with calls := s.calls.set c pc }

/-- Install a fresh box with the ballot. -/
def setPromised (ballot : PxBallot) : SlotAtomics :=
  { s with promised := some ⟨s.nextAddr, ballot⟩, nextAddr := s.nextAddr + 1 }

/-- The entry is swapped in. -/
def setAccepted (entry : PxLogEntry) : SlotAtomics :=
  { s with accepted := some ⟨s.nextAddr, entry⟩, nextAddr := s.nextAddr + 1 }

/-- One load or compare-and-swap of a call. -/
def runCall (c : ℕ) : SlotCall → Option SlotAtomics
  | .prepare ballot =>
    if s.promised.any fun p => decide (ballot ≤ p.val) then some (s.goto c .returned)
    else some (s.goto c (.prepareLoaded ballot s.promised))
  | .prepareLoaded ballot current =>
      some (s.goto c (.prepareCas ballot current (s.accepted.map Boxed.val)))
  | .prepareCas ballot current accepted =>
    if s.promised = current then some ((s.setPromised ballot).goto c (.promised ballot accepted))
    else some (s.goto c (.prepare ballot))
  | .promised ballot _ => some { s.goto c .returned with returned := ballot :: s.returned }
  | .accept entry =>
    if s.promised.any fun p => decide (entry.ballot < p.val) then some (s.goto c .returned)
    else some (s.goto c (.acceptLoaded entry s.promised))
  | .acceptLoaded entry current =>
    if s.promisedBallot < entry.ballot then some (s.goto c (.acceptRaise entry current))
    else some (s.goto c (.acceptRead entry))
  | .acceptRaise entry current =>
    -- whether the swap succeeds does not matter to the call
    if s.promised = current then some ((s.setPromised entry.ballot).goto c (.acceptRead entry))
    else some (s.goto c (.acceptRead entry))
  | .acceptRead entry => some (s.goto c (.acceptCas entry s.accepted))
  | .acceptCas entry current =>
    if s.accepted = current then some ((s.setAccepted entry).goto c .returned)
    else some (s.goto c (.accept entry))
  | .returned => none

/-- One load or swap. -/
def step : SlotEvent → Option SlotAtomics
  | .prepare ballot => some { s with calls := s.calls ++ [.prepare ballot] }
  | .accept entry => some { s with calls := s.calls ++ [.accept entry] }
  | .run c => (s.calls[c]?).bind (s.runCall c)

end SlotAtomics

/-! ## Specification -/

/-- The promise does not go down, the accepted ballot is not above it, and no entry is recorded
    below a promise that was returned. -/
structure SlotAtomics.StepSafe (s s' : SlotAtomics) : Prop where
  promised_le : s.promisedBallot ≤ s'.promisedBallot
  accepted_le : ∀ e ∈ s'.accepted, e.val.ballot ≤ s'.promisedBallot
  recorded : s'.accepted ≠ s.accepted → ∀ e ∈ s'.accepted, ∀ b ∈ s.returned, b ≤ e.val.ballot

/-- The entry of an accept between its load of the promise and its swap of the entry. -/
def SlotCall.storing : SlotCall → Option PxLogEntry
  | .acceptLoaded entry _ | .acceptRaise entry _ | .acceptRead entry | .acceptCas entry _ =>
      some entry
  | _ => none

/-- The ballot to which the next step of a call moves the promise. -/
def SlotAtomics.moves (s : SlotAtomics) : SlotCall → Option PxBallot
  | .prepareCas ballot current _ => if s.promised = current then some ballot else none
  | .acceptRaise entry current => if s.promised = current then some entry.ballot else none
  | _ => none

/-- The promise is not moved while another call is storing an entry, but to the ballot of that
    entry. -/
def SlotAtomics.Undisturbed (s : SlotAtomics) : SlotEvent → Prop
  | .prepare _ | .accept _ => True
  | .run c => ∀ pc ∈ s.calls[c]?, ∀ b ∈ s.moves pc, ∀ other ∈ s.calls.eraseIdx c,
      ∀ entry ∈ other.storing, entry.ballot = b

instance (s : SlotAtomics) : (e : SlotEvent) → Decidable (s.Undisturbed e)
  | .prepare _ | .accept _ => isTrue trivial
  | .run _ => inferInstanceAs (Decidable (∀ _ ∈ _, _))

namespace SlotAtomics

/-! ## Invariant -/

variable (s : SlotAtomics)

/-- What a call knows of the node. -/
def Knows : SlotCall → Prop
  | .prepareLoaded ballot current | .prepareCas ballot current _ => ∀ p ∈ current, p.val < ballot
  | .promised ballot _ => ballot ≤ s.promisedBallot
  -- the promise that was loaded is still there, or it has been moved to the ballot of the entry
  | .acceptLoaded entry current | .acceptRaise entry current =>
    (∀ p ∈ current, p.val ≤ entry.ballot) ∧ (s.promised = current ∨ s.promisedBallot = entry.ballot)
  | .acceptRead entry | .acceptCas entry _ => s.promisedBallot = entry.ballot
  | .prepare _ | .accept _ | .returned => True

/-- The promise covers what was promised and accepted. -/
structure Inv (s : SlotAtomics) : Prop where
  calls : ∀ pc ∈ s.calls, s.Knows pc
  returned : ∀ b ∈ s.returned, b ≤ s.promisedBallot
  accepted : ∀ e ∈ s.accepted, e.val.ballot ≤ s.promisedBallot

theorem Knows.congr {s s' : SlotAtomics} (h : s'.promised = s.promised) {pc : SlotCall}
    (hk : s.Knows pc) :
    s'.Knows pc := by
  have hb : s'.promisedBallot = s.promisedBallot := by rw [promisedBallot, promisedBallot, h]
  cases pc with
  | prepare | accept | returned => trivial
  | prepareLoaded | prepareCas => exact hk
  | promised | acceptRead | acceptCas => rw [Knows, hb]; exact hk
  | acceptLoaded | acceptRaise => rw [Knows, hb, h]; exact hk

theorem promisedBallot_le {s : SlotAtomics} {b : PxBallot} (h : ∀ p ∈ s.promised, p.val ≤ b) :
    s.promisedBallot ≤ b := by
  unfold promisedBallot
  cases hp : s.promised with
  | none => exact PxBallot.zero_le b
  | some p => exact h p hp

theorem mem_set_eraseIdx {calls : List SlotCall} {c : ℕ} {pc x : SlotCall} (h : x ∈ calls.set c pc) :
    x = pc ∨ x ∈ calls.eraseIdx c := by
  obtain ⟨i, hi⟩ := mem_iff_getElem?.1 h
  rw [getElem?_set] at hi
  split at hi
  · split at hi
    · exact .inl (some.inj hi).symm
    · cases hi
  · rename_i hne
    exact .inr (mem_eraseIdx_iff_getElem?.2 ⟨i, Ne.symm hne, hi⟩)

variable {s s' : SlotAtomics} {c : ℕ} {pc : SlotCall} {b : PxBallot}

/-! ### Steps that leave the promise -/

variable (h : s.Inv) {entry : PxLogEntry} {current : Option (Boxed PxBallot)}
include h

theorem Inv.goto (hk : s.Knows pc) : (s.goto c pc).Inv := by
  exact ⟨forall_mem_set (fun x hx => (h.calls x hx).congr rfl) (hk.congr rfl), h.returned, h.accepted⟩

theorem StepSafe.goto : StepSafe s (s.goto c pc) := ⟨le_rfl, h.accepted, fun hne => absurd rfl hne⟩

theorem Inv.setAccepted (he : entry.ballot ≤ s.promisedBallot) : (s.setAccepted entry).Inv := by
  refine ⟨fun x hx => (h.calls x hx).congr rfl, h.returned, fun e he' => ?_⟩
  cases he'
  exact he

/-! ### Steps that move the promise -/
omit h in
theorem Knows.moved (hk : s.Knows pc) (hle : s.promisedBallot ≤ b)
    (hstoring : ∀ entry ∈ pc.storing, entry.ballot = b) : (s.setPromised b).Knows pc := by
  cases pc with
  | prepare | accept | returned => trivial
  | prepareLoaded | prepareCas => exact hk
  | promised => exact le_trans hk hle
  | acceptLoaded entry current | acceptRaise entry current =>
      exact ⟨hk.1, .inr (hstoring entry rfl).symm⟩
  | acceptRead entry | acceptCas entry current => exact (hstoring entry rfl).symm

theorem Inv.move (hle : s.promisedBallot ≤ b)
    (hothers : ∀ other ∈ s.calls.eraseIdx c, ∀ entry ∈ other.storing, entry.ballot = b)
    (hk : (s.setPromised b).Knows pc) : ((s.setPromised b).goto c pc).Inv := by
  refine ⟨fun x hx => ?_, fun b' hb' => (h.returned b' hb').trans hle, fun e he =>
    (h.accepted e he).trans hle⟩
  rcases mem_set_eraseIdx hx with rfl | hx
  · exact hk.congr rfl
  · exact ((h.calls x (mem_of_mem_eraseIdx hx)).moved hle (hothers x hx)).congr rfl

theorem StepSafe.move (hle : s.promisedBallot ≤ b) : StepSafe s ((s.setPromised b).goto c pc) :=
  ⟨hle, fun e he => (h.accepted e he).trans hle, fun hne => absurd rfl hne⟩

/-! ### A step of a call -/

theorem inv_prepareCas {ballot : PxBallot}
    {accepted : Option PxLogEntry} (hk : s.Knows (.prepareCas ballot current accepted))
    (hothers : ∀ b ∈ s.moves (.prepareCas ballot current accepted), ∀ other ∈ s.calls.eraseIdx c,
      ∀ entry ∈ other.storing, entry.ballot = b)
    (hs : s.runCall c (.prepareCas ballot current accepted) = some s') : s'.Inv ∧ StepSafe s s' := by
  rw [runCall] at hs
  split at hs
  · rename_i heq
    cases hs
    have hle : s.promisedBallot ≤ ballot := promisedBallot_le fun p hp => (hk p (heq ▸ hp)).le
    have hmoves : s.moves (.prepareCas ballot current accepted) = some ballot := if_pos heq
    exact ⟨h.move hle (hothers ballot hmoves) le_rfl, .move h hle⟩
  · cases hs
    exact ⟨h.goto trivial, .goto h⟩

theorem inv_acceptRaise
    (hk : s.Knows (.acceptRaise entry current))
    (hothers : ∀ b ∈ s.moves (.acceptRaise entry current), ∀ other ∈ s.calls.eraseIdx c,
      ∀ entry ∈ other.storing, entry.ballot = b)
    (hs : s.runCall c (.acceptRaise entry current) = some s') : s'.Inv ∧ StepSafe s s' := by
  rw [runCall] at hs
  split at hs
  · rename_i heq
    cases hs
    have hle : s.promisedBallot ≤ entry.ballot := promisedBallot_le fun p hp => hk.1 p (heq ▸ hp)
    have hmoves : s.moves (.acceptRaise entry current) = some entry.ballot := if_pos heq
    exact ⟨h.move hle (hothers entry.ballot hmoves) rfl, .move h hle⟩
  · rename_i hne
    cases hs
    -- the swap failed: someone has moved the promise to the ballot of the entry
    exact ⟨h.goto (hk.2.resolve_left hne), .goto h⟩

theorem inv_acceptCas {current : Option (Boxed PxLogEntry)}
    (hk : s.promisedBallot = entry.ballot) (hs : s.runCall c (.acceptCas entry current) = some s') :
    s'.Inv ∧ StepSafe s s' := by
  rw [runCall] at hs
  split at hs
  · cases hs
    have hinv := h.setAccepted hk.ge
    refine ⟨hinv.goto trivial, le_rfl, hinv.accepted, fun _ e he b hb => ?_⟩
    cases he
    exact (h.returned b hb).trans hk.le
  · cases hs
    exact ⟨h.goto trivial, .goto h⟩

theorem inv_runCall (hk : s.Knows pc)
    (hothers : ∀ b ∈ s.moves pc, ∀ other ∈ s.calls.eraseIdx c, ∀ entry ∈ other.storing,
      entry.ballot = b)
    (hs : s.runCall c pc = some s') : s'.Inv ∧ StepSafe s s' := by
  cases pc with
  | prepare =>
    rw [runCall] at hs
    split at hs
    · cases hs
      exact ⟨h.goto trivial, .goto h⟩
    · rename_i hany
      cases hs
      refine ⟨h.goto fun p hp => ?_, .goto h⟩
      simpa [mem_def.1 hp] using hany
  | prepareLoaded | acceptRead =>
    cases hs
    exact ⟨h.goto hk, .goto h⟩
  | prepareCas => exact inv_prepareCas h hk hothers hs
  | promised =>
    cases hs
    have hgoto : (s.goto c .returned).Inv := h.goto trivial
    refine ⟨⟨fun x hx => (hgoto.calls x hx).congr rfl, fun b hb => ?_, h.accepted⟩,
      le_rfl, h.accepted,
      fun hne => absurd rfl hne⟩
    rcases mem_cons.1 hb with rfl | hb
    · exact hk
    · exact h.returned b hb
  | accept =>
    rw [runCall] at hs
    split at hs
    · cases hs
      exact ⟨h.goto trivial, .goto h⟩
    · rename_i hany
      cases hs
      refine ⟨h.goto ⟨fun p hp => ?_, .inl rfl⟩, .goto h⟩
      simpa [mem_def.1 hp] using hany
  | acceptLoaded =>
    rw [runCall] at hs
    split at hs
    · cases hs
      exact ⟨h.goto hk, .goto h⟩
    · rename_i hge
      cases hs
      refine ⟨h.goto ?_, .goto h⟩
      rcases hk.2 with heq | heq
      · exact le_antisymm (promisedBallot_le fun p hp => hk.1 p (heq ▸ hp)) (not_lt.1 hge)
      · exact heq
  | acceptRaise => exact inv_acceptRaise h hk hothers hs
  | acceptCas => exact inv_acceptCas h hk hs
  | returned => cases hs

theorem Inv.start (hk : s.Knows pc) :
    Inv { s with calls := s.calls ++ [pc] } ∧ StepSafe s { s with calls := s.calls ++ [pc] } := by
  exact ⟨⟨forall_mem_concat (fun x hx => (h.calls x hx).congr rfl)
    (hk.congr rfl), h.returned, h.accepted⟩, le_rfl, h.accepted, fun hne => absurd rfl hne⟩

theorem inv_step {e : SlotEvent} (hok : s.Undisturbed e) (hs : s.step e = some s') :
    s'.Inv ∧ StepSafe s s' := by
  cases e with
  | prepare | accept =>
    cases hs
    exact h.start trivial
  | run =>
    obtain ⟨pc, hpc, hs⟩ := bind_eq_some_iff.1 hs
    exact inv_runCall h (h.calls pc (mem_of_getElem? hpc)) (hok pc hpc) hs

omit h

/-- **The slot under concurrent calls**, if nobody moves the promise while an accept stores another
    ballot. -/
theorem stepSafe_of_reach {s s' : SlotAtomics} {e : SlotEvent} (h : Reach step Undisturbed {} s)
    (hok : s.Undisturbed e) (hs : s.step e = some s') : StepSafe s s' := by
  have hinit : Inv {} := ⟨nofun, nofun, nofun⟩
  have hinv : s.Inv := h.invariant hinit fun hi hok hs => (inv_step hi hok hs).1
  exact (inv_step hinv hok hs).2

/-- An entry of slot 5 at round `n` of node 1. -/
def entryAt (n : ℕ) : PxLogEntry := ⟨5, ⟨n, 1⟩, 1, [7]⟩

/-- Round 2 is promised and accepted while a prepare at round 1 and a second accept are under way. -/
theorem stepSafe_second_accept :
    ∃ s s', Reach step Undisturbed {} s ∧ s.Undisturbed (.run 1) ∧ s.step (.run 1) = some s' ∧
      s'.accepted ≠ s.accepted ∧ s.returned = [⟨2, 1⟩] ∧ StepSafe s s' := by
  obtain ⟨s, hreach, hp⟩ : ∃ s, Reach step Undisturbed {} s ∧ s.Undisturbed (.run 1) ∧
    s.returned = [⟨2, 1⟩] ∧
        ∃ s' ∈ s.step (.run 1), s'.accepted ≠ s.accepted :=
    Reach.exists_of_run
      [.prepare ⟨2, 1⟩, .accept (entryAt 2), .prepare ⟨1, 1⟩, .accept (entryAt 2), .run 2,
        .run 0, .run 0, .run 0,
      .run 0, .run 1, .run 3, .run 1, .run 3, .run 1] (by decide +kernel)
  obtain ⟨hok, hret, s', hs, hne⟩ := hp
  exact ⟨s, s', hreach, hok, hs, hne, hret, stepSafe_of_reach hreach hok hs⟩

/-- An accept at round 1 records below a promise at round 2; and one at round 5, whose swap fails,
    above a promise at round 3. -/
theorem recorded_below_promise_and_above :
    (∃ s s', Reach step anyStep {} s ∧ s.step (.run 0) = some s' ∧ s'.accepted ≠ s.accepted ∧
      ∃ e ∈ s'.accepted, ∃ b ∈ s.returned, e.val.ballot < b) ∧
      ∃ s, Reach step anyStep {} s ∧ ∃ e ∈ s.accepted, s.promisedBallot < e.val.ballot := by
  constructor
  · obtain ⟨s, hreach, hp⟩ :
      ∃ s, Reach step anyStep {} s ∧ ∃ s' ∈ s.step (.run 0), s'.accepted ≠ s.accepted ∧
          ∃ e ∈ s'.accepted, ∃ b ∈ s.returned, e.val.ballot < b :=
      Reach.exists_of_run
        [.accept (entryAt 1), .run 0, .prepare ⟨2, 1⟩, .run 1, .run 1, .run 1, .run 1, .run 0,
          .run 0] (by decide +kernel)
    obtain ⟨s', hs, hne, he⟩ := hp
    exact ⟨s, s', hreach, hs, hne, he⟩
  · obtain ⟨s, hreach, hp⟩ : ∃ s, Reach step anyStep {} s ∧ ∃ e ∈ s.accepted, s.promisedBallot <
      e.val.ballot :=
      Reach.exists_of_run
        [.accept (entryAt 5), .run 0, .run 0, .prepare ⟨3, 1⟩, .run 1, .run 1, .run 1, .run 0,
          .run 0, .run 0] (by decide +kernel)
    exact ⟨s, hreach, hp⟩

end SlotAtomics

end CrowDB
