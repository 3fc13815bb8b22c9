/-
  The acceptor of one consensus group (`paxos/acceptor.rs`, `paxos/slot_node.rs`).

  Every slot has a node with the highest promised ballot and the accepted entry.  `prepare` refuses
  a ballot at or below the promise; `accept` refuses a ballot below it, raises the promise to the
  entry's ballot, and overwrites whatever was accepted before.

  Each handler is one atomic step here: the loads and compare-and-swaps inside one call are not
  interleaved with those of another call on the same node.
-/
import CrowDB.Paxos.Roles

namespace CrowDB

/-! ## One slot -/

/-- The state of one slot: the promised ballot and the accepted entry, each
    missing until first written. -/
structure PxSlotNode where
  promised : Option PxBallot
  accepted : Option PxLogEntry
  accepted_le : ∀ e ∈ accepted, e.ballot ≤ promised.getD .zero

namespace PxSlotNode

/-- Nothing promised or accepted. -/
def new : PxSlotNode := ⟨none, none, by simp⟩

variable (n : PxSlotNode)

/-- The promise as a ballot, a missing one being `(0, 0)`. -/
def promisedBallot : PxBallot := n.promised.getD .zero

theorem promisedBallot_le_of_lt {n : PxSlotNode} {b : PxBallot} (h : ∀ p ∈ n.promised, p < b) :
    n.promisedBallot ≤ b := by
  unfold promisedBallot
  cases hp : n.promised with
  | none => exact PxBallot.zero_le b
  | some p => exact (h p hp).le

theorem promisedBallot_lt_of_lt {n : PxSlotNode} {b : PxBallot} (h : ∀ p ∈ n.promised, p < b)
    (hb : 1 ≤ b.round) : n.promisedBallot < b := by
  unfold promisedBallot
  cases hp : n.promised with
  | none => exact PxBallot.lt_def.mpr (.inl hb)
  | some p => exact h p hp

/-- The promise is raised. -/
def promise (b : PxBallot) (h : ∀ p ∈ n.promised, p < b) : PxSlotNode :=
  ⟨some b, n.accepted, fun e he => (n.accepted_le e he).trans (promisedBallot_le_of_lt h)⟩

/-- `PxAcceptor::prepare` on the node of the slot. -/
def prepare (slot : ℕ) (ballot : PxBallot) : PxSlotNode × PxPrepareReply :=
  match hp : n.promised with
  | some current =>
    if h : ballot ≤ current then (n, .rejected slot current)
    else (n.promise ballot (by simpa [hp] using h), .promised slot n.accepted)
  | none => (n.promise ballot (by simp [hp]), .promised slot n.accepted)

/-- The entry is stored, and the promise raised if the entry's ballot is higher
    (a missing promise counts as `(0, 0)`). -/
def store (entry : PxLogEntry) : PxSlotNode :=
  ⟨if n.promised.getD .zero < entry.ballot then some entry.ballot else n.promised, some entry, by
    intro e he
    obtain rfl : entry = e := by simpa using he
    split
    · exact le_rfl
    · exact not_lt.mp ‹_›⟩

/-- `PxAcceptor::inner_accept` on the node of the slot. -/
def accept (entry : PxLogEntry) : PxSlotNode × PxAcceptReply :=
  match n.promised with
  | some promised =>
    if entry.ballot < promised then (n, .rejected entry.slot promised)
    else (n.store entry, .accepted entry.slot entry.ballot)
  | none => (n.store entry, .accepted entry.slot entry.ballot)

variable {n : PxSlotNode} {slot : ℕ} {b : PxBallot} {entry : PxLogEntry}

/-- What a `prepare` can do: refuse, or move a lower promise to the ballot and
    report the accepted entry. -/
theorem prepare_cases (slot : ℕ) (b : PxBallot) :
    (∃ p, n.promised = some p ∧ b ≤ p ∧ n.prepare slot b = (n, .rejected slot p)) ∨
    (∃ h : ∀ p ∈ n.promised, p < b, n.prepare slot b =
      (n.promise b h, .promised slot n.accepted)) := by
  unfold prepare
  split
  · next p hp =>
    split
    · exact .inl ⟨p, hp, ‹_›, rfl⟩
    · next hlt => exact .inr ⟨by simpa [hp] using hlt, rfl⟩
  · next hp => exact .inr ⟨by simp [hp], rfl⟩

/-- What an `accept` can do: refuse below the promise, or store the entry. -/
theorem accept_cases (entry : PxLogEntry) :
    (∃ p, n.promised = some p ∧ entry.ballot < p ∧ n.accept entry = (n, .rejected entry.slot p)) ∨
    (n.promisedBallot ≤ entry.ballot ∧
      n.accept entry = (n.store entry, .accepted entry.slot entry.ballot)) := by
  unfold accept promisedBallot
  split
  · next p hp =>
    split
    · exact .inl ⟨p, hp, ‹_›, rfl⟩
    · next hlt => exact .inr ⟨by simpa [hp] using not_lt.mp hlt, rfl⟩
  · next hp => exact .inr ⟨by simpa [hp] using PxBallot.zero_le _, rfl⟩

@[simp] theorem promise_promised {h} : (n.promise b h).promised = some b := rfl
@[simp] theorem promise_promisedBallot {h} : (n.promise b h).promisedBallot = b := rfl
@[simp] theorem promise_accepted {h} : (n.promise b h).accepted = n.accepted := rfl
@[simp] theorem store_accepted : (n.store entry).accepted = some entry := rfl

@[simp] theorem store_promisedBallot :
    (n.store entry).promisedBallot = max n.promisedBallot entry.ballot := by
  unfold store promisedBallot
  split
  · exact (max_eq_right (le_of_lt ‹_›)).symm
  · exact (max_eq_left (not_lt.mp ‹_›)).symm

@[simp] theorem prepare_accepted : (n.prepare slot b).1.accepted = n.accepted := by
  rcases n.prepare_cases slot b with ⟨p, -, -, h⟩ | ⟨_, h⟩ <;> simp [h]

theorem le_prepare_promisedBallot : b ≤ (n.prepare slot b).1.promisedBallot := by
  rcases n.prepare_cases slot b with ⟨p, hp, hle, h⟩ | ⟨_, h⟩
  · simpa [h, promisedBallot, hp] using hle
  · simp [h]

theorem promisedBallot_le_prepare : n.promisedBallot ≤ (n.prepare slot b).1.promisedBallot := by
  rcases n.prepare_cases slot b with ⟨p, _, _, h⟩ | ⟨hlt, h⟩
  · simp [h]
  · simpa [h] using promisedBallot_le_of_lt hlt

theorem le_accept_promisedBallot : entry.ballot ≤ (n.accept entry).1.promisedBallot := by
  rcases n.accept_cases entry with ⟨p, hp, hlt, h⟩ | ⟨-, h⟩
  · simpa [h, promisedBallot, hp] using hlt.le
  · simp [h]

theorem promisedBallot_le_accept : n.promisedBallot ≤ (n.accept entry).1.promisedBallot := by
  rcases n.accept_cases entry with ⟨p, _, _, h⟩ | ⟨-, h⟩ <;> simp [h]

theorem mem_accept_accepted {e : PxLogEntry} (h : e ∈ (n.accept entry).1.accepted) :
    e = entry ∨ e ∈ n.accepted := by
  rcases n.accept_cases entry with ⟨p, -, -, hc⟩ | ⟨-, hc⟩
  · exact .inr (by simpa [hc] using h)
  · exact .inl (by simpa [hc, eq_comm] using h)

end PxSlotNode

/-! ## All slots -/

/-- The acceptor: one node per slot, and the highest slot ever opened by a
    `prepare` or an `accept`. -/
structure PxAcceptor where
  nodes : ℕ → PxSlotNode
  highestSeenSlot : ℕ
  slot_eq : ∀ s, ∀ e ∈ (nodes s).accepted, e.slot = s
  seen : ∀ s, ∀ e ∈ (nodes s).accepted, s ≤ highestSeenSlot

namespace PxAcceptor

/-- Nothing seen. -/
def new : PxAcceptor := ⟨fun _ => .new, 0, by simp [PxSlotNode.new], by simp [PxSlotNode.new]⟩

variable (a : PxAcceptor)
variable (slot : ℕ)

/-- The accepted entry of a slot. -/
def acceptedAt : Option PxLogEntry := (a.nodes slot).accepted

/-- The promise of a slot. -/
def promisedAt : Option PxBallot := (a.nodes slot).promised

/-- The node of `slot` is replaced, and `slot` counted as seen. -/
def setNode (n : PxSlotNode) (h : ∀ e ∈ n.accepted, e.slot = slot) : PxAcceptor where
  nodes := Function.update a.nodes slot n
  highestSeenSlot := max a.highestSeenSlot slot
  slot_eq s e he := by
    by_cases hs : s = slot
    · subst hs; exact h e (by simpa using he)
    · exact a.slot_eq s e (by simpa [Function.update_of_ne hs] using he)
  seen s e he := by
    by_cases hs : s = slot
    · subst hs; exact le_max_right ..
    · exact (a.seen s e (by simpa [Function.update_of_ne hs] using he)).trans (le_max_left ..)

/-- `prepare`. -/
def prepare (ballot : PxBallot) : PxAcceptor × PxPrepareReply :=
  let r := (a.nodes slot).prepare slot ballot
  (a.setNode slot r.1 fun e he => a.slot_eq slot e (by simpa [r] using he), r.2)

/-- `accept`. -/
def accept (entry : PxLogEntry) : PxAcceptor × PxAcceptReply :=
  let r := (a.nodes entry.slot).accept entry
  (a.setNode entry.slot r.1 fun e he =>
    (PxSlotNode.mem_accept_accepted he).elim (· ▸ rfl) (a.slot_eq _ e), r.2)

/-- The tip of the accepted log at or below a slot. -/
def acceptedTipAt : ℕ → Option (ℕ × ℕ)
  | 0 => none
  | slot + 1 =>
    match a.acceptedAt (slot + 1) with
    | some entry => some (entry.slot, entry.term)
    | none => acceptedTipAt slot

/-- `(slot, term)` of the highest accepted entry. -/
def acceptedLogTip : Option (ℕ × ℕ) := a.acceptedTipAt a.highestSeenSlot

variable {a : PxAcceptor} {s slot : ℕ} {b : PxBallot} {entry : PxLogEntry}

theorem prepare_nodes : (a.prepare slot b).1.nodes s =
    if s = slot then ((a.nodes slot).prepare slot b).1 else a.nodes s := by
  simp only [prepare, setNode, Function.update_apply]

theorem accept_nodes : (a.accept entry).1.nodes s =
    if s = entry.slot then ((a.nodes entry.slot).accept entry).1 else a.nodes s := by
  simp only [accept, setNode, Function.update_apply]

theorem prepare_nodes_of_node {reply : PxPrepareReply}
    (h : (a.nodes slot).prepare slot b = (a.nodes slot, reply)) :
    (a.prepare slot b).1.nodes = a.nodes := by
  funext s
  rw [prepare_nodes]
  split
  · subst_vars; rw [h]
  · rfl

theorem accept_nodes_of_node {reply : PxAcceptReply}
    (h : (a.nodes entry.slot).accept entry = (a.nodes entry.slot, reply)) :
    (a.accept entry).1.nodes = a.nodes := by
  funext s
  rw [accept_nodes]
  split
  · subst_vars; rw [h]
  · rfl

theorem acceptedAt_accept (h : (a.nodes entry.slot).promisedBallot ≤ entry.ballot) :
    (a.accept entry).1.acceptedAt entry.slot = some entry := by
  rw [acceptedAt, accept_nodes, if_pos rfl]
  rcases (a.nodes entry.slot).accept_cases entry with ⟨p, hp, hlt, -⟩ | ⟨-, hstore⟩
  · rw [PxSlotNode.promisedBallot, hp] at h
    exact absurd hlt (not_lt.2 h)
  · rw [hstore, PxSlotNode.store_accepted]

@[simp] theorem prepare_snd : (a.prepare slot b).2 = ((a.nodes slot).prepare slot b).2 := rfl
@[simp] theorem accept_snd : (a.accept entry).2 = ((a.nodes entry.slot).accept entry).2 := rfl

end PxAcceptor

end CrowDB
