/-
  Rebuilding an acceptor from the replayed WAL (`cluster/local_replica_replay.rs`, Pass 1), and what
  an acceptor's acknowledgements leave in the WAL (`cluster/local_replica_accept.rs`).

  `on_prepare` and `on_accept` first run the in-memory step and then append the record, so two calls
  on one slot may append in the opposite order (`AckState`).  Replay goes back through the ballot
  checks of `prepare` and `accept`.
-/
import Mathlib.Data.List.Induction
import CrowDB.Lib.Runs
import CrowDB.Paxos.Acceptor
import CrowDB.Wal.Record

namespace CrowDB

open Lib List

/-! ## Pass 1 of the restore -/

/-- One replayed record goes through the acceptor; the replies are ignored. -/
def restoreRecord (a : PxAcceptor) : WALRecord → PxAcceptor
  | .promised _ slot ballot => (a.prepare slot ballot).1
  | .accepted entry => (a.accept entry).1
  | .voteGranted _ _ => a

/-- Pass 1 of replay. -/
def restoreAcceptor (records : List WALRecord) : PxAcceptor := records.foldl restoreRecord .new

@[simp] theorem restoreAcceptor_nil : restoreAcceptor [] = .new := rfl

@[simp] theorem restoreAcceptor_concat (wal : List WALRecord) (r : WALRecord) :
    restoreAcceptor (wal ++ [r]) = restoreRecord (restoreAcceptor wal) r := by
  simp [restoreAcceptor]

/-! ## One record -/

variable {a : PxAcceptor} {wal : List WALRecord} {r : WALRecord} {slot : ℕ} {b : PxBallot}
  {e : PxLogEntry}

theorem ackedAt_le_restoreRecord (h : r.ackedAt slot = some b) :
    b ≤ ((restoreRecord a r).nodes slot).promisedBallot := by
  cases r with
  | promised t s b' =>
    obtain ⟨rfl, rfl⟩ : s = slot ∧ b' = b := by simpa [WALRecord.ackedAt] using h
    simpa [restoreRecord, PxAcceptor.prepare_nodes] using PxSlotNode.le_prepare_promisedBallot
  | accepted entry =>
    obtain ⟨rfl, rfl⟩ : entry.slot = slot ∧ entry.ballot = b := by
      simpa [WALRecord.ackedAt] using h
    simpa [restoreRecord, PxAcceptor.accept_nodes] using PxSlotNode.le_accept_promisedBallot
  | voteGranted => simp [WALRecord.ackedAt] at h

theorem promisedBallot_le_restoreRecord :
    (a.nodes slot).promisedBallot ≤ ((restoreRecord a r).nodes slot).promisedBallot := by
  cases r with
  | promised =>
    simp only [restoreRecord, PxAcceptor.prepare_nodes]
    split
    · subst_vars; exact PxSlotNode.promisedBallot_le_prepare
    · exact le_rfl
  | accepted =>
    simp only [restoreRecord, PxAcceptor.accept_nodes]
    split
    · subst_vars; exact PxSlotNode.promisedBallot_le_accept
    · exact le_rfl
  | voteGranted => exact le_rfl

theorem restoreRecord_promisedBallot (a : PxAcceptor) (r : WALRecord) (slot : ℕ) :
    ((restoreRecord a r).nodes slot).promisedBallot = (a.nodes slot).promisedBallot ∨
    r.ackedAt slot = some ((restoreRecord a r).nodes slot).promisedBallot := by
  cases r with
  | promised t s b' =>
    simp only [restoreRecord, PxAcceptor.prepare_nodes]
    split
    · subst_vars
      rcases (a.nodes s).prepare_cases s b' with ⟨p, -, -, hc⟩ | ⟨_, hc⟩
      · exact .inl (by simp [hc])
      · exact .inr (by simp [hc, WALRecord.ackedAt])
    · exact .inl rfl
  | accepted entry =>
    simp only [restoreRecord, PxAcceptor.accept_nodes]
    split
    · subst_vars
      rcases (a.nodes entry.slot).accept_cases entry with ⟨p, -, -, hc⟩ | ⟨hle, hc⟩
      · exact .inl (by simp [hc])
      · exact .inr (by simp [hc, WALRecord.ackedAt, hle])
    · exact .inl rfl
  | voteGranted => exact .inl rfl

theorem restoreRecord_accepted (a : PxAcceptor) (r : WALRecord) (slot : ℕ) :
    ((restoreRecord a r).nodes slot).accepted = (a.nodes slot).accepted ∨
    ∃ e, r = .accepted e ∧ e.slot = slot ∧ (a.nodes slot).promisedBallot ≤ e.ballot ∧
      ((restoreRecord a r).nodes slot).accepted = some e := by
  cases r with
  | promised =>
    simp only [restoreRecord, PxAcceptor.prepare_nodes]
    split
    · subst_vars; exact .inl (by simp)
    · exact .inl rfl
  | accepted entry =>
    simp only [restoreRecord, PxAcceptor.accept_nodes]
    split
    · next hs =>
      subst hs
      rcases (a.nodes entry.slot).accept_cases entry with ⟨p, -, -, hc⟩ | ⟨hle, hc⟩
      · exact .inl (by simp [hc])
      · exact .inr ⟨entry, rfl, rfl, hle, by simp [hc]⟩
    · exact .inl rfl
  | voteGranted => exact .inl rfl

/-! ## The whole WAL

The lemmas below are by induction on the WAL from its end (`List.reverseRecOn`):
the last record meets the acceptor rebuilt from all earlier ones. -/

/-- **The rebuilt promise** is at least every acknowledged ballot of the slot. -/
theorem ackedAt_le_restore : r ∈ wal → r.ackedAt slot = some b →
    b ≤ ((restoreAcceptor wal).nodes slot).promisedBallot := by
  induction wal using reverseRecOn with
  | nil => simp
  | append_singleton _ r' ih =>
    intro hr hb
    rw [restoreAcceptor_concat]
    rcases mem_append.mp hr with hr | hr
    · exact (ih hr hb).trans promisedBallot_le_restoreRecord
    · obtain rfl : r = r' := by simpa using hr
      exact ackedAt_le_restoreRecord hb

theorem restore_promisedBallot_acked (wal : List WALRecord) (slot : ℕ) :
    ((restoreAcceptor wal).nodes slot).promisedBallot = .zero ∨
    ∃ r ∈ wal, r.ackedAt slot = some ((restoreAcceptor wal).nodes slot).promisedBallot := by
  induction wal using reverseRecOn with
  | nil => exact .inl rfl
  | append_singleton wal r ih =>
    rw [restoreAcceptor_concat]
    rcases restoreRecord_promisedBallot (restoreAcceptor wal) r slot with hk | hk
    · rw [hk]
      exact ih.imp id fun ⟨r', hr, hb⟩ => ⟨r', mem_append_left _ hr, hb⟩
    · exact .inr ⟨r, mem_append_right _ (mem_singleton_self _), hk⟩

/-- The rebuilt entry has a record at whose place the promise did not exceed its ballot. -/
theorem restore_acceptedAt_split : (restoreAcceptor wal).acceptedAt slot = some e →
    ∃ pre post, wal = pre ++ .accepted e :: post ∧ e.slot = slot ∧
      ((restoreAcceptor pre).nodes slot).promisedBallot ≤ e.ballot := by
  induction wal using reverseRecOn with
  | nil => simp [PxAcceptor.acceptedAt, PxAcceptor.new, PxSlotNode.new]
  | append_singleton wal r ih =>
    intro h
    rw [restoreAcceptor_concat] at h
    rcases restoreRecord_accepted (restoreAcceptor wal) r slot with hk | ⟨e', rfl, hs, hle, hk⟩
    · obtain ⟨pre, post, rfl, he, hle⟩ := ih (hk.symm.trans h)
      exact ⟨pre, post ++ [r], by simp, he, hle⟩
    · obtain rfl : e' = e := by simpa [PxAcceptor.acceptedAt, hk] using h
      exact ⟨wal, [], rfl, hs, hle⟩

theorem restore_acceptedAt_mem (h : (restoreAcceptor wal).acceptedAt slot = some e) :
    .accepted e ∈ wal ∧ e.slot = slot := by
  obtain ⟨pre, post, rfl, hs, -⟩ := restore_acceptedAt_split h
  exact ⟨by simp, hs⟩

theorem restore_acceptedAt_append {pre : List WALRecord}
    (h : (restoreAcceptor pre).acceptedAt slot = some e) (post : List WALRecord) :
    ∃ e', (restoreAcceptor (pre ++ post)).acceptedAt slot = some e' ∧ e.ballot ≤ e'.ballot := by
  induction post using reverseRecOn with
  | nil => exact ⟨e, by simpa using h, le_rfl⟩
  | append_singleton post r ih =>
    obtain ⟨e', he', hle⟩ := ih
    rw [← append_assoc, restoreAcceptor_concat]
    rcases restoreRecord_accepted (restoreAcceptor (pre ++ post)) r slot with
      hk | ⟨e'', -, -, hp, hk⟩
    · exact ⟨e', by rw [PxAcceptor.acceptedAt, hk]; exact he', hle⟩
    · exact ⟨e'', hk, (hle.trans (PxSlotNode.accepted_le _ e' he')).trans hp⟩

/-! ## Acknowledged records survive a restart -/

/-- A restart owes the proposers a promise as high as every acknowledged ballot, and an entry of the
    highest accepted one. -/
structure Recovers (wal : List WALRecord) (slot : ℕ) : Prop where
  promise : ∀ r ∈ wal, ∀ b, r.ackedAt slot = some b →
    b ≤ ((restoreAcceptor wal).nodes slot).promisedBallot
  accepted : ∀ e, .accepted e ∈ wal → e.slot = slot →
    ∃ a, (restoreAcceptor wal).acceptedAt slot = some a ∧ .accepted a ∈ wal ∧ e.ballot ≤ a.ballot

/-- An `Accepted` record of the highest accepted ballot has no higher `Promised` record before it. -/
def TopAcceptUnshadowed (wal : List WALRecord) (slot : ℕ) : Prop :=
  (∀ e, .accepted e ∈ wal → e.slot ≠ slot) ∨
  ∃ pre e post, wal = pre ++ .accepted e :: post ∧ e.slot = slot ∧
    (∀ e', .accepted e' ∈ wal → e'.slot = slot → e'.ballot ≤ e.ballot) ∧
    ∀ term b, .promised term slot b ∈ pre → b ≤ e.ballot

/-- An unshadowed top record gets in, and every later entry of the slot is at or above it. -/
theorem TopAcceptUnshadowed.restores (h : TopAcceptUnshadowed wal slot) (he : .accepted e ∈ wal)
    (hslot : e.slot = slot) :
    ∃ a, (restoreAcceptor wal).acceptedAt slot = some a ∧ e.ballot ≤ a.ballot := by
  rcases h with hn | ⟨pre, top, post, rfl, rfl, htop, hpre⟩
  · exact absurd hslot (hn e he)
  -- the promise met by the top record is `(0, 0)`, a promised or an accepted ballot
  have hle : ((restoreAcceptor pre).nodes top.slot).promisedBallot ≤ top.ballot := by
    rcases restore_promisedBallot_acked pre top.slot with h0 | ⟨r, hr, hb⟩
    · exact h0 ▸ PxBallot.zero_le _
    · cases r with
      | promised t s b =>
        obtain ⟨rfl, hp⟩ : s = top.slot ∧ b = _ := by simpa [WALRecord.ackedAt] using hb
        exact hp ▸ hpre t b hr
      | accepted e' =>
        obtain ⟨hs, hp⟩ : e'.slot = top.slot ∧ e'.ballot = _ := by
          simpa [WALRecord.ackedAt] using hb
        exact hp ▸ htop e' (mem_append_left _ hr) hs
      | voteGranted => simp [WALRecord.ackedAt] at hb
  have hacc : (restoreAcceptor (pre ++ [.accepted top])).acceptedAt top.slot = some top := by
    rw [restoreAcceptor_concat]
    exact PxAcceptor.acceptedAt_accept hle
  obtain ⟨a, ha, hea⟩ := restore_acceptedAt_append hacc post
  simp only [append_assoc, singleton_append] at ha
  exact ⟨a, ha, (htop e he hslot).trans hea⟩

/-- **Acceptor durability**: replay gives back what was acknowledged iff the highest accepted entry
    is not shadowed. -/
theorem recovers_iff_topAcceptUnshadowed (wal : List WALRecord) (slot : ℕ) :
    Recovers wal slot ↔ TopAcceptUnshadowed wal slot := by
  constructor
  · intro h
    by_cases hn : ∀ e, .accepted e ∈ wal → e.slot ≠ slot
    · exact .inl hn
    push Not at hn
    obtain ⟨e₀, he₀, hs₀⟩ := hn
    obtain ⟨a, ha, -, -⟩ := h.accepted e₀ he₀ hs₀
    obtain ⟨pre, post, rfl, hs, hle⟩ := restore_acceptedAt_split ha
    refine .inr ⟨pre, a, post, rfl, hs, fun e' he' hs' => ?_, fun term b hb => ?_⟩
    · obtain ⟨a', ha', -, hle'⟩ := h.accepted e' he' hs'
      obtain rfl : a = a' := by simpa [ha] using ha'
      exact hle'
    · exact (ackedAt_le_restore hb (by simp [WALRecord.ackedAt])).trans hle
  · intro h
    refine ⟨fun r hr b => ackedAt_le_restore hr, fun e he hs => ?_⟩
    obtain ⟨a, ha, hle⟩ := h.restores he hs
    exact ⟨a, ha, (restore_acceptedAt_mem ha).1, hle⟩

/-! ## Calls that append independently -/

/-- An acceptor with its WAL: state, records whose append is running, and records appended. -/
structure AckState where
  acceptor : PxAcceptor
  appending : List WALRecord
  wal : List WALRecord

/-- Nothing promised, nothing logged. -/
def AckState.new : AckState := ⟨.new, [], []⟩

/-- A handler's step in memory, or its append. -/
inductive AckEvent where
  /-- the in-memory step of `on_prepare` -/
  | prepare (term slot : ℕ) (ballot : PxBallot)
  /-- the in-memory step of `on_accept` -/
  | accept (entry : PxLogEntry)
  /-- the `i`-th running append call returns -/
  | appended (i : ℕ)

/-- One step. -/
def ackStep (s : AckState) : AckEvent → Option AckState
  | .prepare term slot ballot =>
    match s.acceptor.prepare slot ballot with
    | (a, .promised _ _) => some ⟨a, s.appending ++ [.promised term slot ballot], s.wal⟩
    | (a, _) => some ⟨a, s.appending, s.wal⟩
  | .accept entry =>
    match s.acceptor.accept entry with
    | (a, .accepted _ _) => some ⟨a, s.appending ++ [.accepted entry], s.wal⟩
    | (a, _) => some ⟨a, s.appending, s.wal⟩
  | .appended i => s.appending[i]?.map fun r =>
      ⟨s.acceptor, s.appending.eraseIdx i, s.wal ++ [r]⟩

/-- An entry at `(0, 1)` and a promise at `(1, 2)` whose append returns first: replay refuses the
    entry. -/
theorem recovers_fails_reordered : ∃ s, Reach ackStep anyStep AckState.new s ∧
      ¬ Recovers s.wal 1 := by
  refine Reach.exists_imp_of_run
    (fun s => s.wal = [.promised 2 1 ⟨1, 2⟩, .accepted ⟨1, ⟨0, 1⟩, 1, [7]⟩])
    [.accept ⟨1, ⟨0, 1⟩, 1, [7]⟩, .prepare 2 1 ⟨1, 2⟩, .appended 1, .appended 0]
      (by decide) fun s _ hs => ?_
  refine fun h => ?_
  rw [hs] at h
  obtain ⟨a, ha, -, -⟩ := h.accepted ⟨1, ⟨0, 1⟩, 1, [7]⟩ (by simp) rfl
  have hn : (restoreAcceptor [.promised 2 1 ⟨1, 2⟩, .accepted ⟨1, ⟨0, 1⟩, 1, [7]⟩]).acceptedAt 1 =
    none := by decide
  simp [hn] at ha

end CrowDB
