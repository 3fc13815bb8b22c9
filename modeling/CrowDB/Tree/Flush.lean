/-
  The two levels of the tree under concurrency (`crowdb-tree.cpp`): `apply` writes to the
  active memtable, `flush` freezes it, takes the frozen memtables, moves their contiguous
  prefix to the tree and the rest back to the active memtable, and `get` looks at the
  memtables and then at the tree.

  Every access to shared data is a step of its own; any number of applies and gets run
  next to one flush (`write_mutex_`).  The tree itself is a map here.
-/
import CrowDB.Lib.Runs
import CrowDB.Tree.MemTable

namespace CrowDB

open Lib Option

/-- `max_memtable_count`, with the bound that its documentation asks for. -/
structure MemOptions where
  maxMemtableCount : ℕ
  two_le : 2 ≤ maxMemtableCount

/-! ## What runs -/

/-- An apply: the cells it still has to upsert, and the memtable it has read. -/
structure ApplyTask (K V : Type*) where
  slot : ℕ
  todo : List (K × Cell V)
  table : Option ℕ := none

/-- The memtables still to probe, and the best cell; `need` is the highest slot applied to the key
    at the start. -/
structure GetTask (K V : Type*) where
  key : K
  need : ℕ
  todo : List ℕ
  best : Option (Cell V) := none

/-- What a get has returned. -/
structure GetAnswer (K V : Type*) where
  key : K
  need : ℕ
  cell : Option (Cell V)
deriving DecidableEq

/-- One round of the loop in `flush`. -/
structure FlushPass where
  iter : ℕ
  wroteAny : Bool
  toDrain : List ℕ
  cs : ℕ
  active : ℕ

/-- Where a flush stands; each constructor is named after what it does next. -/
inductive FlushPc (K V : Type*) where
  | freeze (active : ℕ)
  | readFinal
  | take (iter finalCs : ℕ) (wroteAny : Bool)
  | readSlot (iter : ℕ) (wroteAny : Bool) (toDrain : List ℕ)
  | readActive (iter : ℕ) (wroteAny : Bool) (toDrain : List ℕ) (cs : ℕ)
  | merge (pass : FlushPass) (last : Option K) (group : List (K × Cell V))
  | drain (pass : FlushPass) (rest : List ℕ)
  | leftovers (pass : FlushPass) (table : ℕ) (rest : List ℕ)
  | relocate (pass : FlushPass) (cells : List (K × Cell V)) (rest : List ℕ)
  | raiseFloor (pass : FlushPass)
  | storeSlot (pass : FlushPass)
  | finish (finalCs : ℕ) (wroteAny : Bool)

/-- The tree, and what runs on it. -/
structure LsmState (K V : Type*) [LinearOrder K] where
  tables : ℕ → MemTable K V := fun _ => {}
  nextId : ℕ := 1
  active : ℕ := 0
  frozen : List ℕ := []
  l1 : RecordStore K (Cell V) := .empty
  contiguousSlot : ℕ := 0
  receivedSlots : List ℕ := []
  lastAppliedSlot : ℕ := 0
  applies : List (ApplyTask K V) := []
  flush : Option (FlushPc K V) := none
  gets : List (GetTask K V) := []
  /-- the cells of all applies so far -/
  started : List (K × Cell V) := []
  /-- the slots of all applies so far -/
  slots : List ℕ := []
  /-- the slots of the applies that have returned -/
  noted : List ℕ := []
  answers : List (GetAnswer K V) := []

/-- A step of an apply, of a flush or of a get. -/
inductive LsmEvent (K V : Type*) where
  | applyStart (slot : ℕ) (ops : List (K × Option V))
  | applyReadActive (i : ℕ)
  | applyUpsert (i : ℕ)
  | applyNote (i : ℕ)
  | autoFreeze
  | flushStart
  | flushStep
  | flushPublish
  | getStart (key : K)
  | getStep (i : ℕ)

variable {K V : Type*} [LinearOrder K]

/-! ## Applies -/

/-- The cells of a batch: the last operation on a key wins, in key order. -/
def latest (slot : ℕ) (ops : List (K × Option V)) : RecordStore K (Cell V) :=
  ops.foldl (fun cells op => cells.put op.1 ⟨slot, op.2⟩) .empty

/-- Fold received slots that extend the frontier one by one. -/
def recomputeContiguous (received : List ℕ) : ℕ → ℕ → ℕ
  | 0, cur => cur
  | fuel + 1, cur => if cur + 1 ∈ received then recomputeContiguous received fuel (cur + 1) else cur

namespace LsmState

variable (s : LsmState K V)
variable (i : ℕ)

/-- Table `i` is now `t`. -/
def setTable (t : MemTable K V) : LsmState K V := { s with tables := Function.update s.tables i t }

@[simp] theorem setTable_self (t : MemTable K V) : (s.setTable i t).tables i = t :=
  Function.update_self ..

theorem setTable_of_ne {i j : ℕ} (t : MemTable K V) (h : j ≠ i) :
    (s.setTable i t).tables j = s.tables j :=
  Function.update_of_ne h ..

/-- A cell is written to table `i`. -/
def upsertAt (p : K × Cell V) : LsmState K V := s.setTable i ((s.tables i).upsert p.1 p.2)

/-- `apply` begins. -/
def applyStart (slot : ℕ) (ops : List (K × Option V)) : LsmState K V :=
  let cells := (latest slot ops).records
  { s with
    applies := s.applies ++ [{ slot := slot, todo := cells }]
    started := s.started ++ cells
    slots := s.slots ++ [slot] }

/-- `apply` reads the active table. -/
def applyReadActive : Option (LsmState K V) := (s.applies[i]?).bind fun a =>
    if a.table.isNone then some
      { s with applies := s.applies.set i { a with table := some s.active } } else none

/-- `apply` writes a cell. -/
def applyUpsert : Option (LsmState K V) := (s.applies[i]?).bind fun a =>
    match a.todo, a.table with
    | p :: rest, some t =>
      some { s.upsertAt t p with applies := s.applies.set i { a with todo := rest } }
    | _, _ => none

/-- `note_applied_slot`, when all cells are upserted. -/
def applyNote : Option (LsmState K V) := (s.applies[i]?).bind fun a =>
    if a.todo.isEmpty then
      let received := a.slot :: s.receivedSlots
      let cur := recomputeContiguous received received.length s.contiguousSlot
      some { s with
        applies := s.applies.eraseIdx i
        noted := a.slot :: s.noted
        receivedSlots := received.filter fun n => decide (cur < n)
        contiguousSlot := cur }
    else none

/-! ## Freezing -/

/-- A fresh memtable takes over, with the floor that is known. -/
def freezeActive : LsmState K V := { s with
    frozen := s.frozen ++ [s.active]
    active := s.nextId
    nextId := s.nextId + 1
    tables := Function.update s.tables s.nextId { durableFloor := s.lastAppliedSlot } }

variable (opt : MemOptions)

/-- `maybe_freeze_active(false)`; whether the threshold is reached is left open. -/
def autoFreeze : Option (LsmState K V) :=
  if (s.tables s.active).isEmpty ∨ opt.maxMemtableCount - 1 ≤ s.frozen.length then none
  else some s.freezeActive

/-! ## Flush -/

/-- The order of the k-way merge: the lower key wins, then the higher slot. -/
def mergeWins (a b : K × Cell V) : Bool := decide (a.1 < b.1 ∨ (a.1 = b.1 ∧ b.2.slot < a.2.slot))

/-- The entries at or below `cs` that the merge has not passed. -/
def mergeEntries (tables : List (MemTable K V)) (cs : ℕ) (last : Option K) : List (K × Cell V) :=
  tables.flatMap fun t => t.cells.records.filter fun p => decide (p.2.slot ≤ cs) && last.all
    (decide <| · < p.1)

/-- The winner so far against the next source. -/
def mergePick (best : Option (K × Cell V)) (p : K × Cell V) : Option (K × Cell V) :=
  match best with
  | none => some p
  | some b => if mergeWins p b then some p else some b

/-- The next entry of the merge. -/
def nextEntry (tables : List (MemTable K V)) (cs : ℕ) (last : Option K) : Option (K × Cell V) :=
  (mergeEntries tables cs last).foldl mergePick none

/-- One step of `flush` and of `drain_all_frozen_locked` in it. -/
def flushStep (pc : FlushPc K V) : LsmState K V :=
  match pc with
  | .freeze active =>
    if s.active ≠ active ∨ (s.tables s.active).isEmpty then { s with flush := some .readFinal }
    else { s.freezeActive with flush := some .readFinal }
  | .readFinal => { s with flush := some (.take 0 s.contiguousSlot false) }
  | .take iter finalCs wroteAny =>
    if iter < opt.maxMemtableCount ∧ s.frozen ≠ [] then
      { s with frozen := [], flush := some (.readSlot iter wroteAny s.frozen) }
    else { s with flush := some (.finish finalCs wroteAny) }
  | .readSlot iter wroteAny toDrain =>
    { s with flush := some (.readActive iter wroteAny toDrain s.contiguousSlot) }
  | .readActive iter wroteAny toDrain cs =>
    { s with flush := some (.merge ⟨iter, wroteAny, toDrain, cs, s.active⟩ none []) }
  | .merge pass last group =>
    match nextEntry (pass.toDrain.map s.tables) pass.cs last with
    | some p => { s with flush := some (.merge { pass with wroteAny := true } (some p.1)
        (group ++ [p])) }
    | none => { s with l1 := publishGroup s.l1 group, flush := some (.drain pass pass.toDrain) }
  | .drain pass [] => { s with flush := some (.raiseFloor pass) }
  | .drain pass (t :: rest) =>
    { s.setTable t (((s.tables t).setDurableFloor pass.cs).drainUpTo pass.cs).2 with
      flush := some (.leftovers pass t rest) }
  | .leftovers pass t rest =>
    { s.setTable t (s.tables t).drainAll.2 with flush := some (.relocate pass
      (s.tables t).drainAll.1 rest) }
  | .relocate pass [] rest => { s with flush := some (.drain pass rest) }
  | .relocate pass (p :: cells) rest =>
    { s.upsertAt pass.active p with flush := some (.relocate pass cells rest) }
  | .raiseFloor pass =>
    { s.setTable pass.active ((s.tables pass.active).setDurableFloor pass.cs) with
      flush := some (.storeSlot pass) }
  | .storeSlot pass =>
    { s with lastAppliedSlot := pass.cs, flush := some (.take (pass.iter + 1) pass.cs pass.wroteAny) }
  | .finish finalCs wroteAny =>
    { s with
      lastAppliedSlot := if ¬ wroteAny ∧ s.lastAppliedSlot < finalCs then finalCs
        else s.lastAppliedSlot
      flush := none }

/-- The merge crosses a leaf: its group is published. -/
def flushPublish : Option (LsmState K V) :=
  match s.flush with
  | some (.merge pass last group) =>
    some { s with l1 := publishGroup s.l1 group, flush := some (.merge pass last []) }
  | _ => none

/-! ## Gets -/

/-- The highest slot on the key among the applies that have returned. -/
def appliedSlot (k : K) : ℕ :=
  ((s.started.filter fun p => decide (p.1 = k ∧ p.2.slot ∈ s.noted)).map fun p => p.2.slot).foldl
    max 0

/-- The better of two cells; the later one on a tie. -/
def pickCell (best found : Option (Cell V)) : Option (Cell V) :=
  match found, best with
  | none, best => best
  | some c, none => some c
  | some c, some b => if b.slot ≤ c.slot then some c else some b

/-- A get lists the memtables, the active one last. -/
def getStart (k : K) : LsmState K V :=
  { s with gets := s.gets ++ [{ key := k, need := s.appliedSlot k, todo := s.frozen ++ [s.active] }] }

/-- Probe the next memtable; after the last one answer with the best cell, or that of the tree. -/
def getStep : Option (LsmState K V) := (s.gets[i]?).map fun g =>
    match g.todo with
    | t :: rest =>
      { s with gets := s.gets.set i { g with todo := rest, best := pickCell g.best ((s.tables
        t).find g.key) } }
    | [] =>
      { s with
        gets := s.gets.eraseIdx i
        answers := s.answers ++ [⟨g.key, g.need, g.best.or (s.l1.get g.key)⟩] }

/-- A get with nothing else running. -/
def get (k : K) : Option (Cell V) :=
  ((s.frozen ++ [s.active]).foldl (fun best t => pickCell best ((s.tables t).find k)) none).or
    (s.l1.get k)

/-! ## The system -/

/-- One step. -/
def step (s : LsmState K V) : LsmEvent K V → Option (LsmState K V)
  | .applyStart slot ops => some (s.applyStart slot ops)
  | .applyReadActive i => s.applyReadActive i
  | .applyUpsert i => s.applyUpsert i
  | .applyNote i => s.applyNote i
  | .autoFreeze => s.autoFreeze opt
  | .flushStart => if s.flush.isSome then none else some { s with flush := some (.freeze s.active) }
  | .flushStep => s.flush.map (s.flushStep opt)
  | .flushPublish => s.flushPublish
  | .getStart k => some (s.getStart k)
  | .getStep i => s.getStep i

/-- What a step does, one constructor for each way through it. -/
inductive Steps (opt : MemOptions) (s : LsmState K V) : LsmEvent K V → LsmState K V → Prop
  | applyStart {slot ops} : Steps opt s (.applyStart slot ops) (s.applyStart slot ops)
  | readActive {i a} (ha : s.applies[i]? = some a) :
    Steps opt s (.applyReadActive i)
      { s with applies := s.applies.set i { a with table := some s.active } }
  | upsert {i a p rest t} (ha : s.applies[i]? = some a) (htodo : a.todo = p :: rest)
      (htable : a.table = some t) :
    Steps opt s (.applyUpsert i)
      { s.upsertAt t p with applies := s.applies.set i { a with todo := rest } }
  | note {i a received cur} (ha : s.applies[i]? = some a) (htodo : a.todo = [])
    (hreceived : received = a.slot :: s.receivedSlots)
    (hcur : cur = recomputeContiguous received received.length s.contiguousSlot) :
    Steps opt s (.applyNote i) { s with
      applies := s.applies.eraseIdx i
      noted := a.slot :: s.noted
      receivedSlots := received.filter fun n => decide (cur < n)
      contiguousSlot := cur }
  | autoFreeze : Steps opt s .autoFreeze s.freezeActive
  | flushStart (hnone : s.flush = none) :
      Steps opt s .flushStart { s with flush := some (.freeze s.active) }
  | flushStep {pc} (hpc : s.flush = some pc) : Steps opt s .flushStep (s.flushStep opt pc)
  | flushPublish {pass last group} (hpc : s.flush = some (.merge pass last group)) :
    Steps opt s .flushPublish
      { s with l1 := publishGroup s.l1 group, flush := some (.merge pass last []) }
  | getStart {k} : Steps opt s (.getStart k) (s.getStart k)
  | probe {i g t rest} (hg : s.gets[i]? = some g) (htodo : g.todo = t :: rest) :
      Steps opt s (.getStep i)
      { s with gets := s.gets.set i { g with todo := rest, best := pickCell g.best ((s.tables
        t).find g.key) } }
  | answer {i g} (hg : s.gets[i]? = some g) (htodo : g.todo = []) : Steps opt s (.getStep i) { s with
      gets := s.gets.eraseIdx i
      answers := s.answers ++ [⟨g.key, g.need, g.best.or (s.l1.get g.key)⟩] }

theorem steps_of_step {opt : MemOptions} {s s' : LsmState K V} {e : LsmEvent K V}
      (hs : s.step opt e = some s') :
    Steps opt s e s' := by
  cases e with
  | applyStart =>
    cases hs
    exact .applyStart
  | applyReadActive =>
    obtain ⟨a, ha, hs⟩ := bind_eq_some_iff.mp hs
    obtain ⟨-, ⟨⟩⟩ := ite_none_right_eq_some.mp hs
    exact .readActive ha
  | applyUpsert =>
    obtain ⟨a, ha, hs⟩ := bind_eq_some_iff.mp hs
    split at hs <;> cases hs
    exact .upsert ha ‹_› ‹_›
  | applyNote =>
    obtain ⟨a, ha, hs⟩ := bind_eq_some_iff.mp hs
    obtain ⟨hempty, ⟨⟩⟩ := ite_none_right_eq_some.mp hs
    exact .note ha (List.isEmpty_iff.mp hempty) rfl rfl
  | autoFreeze =>
    obtain ⟨-, ⟨⟩⟩ := ite_none_left_eq_some.mp hs
    exact .autoFreeze
  | flushStart =>
    obtain ⟨hnone, ⟨⟩⟩ := ite_none_left_eq_some.mp hs
    exact .flushStart (by simpa using hnone)
  | flushStep =>
    obtain ⟨pc, hpc, rfl⟩ := map_eq_some_iff.mp hs
    exact .flushStep hpc
  | flushPublish =>
    simp only [step, flushPublish] at hs
    split at hs <;> cases hs
    exact .flushPublish ‹_›
  | getStart =>
    cases hs
    exact .getStart
  | getStep =>
    obtain ⟨g, hg, rfl⟩ := map_eq_some_iff.mp hs
    split
    · exact .probe hg ‹_›
    · exact .answer hg ‹_›

end LsmState

end CrowDB
