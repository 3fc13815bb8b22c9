/-
  Moving a bucket range to another KV group (`migration.rs`, `storage.rs`).

  The migration task copies the records of the range from the old group to the new one, page
  by page, and deletes the old copies after a dwell.  Meanwhile `put_chunk` writes to the new
  group and then to the old one, and `get_chunk` reads the new group and then the old one.

  Every KV operation is a step of its own; any number of puts and gets run next to the task.
  The keys are those under the prefix of chunk records, in key order.
-/
import CrowDB.Lib.RecordStore
import CrowDB.Lib.Runs

namespace CrowDB

open Lib

/-- `MigrationState`. -/
inductive MigrationState where
  | notMigrating | copying | cutover | cleanup | complete
deriving DecidableEq

/-- Writes go to both groups, and reads fall back to the old one. -/
def MigrationState.isDual : MigrationState → Bool
  | .copying | .cutover => true
  | .notMigrating | .cleanup | .complete => false

/-! ## What runs -/

/-- Where the task stands: `startAfter` is the cursor, `page` what is left of the last scan. -/
inductive MigrationPc (K V : Type*) where
  | copyScan (startAfter : Option K)
  | copyPut (page : List (K × V)) (startAfter : Option K) (truncated : Bool)
  | dwell
  | cleanScan (startAfter : Option K)
  | cleanDelete (page : List (K × V)) (startAfter : Option K) (truncated : Bool)
  | done

/-- A `put_chunk` with the route it has read. -/
structure ChunkPut (K V : Type*) where
  id : K
  value : V
  dual : Bool
  wroteNew : Bool := false

/-- A `get_chunk`; `last` is what the last put before it wrote, `during` what overlapping puts
    write. -/
structure ChunkGet (K V : Type*) where
  id : K
  dual : Bool
  missedNew : Bool := false
  last : Option V
  during : List V

/-- An answer, and what it may be. -/
structure ChunkAnswer (K V : Type*) where
  id : K
  value : Option V
  last : Option V
  during : List V
deriving DecidableEq

/-- Both groups, and what runs on them. -/
structure MigrationSystem (K V : Type*) [LinearOrder K] where
  old : RecordStore K V
  new : RecordStore K V
  binding : MigrationState := .copying
  task : MigrationPc K V := .copyScan none
  puts : List (ChunkPut K V) := []
  gets : List (ChunkGet K V) := []
  /-- the record of the last completed put of each id -/
  last : K → Option V
  answers : List (ChunkAnswer K V) := []

/-- A step of the task, of a put or of a get. -/
inductive MigrationEvent (K V : Type*) where
  | task
  | setBinding (state : MigrationState)
  | putStart (id : K) (value : V)
  | putStep (i : ℕ)
  | getStart (id : K)
  | getStep (i : ℕ)

variable {K V : Type*} [LinearOrder K]

/-! ## The task -/

/-- The records of a page. -/
def batchSize : ℕ := 100

/-- One page of a scan, and whether more records follow. -/
def scanPage (s : RecordStore K V) (startAfter : Option K) : List (K × V) × Bool :=
  let rest := s.records.filter fun p => startAfter.all (decide <| · < p.1)
  (rest.take batchSize, decide (batchSize < rest.length))

/-- The copy phase is over. -/
def MigrationPc.copied : MigrationPc K V → Bool
  | .copyScan _ | .copyPut _ _ _ => false
  | .dwell | .cleanScan _ | .cleanDelete _ _ _ | .done => true

/-- The records that the copier holds. -/
def MigrationPc.page : MigrationPc K V → List (K × V)
  | .copyPut page _ _ => page
  | .copyScan _ | .dwell | .cleanScan _ | .cleanDelete _ _ _ | .done => []

namespace MigrationSystem

variable (s : MigrationSystem K V)

/-- A group in which the range has the records of `old`, before the task has started. -/
def start (old new : RecordStore K V) : MigrationSystem K V :=
  { old := old, new := new, last := old.get }

/-- `copy_phase`, the dwell, and `cleanup_phase`. -/
def taskStep (inRange : K → Bool) : MigrationPc K V → MigrationSystem K V
  | .copyScan startAfter =>
    let (page, truncated) := scanPage s.old startAfter
    { s with task := if page.isEmpty then .dwell else .copyPut page startAfter truncated }
  | .copyPut [] startAfter truncated =>
      { s with task := if truncated then .copyScan startAfter else .dwell }
  | .copyPut ((k, v) :: page) _ truncated =>
    { s with new := if inRange k then s.new.put k v else s.new
             task := .copyPut page (some k) truncated }
  | .dwell => { s with task := .cleanScan none }
  | .cleanScan startAfter =>
    let (page, truncated) := scanPage s.old startAfter
    { s with task := if page.isEmpty then .done else .cleanDelete page startAfter truncated }
  | .cleanDelete [] startAfter truncated =>
      { s with task := if truncated then .cleanScan startAfter else .done }
  | .cleanDelete ((k, _) :: page) _ truncated =>
    { s with old := if inRange k then s.old.delete k else s.old
             task := .cleanDelete page (some k) truncated }
  | .done => s

/-! ## Puts and gets -/

/-- `put_chunk` begins. -/
def putStart (id : K) (value : V) : MigrationSystem K V := { s with
    puts := s.puts ++ [{ id := id, value := value, dual := s.binding.isDual }]
    gets := s.gets.map fun g => if g.id = id then { g with during := g.during ++ [value] } else g }

/-- A put is completed by its last write. -/
def putStep (i : ℕ) : Option (MigrationSystem K V) := (s.puts[i]?).map fun p =>
    if p.wroteNew then
      { s with
        old := s.old.put p.id p.value
        puts := s.puts.eraseIdx i
        last := Function.update s.last p.id (some p.value) }
    else if p.dual then
      { s with new := s.new.put p.id p.value, puts := s.puts.set i { p with wroteNew := true } }
    else
      { s with
        new := s.new.put p.id p.value
        puts := s.puts.eraseIdx i
        last := Function.update s.last p.id (some p.value) }

/-- `get_chunk` begins. -/
def getStart (id : K) : MigrationSystem K V := { s with
    gets := s.gets ++ [{
      id := id, dual := s.binding.isDual, last := s.last id
      during := (s.puts.filter fun p => decide (p.id = id)).map ChunkPut.value }] }

/-- Get `i` returns `value`. -/
def answer (i : ℕ) (g : ChunkGet K V) (value : Option V) : MigrationSystem K V :=
  { s with gets := s.gets.eraseIdx i, answers := s.answers ++ [⟨g.id, value, g.last, g.during⟩] }

/-- `get_chunk`: the new group, then the old one. -/
def getStep (i : ℕ) : Option (MigrationSystem K V) := (s.gets[i]?).map fun g =>
    if g.missedNew then s.answer i g (s.old.get g.id)
    else match s.new.get g.id with
    | some v => s.answer i g (some v)
    | none => if g.dual then { s with gets := s.gets.set i { g with missedNew := true } } else
        s.answer i g none

/-- One KV operation, or a change of the binding: it leaves the dual-write states only after the
    copy phase. -/
def step (inRange : K → Bool) (s : MigrationSystem K V) :
    MigrationEvent K V → Option (MigrationSystem K V)
  | .task => some (s.taskStep inRange s.task)
  | .setBinding state => if state.isDual || s.task.copied then some
      { s with binding := state } else none
  | .putStart id value => if inRange id then some (s.putStart id value) else none
  | .putStep i => s.putStep i
  | .getStart id => if inRange id then some (s.getStart id) else none
  | .getStep i => s.getStep i

end MigrationSystem

end CrowDB
