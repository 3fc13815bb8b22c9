/-
  WAL records of one group (`wal/record.rs`).

  A record is `Promised`, `Accepted` or `VoteGranted`.  The source keeps all three
  in one struct with a type tag; a `VoteGranted` record has slot `0` and ballot
  `(0, 0)`, and its payload is the id voted for.
-/
import CrowDB.Paxos.Roles

namespace CrowDB

/-- The three kinds of records. -/
inductive WALRecord where
  | promised (term slot : ℕ) (ballot : PxBallot)
  | accepted (entry : PxLogEntry)
  | voteGranted (term votedFor : ℕ)
deriving DecidableEq

namespace WALRecord

/-- The term of a record. -/
def term : WALRecord → ℕ
  | promised term _ _ => term
  | accepted entry => entry.term
  | voteGranted term _ => term

/-- The slot of a record. -/
def slot : WALRecord → ℕ
  | promised _ slot _ => slot
  | accepted entry => entry.slot
  | voteGranted _ _ => 0

/-- The id voted for, for a `VoteGranted` record only. -/
def votedForId : WALRecord → Option ℕ
  | voteGranted _ votedFor => some votedFor
  | _ => none

/-- The ballot a `Promised` or `Accepted` record acknowledges at `slot`. -/
def ackedAt (slot : ℕ) : WALRecord → Option PxBallot
  | promised _ s ballot => if s = slot then some ballot else none
  | accepted entry => if entry.slot = slot then some entry.ballot else none
  | voteGranted _ _ => none

end WALRecord

end CrowDB
