/-
  Group membership and its epoch (`cluster/group_membership.rs`,
  `crowdb-kv-server/src/group_rebuild.rs`, `mgmt/replica_ops.rs`), and the epoch
  fence on Prepare and Accept requests (`rpc/px_rpc_service.rs`).

  Every node keeps its own list of remote replicas and a number, the membership epoch.  It is bumped
  when an operation changes the voting set, carried by every request, compared for equality by the
  acceptor, and raised to a higher one seen in a request or a mismatch reply; none of these looks at
  the voting set.

  The remote list is indexed by node id in the source, with placeholders for the ids that are not
  members; here it holds the members only, and the cached quorum is a function of it.
-/
import CrowDB.Lib.Quorum
import CrowDB.Lib.Runs

namespace CrowDB

open Lib

/-! ## The members of a group, as one node sees them -/

/-- `RemoteReplica`. -/
structure RemoteReplica where
  nodeId : ℕ
  endpoint : String
  voting : Bool
deriving DecidableEq

/-- The membership part of a `PxGroup`. -/
structure PxMembers where
  localId : ℕ
  localVoting : Bool
  remotes : List RemoteReplica
  membershipEpoch : ℕ

namespace PxMembers

variable (g : PxMembers)

/-- The voting members. -/
def votingSet : Finset ℕ := (if g.localVoting then {g.localId} else ∅) ∪
    ((g.remotes.filter RemoteReplica.voting).map RemoteReplica.nodeId).toFinset

/-- `recompute_quorum`: a majority of the voting members. -/
def quorum : ℕ :=
  majority ((g.remotes.filter RemoteReplica.voting).length + if g.localVoting then 1 else 0)

variable (remotes : List RemoteReplica)

/-- The entry of `r`'s node is replaced, or added. -/
def upsert (r : RemoteReplica) : List RemoteReplica :=
  remotes.filter (fun x => x.nodeId ≠ r.nodeId) ++ [r]

/-- `id` is a voting remote. -/
def wasVoting (id : ℕ) : Bool := g.remotes.any fun x => x.nodeId = id ∧ x.voting

/-- `bump_membership_epoch`. -/
def bumpMembershipEpoch : PxMembers := { g with membershipEpoch := g.membershipEpoch + 1 }

/-- `adopt_membership_epoch`. -/
def adoptMembershipEpoch (epoch : ℕ) : PxMembers :=
  { g with membershipEpoch := if g.membershipEpoch < epoch then epoch else g.membershipEpoch }

/-- The whole list is set, without a bump. -/
def setRemoteReplicas : PxMembers :=
  { g with remotes := remotes.foldl upsert [] }

/-- The epoch is bumped iff the voting flag of the node changes. -/
def addRemoteReplica (r : RemoteReplica) : PxMembers :=
  let g' := { g with remotes := upsert g.remotes r }
  if g.wasVoting r.nodeId ≠ r.voting then g'.bumpMembershipEpoch else g'

/-- The epoch is bumped iff a voting member is removed. -/
def removeRemoteReplica (id : ℕ) : PxMembers :=
  let g' := { g with remotes := g.remotes.filter fun x => x.nodeId ≠ id }
  if g.wasVoting id then g'.bumpMembershipEpoch else g'

/-- An existing member gets the endpoint; any other node is inserted as a voting
    member, without a bump. -/
def updateMemberEndpoint (id : ℕ) (endpoint : String) : PxMembers :=
  if g.remotes.any fun x => x.nodeId = id then
    { g with remotes := g.remotes.map fun x => if x.nodeId = id then { x with endpoint } else x }
  else { g with remotes := upsert g.remotes ⟨id, endpoint, true⟩ }

/-- A group without remotes takes the list as it is; otherwise members are added one by one. -/
def rebuildWithNewRemotes : PxMembers :=
  if g.remotes = [] then g.setRemoteReplicas remotes else remotes.foldl addRemoteReplica g

end PxMembers

/-! ## Operations and exchanges -/

/-- A Prepare or Accept as the fence sees it, with the proposer's voting set and quorum for
    reference. -/
structure EpochRequest where
  proposer : ℕ
  acceptor : ℕ
  membershipEpoch : ℕ
  voters : Finset ℕ
  quorum : ℕ

/-- A request processed past the fence, with the views of both sides. -/
structure Exchange where
  voters : Finset ℕ
  quorum : ℕ
  voters' : Finset ℕ
  quorum' : ℕ

/-- Every quorum of the proposer intersects every quorum of the acceptor. -/
def Exchange.QuorumsIntersect (x : Exchange) : Prop :=
  ∀ Q Q', IsQuorum x.voters x.quorum Q → IsQuorum x.voters' x.quorum' Q' → (Q ∩ Q').Nonempty

/-- All nodes, and the messages under way. -/
structure EpochState where
  nodes : ℕ → PxMembers
  requests : List EpochRequest
  /-- mismatch replies on their way: the proposer and the responder's epoch -/
  mismatches : List (ℕ × ℕ)
  processed : List Exchange

/-- Every node hosts a fresh group of which it knows no other member. -/
def EpochState.init (localVoting : ℕ → Bool) : EpochState :=
  ⟨fun n => ⟨n, localVoting n, [], 0⟩, [], [], []⟩

/-- An operation on a node, or a message. -/
inductive EpochEvent where
  | addRemotes (n : ℕ) (remotes : List RemoteReplica)
  | removeRemote (n id : ℕ)
  | updateEndpoint (n id : ℕ) (endpoint : String)
  | send (n acceptor : ℕ)
  /-- the `i`-th request sent arrives; it may arrive again later -/
  | deliver (i : ℕ)
  | reply (proposer epoch : ℕ)

namespace EpochState

/-- Node `n` is now `g`. -/
def setNode (s : EpochState) (n : ℕ) (g : PxMembers) : EpochState :=
  { s with nodes := Function.update s.nodes n g }

/-- The fence of `handle_prepare` and `handle_accept`. -/
def handleRequest (s : EpochState) (m : EpochRequest) : EpochState :=
  let g := s.nodes m.acceptor
  if m.membershipEpoch ≠ g.membershipEpoch then
    let s' := s.setNode m.acceptor (g.adoptMembershipEpoch m.membershipEpoch)
    { s' with mismatches := (m.proposer, g.membershipEpoch) :: s.mismatches }
  else { s with processed := ⟨m.voters, m.quorum, g.votingSet, g.quorum⟩ :: s.processed }

end EpochState

/-- One step. -/
def epochStep (s : EpochState) : EpochEvent → Option EpochState
  | .addRemotes n remotes =>
    -- the management API refuses the local replica as a remote
    if remotes.any fun r => r.nodeId = (s.nodes n).localId then some s
    else some (s.setNode n ((s.nodes n).rebuildWithNewRemotes remotes))
  | .removeRemote n id =>
    if id = (s.nodes n).localId then some s
    else some (s.setNode n ((s.nodes n).removeRemoteReplica id))
  | .updateEndpoint n id endpoint =>
    some (s.setNode n ((s.nodes n).updateMemberEndpoint id endpoint))
  | .send n acceptor =>
    let g := s.nodes n
    some { s with
      requests := s.requests ++ [⟨n, acceptor, g.membershipEpoch, g.votingSet, g.quorum⟩] }
  | .deliver i => s.requests[i]?.map s.handleRequest
  | .reply proposer epoch =>
    if (proposer, epoch) ∈ s.mismatches then
      some (s.setNode proposer ((s.nodes proposer).adoptMembershipEpoch epoch))
    else none

end CrowDB
