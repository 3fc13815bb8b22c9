/-
  Frees and commits over several diskdb instances (`allocator/pool.rs`), and what an instance
  does with such a request (`diskdb_rpc_service.rs`, `model/alloc.rs`).

  A free goes out as one request for each disk group of its segments, and as a broadcast for
  segments whose disk or endpoint is not known; a commit is one broadcast.  Either succeeds if
  one of its requests does.  An instance takes a request as a whole or refuses it.
-/
import Mathlib.Data.List.Dedup

namespace CrowDB

open List

variable {Seg D E : Type*} [DecidableEq D] [Inhabited D] (diskId : Seg → Option D)

/-- A disk group of an instance; `busy` are the segments whose records its KV group has. -/
structure OwnedGroup (Seg D : Type*) where
  disks : List D
  busy : Seg → Bool

namespace DiskdbInstance

variable (owned : List (OwnedGroup Seg D))

/-- The disk group of the first segment. -/
def resolve (segments : List Seg) : Option (OwnedGroup Seg D) :=
  owned.find? fun g => g.disks.contains ((segments.head?.bind diskId).getD default)

/-- `handle_free`: one write for all segments. With `fault` the request is lost, refused or not
    persisted. -/
def handleFree (fault : Bool) (segments : List Seg) : Bool :=
  (resolve diskId owned segments).any fun g =>
    segments.all (fun s => (diskId s).all g.disks.contains) && !fault

/-- `handle_commit`: the records of all segments are read and written. -/
def handleCommit (fault : Bool) (segments : List Seg) : Bool :=
  (resolve diskId owned segments).any fun g =>
    segments.all (fun s => (diskId s).isSome && g.busy s) && !fault

end DiskdbInstance

/-- Why a free or a commit fails. -/
inductive PoolError where
  | noEndpoints
  | allFailed (attempts : ℕ)
deriving DecidableEq

/-- The caches; `endpoints` has one entry for a disk group. -/
structure DiskdbClientPool (D E : Type*) where
  endpoints : List (ℕ × E)
  diskIdToDg : D → Option ℕ

namespace DiskdbClientPool

variable (p : DiskdbClientPool D E)

/-- `refresh_endpoints`, by disk group. -/
def refreshEndpoints (found : List (ℕ × E)) : DiskdbClientPool D E :=
  { p with endpoints := found.foldl (fun es e => es.filter (decide <| ·.1 ≠ e.1) ++ [e]) p.endpoints }

/-- The registry is read on a miss, `none` if that fails. -/
def endpointForDg (registry : Option (List (ℕ × E))) (dg : ℕ) : DiskdbClientPool D E × Option E :=
  match p.endpoints.lookup dg, registry with
  | some endpoint, _ => (p, some endpoint)
  | none, none => (p, none)
  | none, some found => (p.refreshEndpoints found, (p.refreshEndpoints found).endpoints.lookup dg)

/-- The requests of the groups, and the segments of groups without endpoint. -/
def routeGroups (registry : ℕ → Option (List (ℕ × E))) : DiskdbClientPool D E → List (ℕ × List Seg) →
    DiskdbClientPool D E × List (E × List Seg) × List Seg
  | p, [] => (p, [], [])
  | p, (dg, segments) :: groups =>
    let (p, endpoint) := p.endpointForDg (registry dg) dg
    let (p, requests, rest) := routeGroups registry p groups
    match endpoint with
    | some endpoint => (p, (endpoint, segments) :: requests, rest)
    | none => (p, requests, segments ++ rest)

/-- The disk group of a segment's disk. -/
def dgForSegment (s : Seg) : Option ℕ := (diskId s).bind p.diskIdToDg

/-- The segments by the disk group of their disk. -/
def grouped (segments : List Seg) : List (ℕ × List Seg) :=
  (segments.filterMap (p.dgForSegment diskId)).dedup.map fun dg =>
    (dg, segments.filter fun s => p.dgForSegment diskId s == some dg)

/-- One request for each disk group with an endpoint; `registry` is what a lookup of the group
    reads. -/
def groupRequests (registry : ℕ → Option (List (ℕ × E))) (segments : List Seg) :
    List (E × List Seg) :=
  (routeGroups registry p (p.grouped diskId segments)).2.1

/-- The segments that are broadcast. -/
def ungrouped (registry : ℕ → Option (List (ℕ × E))) (segments : List Seg) : List Seg :=
  segments.filter (fun s => p.dgForSegment diskId s == none) ++
    (routeGroups registry p (p.grouped diskId segments)).2.2

/-- All requests of a free. -/
def freeRequests (registry : ℕ → Option (List (ℕ × E))) (segments : List Seg) : List (E × List Seg) :=
  p.groupRequests diskId registry segments ++
    if (p.ungrouped diskId registry segments).isEmpty then []
    else (routeGroups registry p (p.grouped diskId segments)).1.endpoints.map
      (·.2, p.ungrouped diskId registry segments)

/-- A commit is a broadcast. -/
def commitRequests (segments : List Seg) : List (E × List Seg) := p.endpoints.map (·.2, segments)

/-- The end of both calls: success if one request succeeded. -/
def join (results : List Bool) : Except PoolError Unit :=
  if results.isEmpty then .error .noEndpoints
  else if results.any id then .ok () else .error (.allFailed results.length)

variable (owned : E → List (OwnedGroup Seg D)) (fault : ℕ → Bool)

/-- `free_blocks`. -/
def freeBlocks (registry : ℕ → Option (List (ℕ × E))) (segments : List Seg) : Except PoolError Unit :=
  if segments.isEmpty then .ok ()
  else join ((p.freeRequests diskId registry segments).mapIdx fun i r =>
    DiskdbInstance.handleFree diskId (owned r.1) (fault i) r.2)

/-- `commit_blocks`. -/
def commitBlocks (segments : List Seg) : Except PoolError Unit :=
  if segments.isEmpty then .ok ()
  else join ((p.commitRequests segments).mapIdx fun i r =>
    DiskdbInstance.handleCommit diskId (owned r.1) (fault i) r.2)

variable {diskId p owned fault} {registry : ℕ → Option (List (ℕ × E))} {segments : List Seg}

section

omit [DecidableEq D] [Inhabited D]

end

end DiskdbClientPool

end CrowDB
