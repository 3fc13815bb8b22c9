/-
  The payload of a coalesced round.

  A write request is encoded for itself, number of operations first; the coalescer cuts the
  number off, strings the records together and counts one operation for each request.  A
  `kv_batch_write` has more than one.
-/
import CrowDB.Kv.CoalesceSafety
import CrowDB.Kv.Payload

namespace CrowDB.Kv

open Lib List

/-- The writes of `PxKvStore`. -/
inductive WriteRequest where
  | put (key value : Bytes)
  | delete (key : Bytes)
  | batchWrite (items : List KvBatchItem)
deriving DecidableEq

namespace WriteRequest

/-- What `kv_put`, `kv_delete` and `kv_batch_write` propose. -/
def payload : WriteRequest → Bytes
  | .put key value => encodeKvPayload [(key, some value)]
  | .delete key => encodeKvPayload [(key, none)]
  | .batchWrite items => encodeKvBatchItems items

/-- The operations of a request. -/
def ops : WriteRequest → List BatchOp
  | .put key value => [⟨key, .put value⟩]
  | .delete key => [⟨key, .delete⟩]
  | .batchWrite items => items.map KvBatchItem.op

theorem payload_eq (request : WriteRequest) : request.payload = encodeOps request.ops := by
  cases request with
  | put => exact encodeKvPayload_eq _
  | delete => exact encodeKvPayload_eq _
  | batchWrite items => exact encodeKvBatchItems_eq items

theorem opBody_payload (request : WriteRequest) :
    opBody request.payload = request.ops.flatMap BatchOp.encode := by
  rw [payload_eq, encodeOps, opBody]
  exact drop_left' (leBytes_length 2 _)

end WriteRequest

/-- The records of the requests are strung together, but one operation is counted for each. -/
theorem decode_roundPayload {ops : List (Option DedupTag × Bytes)} {requests : List WriteRequest}
    (hops : ops.map Prod.snd = requests.map WriteRequest.payload)
    (hfits : ∀ request ∈ requests, ∀ o ∈ request.ops, o.Fits) :
    decode (roundPayload ops) = (requests.flatMap WriteRequest.ops).take
      (min requests.length 65535) := by
  have hlen : ops.length = requests.length := by
    have := congrArg length hops
    rwa [length_map, length_map] at this
  have hbodies : (ops.flatMap fun op => opBody op.2) =
    (requests.flatMap WriteRequest.ops).flatMap BatchOp.encode := by
    calc (ops.flatMap fun op => opBody op.2)
        = (ops.map Prod.snd).flatMap opBody := by rw [flatMap_map]
      _ = requests.flatMap (fun request => opBody request.payload) := by rw [hops, flatMap_map]
      _ = requests.flatMap (fun request => request.ops.flatMap BatchOp.encode) := by
        simp [WriteRequest.opBody_payload]
      _ = _ := by rw [flatMap_assoc]
  have hfitsAll : ∀ o ∈ requests.flatMap WriteRequest.ops, o.Fits := by
    intro o ho
    obtain ⟨request, hrequest, hmem⟩ := mem_flatMap.1 ho
    exact hfits request hrequest o hmem
  have hcount : min requests.length 65535 % 65536 = min requests.length 65535 :=
    Nat.mod_eq_of_lt (by omega)
  have hpayload := PendingBatch.payload_gather ops []
  rw [← hpayload, PendingBatch.round, PendingBatch.gather, hbodies, hlen, decode_leBytes_append,
    decodeOps_flatMap hfitsAll, hcount]

namespace Coalescer

/-- The payload of a round says all that its requests ask for, exactly if they are no more
    operations than requests. -/
theorem coalesced_payload_exact {cfg : CoalesceConfig} {s : Coalescer}
    (hreach : Reach (step cfg) anyStep init s)
    {round : CoalesceRound} (hround : round ∈ s.rounds) (requests : List WriteRequest)
    (hrequests : (s.ops round.waiters).map Prod.snd = requests.map WriteRequest.payload)
    (hfits : ∀ request ∈ requests, ∀ o ∈ request.ops, o.Fits) :
    decode round.payload = requests.flatMap WriteRequest.ops ↔
      (requests.flatMap WriteRequest.ops).length ≤ requests.length := by
  have hgathered := gathered_of_reach hreach
  have hbound := (bounded_of_reach hreach).rounds round hround
  have hlen : requests.length = round.waiters.length := by
    have hmap := congrArg length hrequests
    rw [length_map, length_map, Gathered.length_ops] at hmap
    · exact hmap.symm
    · intro w hw
      exact hgathered.inRange w (mem_append_left _ (mem_flatMap.2 ⟨round, hround, hw⟩))
  rw [(hgathered.rounds round hround).1, decode_roundPayload hrequests hfits, take_eq_self_iff,
    Nat.min_eq_left (hlen ▸ hbound)]

/-- Two writes that joined while another was proposed. -/
theorem coalesced_put_delete : ∃ s, Reach (step ⟨128, 1⟩) anyStep init s ∧ ∃ round ∈ s.rounds,
      decode round.payload = [⟨[1], .put [2]⟩, ⟨[3], .delete⟩] := by
  exact Reach.exists_imp_of_run (fun s => ∃ round ∈ s.rounds,
      (s.ops round.waiters).map Prod.snd = [WriteRequest.put [1] [2], .batchWrite [⟨[3], [],
      true⟩]].map WriteRequest.payload)
    [.enqueue (WriteRequest.put [0] [0]).payload none,
      .enqueue (WriteRequest.put [1] [2]).payload none,
      .enqueue (WriteRequest.batchWrite [⟨[3], [], true⟩]).payload none, .finish 0 (.chosen 1),
        .drain 0 0] (by decide +kernel) fun s hreach ⟨round, hround, hrequests⟩ => ⟨round,
        hround, (coalesced_payload_exact hreach hround _ hrequests (by decide)).2 (by decide)⟩

/-- A batch write of two puts that finds the coalescer idle is counted as one operation. -/
theorem coalesced_batch_loses : ∃ s, Reach (step ⟨128, 1⟩) anyStep init s ∧ ∃ round ∈ s.rounds,
      (s.ops round.waiters).map Prod.snd =
    [WriteRequest.batchWrite [⟨[1], [2], false⟩, ⟨[3], [4], false⟩]].map
        WriteRequest.payload ∧
      decode round.payload = [⟨[1], .put [2]⟩] := by
  exact Reach.exists_of_run
    [.enqueue (WriteRequest.batchWrite [⟨[1], [2], false⟩, ⟨[3], [4], false⟩]).payload none]
      (by decide +kernel)

end Coalescer

end CrowDB.Kv
