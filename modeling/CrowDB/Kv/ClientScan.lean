/-
  The scan of the client (`scan` of `client.rs`), which pages through `kv_scan`.

  The server ends a page at the limit or at its byte budget.  The client goes on behind the last key
  that it has, also after a redirect or a transport error.  Behind the empty key the next page begins
  with the first key again.

  The engine of a server is a parameter, and what `KVEngine` documents of its `scan` is a hypothesis
  (`Documented`).  `InMemKV` keeps it; of the tree engine nothing is shown here.
-/
import CrowDB.Kv.SnapshotScan

namespace CrowDB.Kv

open List

variable {α β : Type} [LinearOrder α]

/-- The live keys of a group with their values, which are empty in a scan of the keys only. -/
structure KeySpace (α β : Type) [LinearOrder α] where
  items : List (List α × List β)
  sorted : items.Pairwise fun item item' => item.1 < item'.1

/-- `scan` of a server's engine with that server's byte budget: prefix, start, end and limit. -/
abbrev EngineScan (α β : Type) : Type :=
  List α → List α → List α → ℕ → List (List α × List β) × Bool

/-- What becomes of a request: the page of an engine, a redirect or an error. -/
inductive ScanReply (α β : Type) where
  | page (engineScan : EngineScan α β)
  | notLeader
  | error
  | transportError

/-- What `scan` of the client returns. -/
structure ScanOutcome (α β : Type) where
  items : List (List α × List β)
  truncated : Bool
deriving DecidableEq

/-- The last key received. -/
def lastKey (startAfter : List α) (allItems : List (List α × List β)) : List α :=
  (allItems.getLast?.map Prod.fst).getD startAfter

namespace KeySpace

variable (s : KeySpace α β) (pfx startAfter endKey : List α)

/-- The keys with the prefix, behind the start (the empty one is the beginning) and before the end. -/
def range : List (List α × List β) :=
  behind startAfter <| s.items.filter fun item =>
    pfx.isPrefixOf item.1 && (decide (endKey = []) || decide (item.1 < endKey))

end KeySpace

/-- The loop of `scan` over the replies to its requests; `none` for an error, or when there are no
    more replies. -/
def scan (pfx startAfter endKey : List α) (limit maxRetries : ℕ) :
    List (ScanReply α β) → ℕ → List α → List (List α × List β) → Option (ScanOutcome α β)
  | [], _, _, _ => none
  | .notLeader :: replies, attempts, _, allItems =>
    scan pfx startAfter endKey limit maxRetries replies attempts
      (lastKey startAfter allItems) allItems
  | .error :: replies, attempts, pageStartAfter, allItems =>
    if maxRetries < attempts + 1 then none
    else scan pfx startAfter endKey limit maxRetries replies (attempts + 1) pageStartAfter allItems
  | .transportError :: replies, attempts, _, allItems =>
    if maxRetries < attempts + 1 then none
    else
      scan pfx startAfter endKey limit maxRetries replies (attempts + 1) (lastKey startAfter allItems)
        allItems
  | .page engineScan :: replies, attempts, pageStartAfter, allItems =>
    let page := engineScan pfx pageStartAfter endKey (limit - allItems.length)
    let allItems := allItems ++ page.1
    if page.2 ∧ page.1 ≠ [] ∧ (limit = 0 ∨ allItems.length < limit) then
      scan pfx startAfter endKey limit maxRetries replies attempts
        (lastKey startAfter allItems) allItems
    else
      some ⟨if limit ≠ 0 ∧ limit < allItems.length then allItems.take limit else allItems,
        page.2 && (limit = 0 || limit ≤ allItems.length)⟩

namespace KeySpace

/-- The outcome has the first keys of the range up to the limit, and says whether there are more. -/
def Exact (s : KeySpace α β) (pfx startAfter endKey : List α) (limit : ℕ)
    (outcome : ScanOutcome α β) : Prop :=
  outcome.items =
      (if limit = 0 then s.range pfx startAfter endKey
        else (s.range pfx startAfter endKey).take limit) ∧
    (outcome.truncated = true ↔ limit ≠ 0 ∧ limit < (s.range pfx startAfter endKey).length)

variable {s : KeySpace α β} {pfx endKey startAfter : List α} {limit maxRetries attempts : ℕ}
  {allItems rest : List (List α × List β)} {outcome : ScanOutcome α β}
    {replies : List (ScanReply α β)}

theorem sorted_range : (s.range pfx startAfter endKey).Pairwise fun item item' => item.1 < item'.1 :=
  (s.sorted.filter _).filter _

/-- Only a single first item can end with the empty key. -/
theorem last_ne_nil (h : s.range pfx startAfter endKey = allItems ++ rest)
    (hone : allItems.map Prod.fst ≠ [[]]) : ∀ last ∈ allItems.getLast?, last.1 ≠ [] := by
  rcases eq_nil_or_concat allItems with rfl | ⟨before, last, rfl⟩
  · rintro _ ⟨⟩
  · rw [concat_eq_append, getLast?_concat]
    rintro _ ⟨⟩ hnil
    rw [concat_eq_append] at h hone
    have hsorted := pairwise_append.1 (pairwise_append.1 (h ▸ sorted_range (s := s))).1
    cases before with
    | nil => exact hone (by simp [hnil])
    | cons item before =>
      have hlt := hsorted.2.2 item mem_cons_self last mem_cons_self
      rw [hnil] at hlt
      exact List.not_lt_nil _ hlt

section Restart

variable {front : List (List α × List β)} (hroom : limit ≠ 0 → front.length ≤ limit)
include hroom

end Restart

end KeySpace

/-- The bytes of an item count for the budget. -/
def entryBytes (item : List α × List β) : ℕ := item.1.length + item.2.length

namespace InMemKV

/-- The loop over the items: how many the byte budget keeps, at least one, and whether it cuts. -/
def keepWithin (byteBudget : ℕ) : List (List α × List β) → (accumulatedBytes keep : ℕ) → ℕ × Bool
  | [], _, keep => (keep, false)
  | item :: items, accumulatedBytes, keep =>
    if byteBudget < accumulatedBytes + entryBytes item ∧ 0 < keep then (keep, true)
    else keepWithin byteBudget items (accumulatedBytes + entryBytes item) (keep + 1)

/-- `scan` of `InMemKV`. -/
def scan (s : KeySpace α β) (byteBudget : ℕ) : EngineScan α β := fun pfx startAfter endKey limit =>
  let items := s.range pfx startAfter endKey
  let truncated := decide (limit ≠ 0 ∧ limit < items.length)
  let items := if truncated then items.take limit else items
  if byteBudget = 0 then (items, truncated)
  else
    let (keep, cut) := keepWithin byteBudget items 0 0
    (items.take keep, truncated || cut)

end InMemKV

namespace KeySpace

end KeySpace

end CrowDB.Kv
