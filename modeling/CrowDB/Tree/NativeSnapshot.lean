/-
  The import of a native snapshot (`install_snapshot_native`): the pages in memory go, the frames
  are put in their place one by one, and then the root is moved and the memtables are reset.

  A leaf (`page.h`, `frame_page.h`, `delta.h`) is a base page with the batch deltas that flushes
  have put in front of it and the deltas in its own frame.  A `get` resolves its pages through the
  mapping table; evicted ones are read from the page store.
-/
import CrowDB.Tree.Flush

namespace CrowDB

open List

/-! ## Pages and the descent -/

/-- The loop of the binary searches; `fuel` is at least `hi - lo`. -/
def bisect (below : ℕ → Bool) : ℕ → ℕ → ℕ → ℕ
  | 0, lo, _ => lo
  | fuel + 1, lo, hi =>
    if lo < hi then
      let mid := lo + (hi - lo) / 2
      if below mid then bisect below fuel (mid + 1) hi else bisect below fuel lo mid
    else lo

/-- A leaf: batch deltas from the newest on, the sorted base, and the deltas in its frame as
    appended. -/
structure LeafPage (K V : Type*) where
  deltas : List (List (K × Cell V)) := []
  entries : List (K × Cell V) := []
  inframe : List (K × Cell V) := []
  rightSibling : Option ℕ := none
deriving DecidableEq

/-- A page of the tree. -/
inductive Page (K V : Type*) where
  | leaf (page : LeafPage K V)
  | inner (separators : List K) (children : List ℕ)
deriving DecidableEq

variable {K V : Type*} [LinearOrder K]

/-- The number of separators that are not above the key. -/
def childIndexFor (separators : List K) (k : K) : ℕ :=
  bisect (fun i => separators[i]?.any fun s => decide (s ≤ k)) separators.length 0 separators.length

/-- The leaf for a key; `max_depth` bounds the descent. -/
def findLeafPageId (pages : ℕ → Option (Page K V)) (k : K) : ℕ → ℕ → Option ℕ
  | 0, _ => none
  | depth + 1, pageId =>
    match pages pageId with
    | none => none
    | some (.leaf _) => some pageId
    | some (.inner separators children) =>
      match children[childIndexFor separators k]? with
      | none => none
      | some child => findLeafPageId pages k depth child

/-- The value of a cell of the tree: in the frame, or spilled to a chain of overflow pages. -/
inductive StoredValue where
  | inline (bytes : List UInt8)
  | overflow (head : Option ℕ) (len : ℕ)
deriving DecidableEq

/-- A page of the tree. -/
inductive TreePage (K : Type*) where
  | node (page : Page K StoredValue)
  | overflow (payload : List UInt8) (next : Option ℕ)

/-- A word of the mapping table; an unloaded one has the address of its page. -/
inductive MappingSlot (K : Type*) where
  | empty
  | resident (page : TreePage K)
  | unloaded (addr : ℕ)

/-- All live memtables and the pages; `device` gives the page at an address, if it can be read and
    decodes. -/
structure NativeTree (K : Type*) [LinearOrder K] where
  tables : List (MemTable K (List UInt8)) := [{}]
  mapping : ℕ → MappingSlot K := fun _ => .empty
  rootPageId : ℕ
  device : ℕ → Option (TreePage K) := fun _ => none

/-! ## Leaves -/

/-- The binary search for a key, with `fuel` above `hi - lo`. -/
def findKey (cells : List (K × Cell V)) (k : K) : ℕ → ℕ → ℕ → Option (Cell V)
  | 0, _, _ => none
  | fuel + 1, lo, hi =>
    if lo < hi then
      let mid := lo + (hi - lo) / 2
      match cells[mid]? with
      | none => none
      | some p =>
        if p.1 = k then some p.2
        else if p.1 < k then findKey cells k fuel (mid + 1) hi
        else findKey cells k fuel lo mid
    else none

/-- The cell of a key in a sorted page. -/
def findCell (cells : List (K × Cell V)) (k : K) : Option (Cell V) :=
  findKey cells k (cells.length + 1) 0 cells.length

/-- The deltas in the frame, the newest first, and then the entries. -/
def LeafPage.lookup (page : LeafPage K V) (k : K) : Option (Cell V) :=
  ((page.inframe.reverse.find? fun p => p.1 = k).map Prod.snd).or (findCell page.entries k)

/-- A node further down the chain wins with a higher slot only. -/
def higherCell (best found : Option (Cell V)) : Option (Cell V) :=
  match found, best with
  | none, best => best
  | some c, none => some c
  | some c, some b => if b.slot < c.slot then some c else some b

/-- `resolve_chain`. -/
def LeafPage.resolveChain (page : LeafPage K V) (k : K) : Option (Cell V) :=
  (page.deltas.map (findCell · k) ++ [page.lookup k]).foldl higherCell none

/-! ## Reads -/

namespace NativeTree

variable (t : NativeTree K)

/-- An unloaded page is read from the page store; a fault reads as a page that is not there. -/
def resident (pageId : ℕ) : Option (TreePage K) :=
  match t.mapping pageId with
  | .empty => none
  | .resident page => some page
  | .unloaded addr => t.device addr

/-- The node of a page id. -/
def nodes (pageId : ℕ) : Option (Page K StoredValue) :=
  match t.resident pageId with
  | some (.node page) => some page
  | _ => none

/-- Follow the chain for at most `guard` pages; what does not read as an overflow page ends it. -/
def overflowBytes : ℕ → Option ℕ → List UInt8
  | guard + 1, some pageId =>
    match t.resident pageId with
    | some (.overflow payload next) => payload ++ overflowBytes guard next
    | _ => []
  | _, _ => []

/-- `assemble_overflow_value`. -/
def assembleOverflowValue : StoredValue → List UInt8
  | .inline bytes => bytes
  | .overflow head len => (t.overflowBytes 0x1000000 head).take len

/-- The tree's part of a get. -/
def getL1 (k : K) : Option (ℕ × List UInt8) :=
  match (findLeafPageId t.nodes k 64 t.rootPageId).bind t.nodes with
  | some (.leaf page) =>
    (page.resolveChain k).bind fun c => c.value.map fun v => (c.slot, t.assembleOverflowValue v)
  | _ => none

/-- The best cell of the memtables. -/
def bestCell (k : K) : Option (Cell (List UInt8)) :=
  t.tables.foldl (fun best mt => LsmState.pickCell best (mt.find k)) none

/-- The slot and the value, or `none` for a key that is not found. -/
def get (k : K) : Option (ℕ × List UInt8) :=
  match t.bestCell k with
  | some c => c.value.map fun v => (c.slot, v)
  | none => t.getL1 k

/-! ## The import -/

/-- `free_all_resident_pages`. -/
def freeAllResidentPages : NativeTree K :=
  { t with mapping := fun pageId => match t.mapping pageId with
      | .resident _ => .empty
      | slot => slot }

end NativeTree

/-- A frame of the snapshot: `none` for `kInvalidPageId`, and for a frame that `frame_validate`
    refuses. It lets frames of the three page types through only. -/
structure NativeFrame (K : Type*) where
  pageId : Option ℕ
  page : Option (TreePage K)

/-- How an import is refused. -/
inductive ImportError where
  | invalidArgument (message : String)
  | corruption (message : String)
deriving DecidableEq

namespace NativeTree

/-- Install the frames up to the first one that is refused. -/
def installFrames (t : NativeTree K) : List (NativeFrame K) → NativeTree K × Option ImportError
  | [] => (t, none)
  | f :: frames =>
    match f.pageId, f.page with
    | none, _ => (t, some (.invalidArgument "native snapshot: invalid page_id"))
    | some _, none => (t, some (.corruption "native snapshot: frame CRC/magic invalid"))
    | some pageId, some page =>
      { t with mapping := Function.update t.mapping pageId (.resident page) }.installFrames frames

/-- `install_snapshot_native`. -/
def installSnapshotNative (t : NativeTree K) (frames : List (NativeFrame K)) (rootPageId : ℕ) :
    NativeTree K × Option ImportError :=
  match t.freeAllResidentPages.installFrames frames with
  | (t', some e) => (t', some e)
  | (t', none) => ({ t' with rootPageId, tables := [{}] }, none)

/-- The frames before the first one that is refused. -/
def installed (frames : List (NativeFrame K)) : List (NativeFrame K) :=
  frames.takeWhile fun f => f.pageId.isSome && f.page.isSome

/-! ## The way of a get -/

end NativeTree

/-- The page that a get goes on to. -/
def TreePage.next (k : K) : TreePage K → Option ℕ
  | .node (.inner separators children) => children[childIndexFor separators k]?
  | .node (.leaf page) =>
    match (page.resolveChain k).bind (·.value) with
    | some (.overflow head _) => head
    | _ => none
  | .overflow _ next => next

namespace NativeTree

/-- The page is in memory. -/
def InMemory (t : NativeTree K) (pageId : ℕ) : Prop := ∃ page, t.mapping pageId = .resident page

/-- The pages on the way of a get from a page on, up to the first one in memory. -/
inductive Reaches (t : NativeTree K) (k : K) : ℕ → ℕ → Prop where
  | refl (pageId : ℕ) : Reaches t k pageId pageId
  | head {pageId pageId' last : ℕ} {page : TreePage K} :
      ¬ t.InMemory pageId → t.resident pageId = some page →
      page.next k = some pageId' → Reaches t k pageId' last → Reaches t k pageId last

/-- The import does not show in a get of the key: a memtable answers it, or no page on its way has a
    frame that is installed, and none of them is in memory or the tree has nothing for the key. -/
def Spared (t : NativeTree K) (frames : List (NativeFrame K)) (k : K) : Prop :=
  t.bestCell k ≠ none ∨ ∀ pageId, Reaches t k t.rootPageId pageId →
    (∀ f ∈ installed frames, f.pageId ≠ some pageId) ∧ (t.InMemory pageId → t.getL1 k = none)

/-- The tree keeps the value of the key in its leaf. -/
def Inline (t : NativeTree K) (k : K) : Prop :=
  ∀ pageId page, t.resident pageId = some (.node (.leaf page)) →
    ∀ head len, (page.resolveChain k).bind (·.value) ≠ some (.overflow head len)

variable {t t' : NativeTree K} {k : K} {pageId : ℕ}

theorem resident_of_nodes {page : Page K StoredValue} (h : t.nodes pageId = some page) :
    t.resident pageId = some (.node page) := by
  rw [nodes] at h
  split at h
  · cases h
    assumption
  · cases h

theorem nodes_congr (h : t'.resident pageId = t.resident pageId) :
    t'.nodes pageId = t.nodes pageId := by
  rw [nodes, h, nodes]

theorem nodes_none (h : t'.resident pageId = none) : t'.nodes pageId = none := by rw [nodes, h]

theorem findLeafPageId_of_none {pages : ℕ → Option (Page K V)} (h : pages pageId = none) (depth : ℕ) :
    findLeafPageId pages k depth pageId = none := by
  cases depth with
  | zero => rfl
  | succ => rw [findLeafPageId, h]

/-- On the way of a get from a page on, the pages in memory are gone and the others are as they
    were. -/
def Drops (t t' : NativeTree K) (k : K) (pageId : ℕ) : Prop :=
  ∀ last, Reaches t k pageId last → (t.InMemory last → t'.resident last = none) ∧
    (¬ t.InMemory last → t'.resident last = t.resident last)

theorem Drops.next (h : Drops t t' k pageId) {page : TreePage K} {pageId' : ℕ}
    (hmem : ¬ t.InMemory pageId)
    (hpage : t.resident pageId = some page) (hnext : page.next k = some pageId') :
    Drops t t' k pageId' :=
  fun last hlast => h last (.head hmem hpage hnext hlast)

/-- **The descent** ends at a page that is gone, or as before. -/
theorem findLeafPageId_drops (depth : ℕ) (h : Drops t t' k pageId) :
    (findLeafPageId t'.nodes k depth pageId = none ∧ ∃ last, Reaches t k pageId last ∧
      t.InMemory last) ∨
      findLeafPageId t'.nodes k depth pageId = findLeafPageId t.nodes k depth pageId ∧
        ∀ leaf, findLeafPageId t.nodes k depth pageId = some leaf →
          ¬ t.InMemory leaf ∧ ∀ last, Reaches t k leaf last → Reaches t k pageId last := by
  induction depth generalizing pageId with
  | zero => exact .inr ⟨rfl, nofun⟩
  | succ depth ih =>
    by_cases hmem : t.InMemory pageId
    · exact .inl ⟨findLeafPageId_of_none (nodes_none ((h pageId (.refl _)).1 hmem)) _, pageId,
        .refl _, hmem⟩
    have hsame := nodes_congr ((h pageId (.refl _)).2 hmem)
    simp only [findLeafPageId, hsame]
    rcases hpage : t.nodes pageId with _ | _ | ⟨separators, children⟩
    · exact .inr ⟨rfl, nofun⟩
    · refine .inr ⟨rfl, ?_⟩
      rintro _ ⟨⟩
      exact ⟨hmem, fun last hlast => hlast⟩
    · dsimp only
      cases hchild : children[childIndexFor separators k]? with
      | none => exact .inr ⟨rfl, nofun⟩
      | some child =>
        have hres := resident_of_nodes hpage
        obtain ⟨hnone, last, hlast, hin⟩ | ⟨heq, hleaf⟩ := ih (h.next hmem hres hchild)
        · exact .inl ⟨hnone, last, .head hmem hres hchild hlast, hin⟩
        · exact .inr ⟨heq, fun leaf hfind => ⟨(hleaf leaf hfind).1,
            fun last hlast => .head hmem hres hchild ((hleaf leaf hfind).2 last hlast)⟩⟩

theorem overflowBytes_eq (guard : ℕ) {head : Option ℕ}
    (h : ∀ pageId, head = some pageId → Drops t t' k pageId)
    (hmem : ∀ pageId, head = some pageId → ∀ last, Reaches t k pageId last → ¬ t.InMemory last) :
    t'.overflowBytes guard head = t.overflowBytes guard head := by
  induction guard generalizing head with
  | zero => rfl
  | succ _ ih =>
    cases head with
    | none => rfl
    | some pageId =>
      have hdrops := h pageId rfl
      have hout := hmem pageId rfl pageId (.refl _)
      rw [overflowBytes, overflowBytes, (hdrops pageId (.refl _)).2 hout]
      split
      · rename_i payload next hres
        refine congrArg (payload ++ ·) (ih (fun pageId' hnext => hdrops.next hout hres hnext) ?_)
        exact fun pageId' hnext last hlast => hmem pageId rfl last (.head hout hres hnext hlast)
      · rfl

/-- **A get** answers as before if the tree has nothing for the key or no page on its way is gone. -/
theorem getL1_eq (hroot : t'.rootPageId = t.rootPageId) (h : Drops t t' k t.rootPageId)
    (hkeep : ∀ last, Reaches t k t.rootPageId last → t.InMemory last → t.getL1 k = none) :
    t'.getL1 k = t.getL1 k := by
  obtain ⟨hnone, last, hlast, hin⟩ | ⟨heq, hleaf⟩ := findLeafPageId_drops 64 h
  · rw [hkeep last hlast hin, getL1, hroot, hnone]
    rfl
  cases hfind : findLeafPageId t.nodes k 64 t.rootPageId with
  | none =>
    rw [getL1, getL1, hroot, heq, hfind]
    rfl
  | some leaf =>
    obtain ⟨hout, hreach⟩ := hleaf leaf hfind
    have hsame := nodes_congr ((h leaf (hreach leaf (.refl _))).2 hout)
    rw [hfind] at heq
    cases hpage : t.nodes leaf with
    | none => simp [getL1, hroot, heq, hfind, hsame, hpage]
    | some node =>
      cases node with
      | inner => simp [getL1, hroot, heq, hfind, hsame, hpage]
      | leaf page =>
        have hget (t : NativeTree K) (hf : findLeafPageId t.nodes k 64 t.rootPageId = some leaf)
            (hn : t.nodes leaf = some (.leaf page)) : t.getL1 k = (page.resolveChain k).bind fun c =>
              c.value.map fun v => (c.slot, t.assembleOverflowValue v) := by
          simp [getL1, hf, hn]
        have hbefore := hget t hfind hpage
        rw [hget t' (hroot ▸ heq) (hsame.trans hpage), hbefore]
        rcases hcell : page.resolveChain k with _ | ⟨slot, _ | bytes | ⟨head, len⟩⟩
        · rfl
        · rfl
        · rfl
        · -- the value is spilled, and there is one
          have hchain (pageId' : ℕ) (hhead : head = some pageId') (last : ℕ)
            (hlast : Reaches t k pageId' last) :
              Reaches t k t.rootPageId last := by
            refine hreach last (.head hout (resident_of_nodes hpage) ?_ hlast)
            simp [TreePage.next, hcell, hhead]
          simp only [Option.bind_some, Option.map_some, assembleOverflowValue]
          rw [overflowBytes_eq _ (fun pageId' hhead last hlast =>
            h last (hchain pageId' hhead last hlast))]
          intro pageId' hhead last hlast hin
          have hnone := hkeep last (hchain pageId' hhead last hlast) hin
          rw [hbefore, hcell] at hnone
          cases hnone

/-- **A get loses its value** if a page of its descent is gone. -/
theorem findLeafPageId_lost (hinline : t.Inline k) {last : ℕ} (hlast : Reaches t k pageId last)
    (hmem : t.InMemory last) (h : Drops t t' k pageId) (depth : ℕ) :
    findLeafPageId t'.nodes k depth pageId = none := by
  induction hlast generalizing depth with
  | refl => exact findLeafPageId_of_none (nodes_none ((h _ (.refl _)).1 hmem)) _
  | head hout hpage hnext _ ih =>
    have hrest := ih hmem (h.next hout hpage hnext)
    rename_i page _
    have hres := ((h _ (.refl _)).2 hout).trans hpage
    cases depth with
    | zero => rfl
    | succ depth =>
      match page, hpage, hnext with
      | .overflow .., _, _ => exact findLeafPageId_of_none (by rw [nodes, hres]) _
      | .node (.inner separators children), _, hchild =>
        simp only [TreePage.next] at hchild
        simp only [findLeafPageId, nodes, hres, hchild, hrest]
      | .node (.leaf page), hpage, hnext =>
        simp only [TreePage.next] at hnext
        split at hnext
        · exact absurd ‹_› (hinline _ page hpage _ _)
        · cases hnext

/-! ## A refused import -/

theorem installFrames_spec (frames : List (NativeFrame K)) (t : NativeTree K) :
    ∃ mapping, (t.installFrames frames).1 = { t with mapping } ∧
      ∀ pageId, (∀ f ∈ installed frames, f.pageId ≠ some pageId) → mapping pageId =
        t.mapping pageId := by
  induction frames generalizing t with
  | nil => exact ⟨_, rfl, fun _ _ => rfl⟩
  | cons f frames ih =>
    rw [installFrames]
    split
    · exact ⟨_, rfl, fun _ _ => rfl⟩
    · exact ⟨_, rfl, fun _ _ => rfl⟩
    · rename_i pageId page hid hpage
      have hfirst : installed (f :: frames) = f :: installed frames := by simp [installed, hid, hpage]
      obtain ⟨mapping, heq, hkeep⟩ :=
        ih { t with mapping := Function.update t.mapping pageId (.resident page) }
      refine ⟨mapping, heq, fun pageId' hother => ?_⟩
      rw [hfirst, forall_mem_cons] at hother
      rw [hkeep pageId' hother.2]
      refine Function.update_of_ne ?_ ..
      rintro rfl
      exact hother.1 hid

/-- **A refused import** leaves the answers of the gets that are `Spared`. A get with no installed
    frame on its way and its value in the leaf loses its answer otherwise. -/
theorem installSnapshotNative_error {frames : List (NativeFrame K)} {rootPageId : ℕ} {e : ImportError}
    (he : (t.installSnapshotNative frames rootPageId).2 = some e) (k : K) :
    (t.Spared frames k → (t.installSnapshotNative frames rootPageId).1.get k = t.get k) ∧
      (t.Inline k → (∀ pageId, Reaches t k t.rootPageId pageId → ∀ f ∈ installed frames,
        f.pageId ≠ some pageId) →
        (t.installSnapshotNative frames rootPageId).1.get k = t.get k → t.Spared frames k) := by
  obtain ⟨mapping, heq, hkeep⟩ := installFrames_spec frames t.freeAllResidentPages
  have himport : (t.installSnapshotNative frames rootPageId).1 = { t with mapping } := by
    rw [installSnapshotNative] at he ⊢
    split at he
    · rename_i hrun
      rw [hrun] at heq
      exact heq
    · cases he
  have hdrops (hframes : ∀ pageId, Reaches t k t.rootPageId pageId → ∀ f ∈ installed frames,
    f.pageId ≠ some pageId) :
      Drops t { t with mapping } k t.rootPageId := by
    intro last hlast
    have hslot : mapping last = t.freeAllResidentPages.mapping last := hkeep last (hframes last hlast)
    refine ⟨fun ⟨page, hin⟩ => ?_, fun hout => ?_⟩
    · simp only [resident, hslot, freeAllResidentPages, hin]
    · simp only [resident, hslot, freeAllResidentPages]
      cases hm : t.mapping last with
      | resident page => exact absurd ⟨page, hm⟩ hout
      | empty => rfl
      | unloaded => rfl
  have hget : ({ t with mapping } : NativeTree K).bestCell k = t.bestCell k := rfl
  rw [himport, get, get, hget]
  cases hbest : t.bestCell k with
  | some c => exact ⟨fun _ => rfl, fun _ _ _ => .inl (by simp [hbest])⟩
  | none =>
    refine ⟨fun hspared => ?_, fun hinline hframes hsame => .inr fun pageId hreach =>
      ⟨hframes pageId hreach, ?_⟩⟩
    · have hway := hspared.resolve_left (not_not.2 hbest)
      exact getL1_eq rfl (hdrops fun pageId hreach => (hway pageId hreach).1) fun last hlast =>
        (hway last hlast).2
    · intro hin
      have hlost := findLeafPageId_lost hinline hreach hin (hdrops hframes) 64
      have hgone : ({ t with mapping } : NativeTree K).getL1 k = none := by
        rw [getL1, hlost]
        rfl
      exact hsame.symm.trans hgone

/-- A tree with one leaf, in memory or evicted. -/
def oneLeaf (slot : MappingSlot Bool) (page : TreePage Bool) : NativeTree Bool :=
  { mapping := fun pageId => if pageId = 1 then slot else .empty
    rootPageId := 1
    device := fun _ => some page }

/-- A leaf with one cell. -/
def oneCell : TreePage Bool := .node (.leaf { entries := [(true, ⟨5, some (.inline [42])⟩)] })

/-- The leaf is evicted, the second frame is refused, and the third one is of the leaf. -/
theorem installSnapshotNative_error_evicted :
    let t := oneLeaf (.unloaded 0) oneCell
    let r := t.installSnapshotNative [⟨some 7, some oneCell⟩, ⟨some 8, none⟩,
      ⟨some 1, some oneCell⟩] 7
    t.get true = some (5, [42]) ∧ r.1.get true = t.get true := by
  refine ⟨by decide +kernel, (installSnapshotNative_error (e := .corruption _) rfl true).1 (.inr ?_)⟩
  have hroot : ∀ pageId last, Reaches (oneLeaf (.unloaded 0) oneCell) true pageId last →
    pageId = 1 → last = 1 := by
    intro pageId last hr
    induction hr with
    | refl => exact id
    | head _ hpage hnext _ _ =>
      rintro rfl
      cases hpage
      cases hnext
  intro pageId hr
  rw [hroot _ pageId hr rfl]
  exact ⟨by simp [installed], by simp [InMemory, oneLeaf]⟩

/-- The only leaf is in memory, and the import is refused at its first frame: the key is gone. -/
theorem installSnapshotNative_loses_key :
    let r := (oneLeaf (.resident oneCell) oneCell).installSnapshotNative [⟨none, some oneCell⟩] 1
    r.2 = some (.invalidArgument "native snapshot: invalid page_id") ∧
      (oneLeaf (.resident oneCell) oneCell).get true = some (5, [42]) ∧ r.1.get true = none := by
  decide +kernel

end NativeTree

end CrowDB
