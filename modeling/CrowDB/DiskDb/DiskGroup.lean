/-
  Choosing disks in a disk group (`model/disk_group.rs`): `allocate_block` takes the next disk
  that has room, round robin, and `allocate_blocks` takes as many different disks as it is asked
  for.
-/
import Mathlib.Data.List.Rotate

namespace CrowDB

open List

/-- A disk group; `space` is the number of blocks that `disk_allocate` can still place on a disk. -/
structure DiskGroup (D : Type*) where
  up : Bool
  allocatingDisks : List D
  /-- `pos_v_disk_ctx`, 64 bits -/
  pos : ℕ
  space : D → ℕ

namespace DiskGroup

variable {D : Type*} [DecidableEq D] (g : DiskGroup D)

/-- The disk whose turn it is. -/
def turn : Option D := g.allocatingDisks[g.pos % g.allocatingDisks.length]?

/-- A block of the disk is taken. -/
def take (d : D) : DiskGroup D := { g with space := Function.update g.space d (g.space d - 1) }

/-- The disk can take a block and is not excluded. -/
def usable (exclude : List D) (d : D) : Bool := decide (d ∉ exclude ∧ 0 < g.space d)

/-- `allocate_block`. -/
def allocateBlock (exclude : List D) : DiskGroup D × Option D :=
  if g.up = false ∨ g.allocatingDisks = [] then (g, none)
  else
    let next := { g with pos := (g.pos + 1) % 0x10000000000000000 }
    match (g.allocatingDisks.rotate (g.pos % g.allocatingDisks.length)).find? (g.usable exclude) with
    | some d => (next.take d, some d)
    | none => (next, none)

/-- The first pass of `allocate_blocks`: round robin, until a block finds no disk. -/
def roundRobin (g : DiskGroup D) : ℕ → List D → DiskGroup D × List D
  | 0, _ => (g, [])
  | n + 1, used =>
    match g.allocateBlock used with
    | (g, some d) =>
      let rest := g.roundRobin n (used ++ [d])
      (rest.1, d :: rest.2)
    | (g, none) => (g, [])

/-- One scan over the disks, until `wanted` blocks are placed. -/
def scanDisks (g : DiskGroup D) (used : List D) : ℕ → List D → DiskGroup D × List D
  | 0, _ | _, [] => (g, [])
  | wanted + 1, d :: disks =>
    if g.usable used d then
      let rest := (g.take d).scanDisks (used ++ [d]) wanted disks
      (rest.1, d :: rest.2)
    else g.scanDisks used (wanted + 1) disks

/-- The second pass: scans from random starts as long as they place a block, so at most `wanted`. -/
def fullScan (g : DiskGroup D) (rnd : ℕ → ℕ) (used : List D) (wanted : ℕ) : ℕ → DiskGroup D × List D
  | 0 => (g, [])
  | fuel + 1 =>
    match g.scanDisks used wanted (g.allocatingDisks.rotate (rnd fuel)) with
    | (g, []) => (g, [])
    | (g, disks) =>
      let rest := g.fullScan rnd (used ++ disks) (wanted - disks.length) fuel
      (rest.1, disks ++ rest.2)

/-- `allocate_blocks`. -/
def allocateBlocks (rnd : ℕ → ℕ) (count : ℕ) (exclude : List D) : DiskGroup D × Option (List D) :=
  let first := g.roundRobin count exclude
  if first.2.length = count then (first.1, some first.2)
  else
    let wanted := count - first.2.length
    let second := first.1.fullScan rnd (exclude ++ first.2) wanted wanted
    if first.2.length + second.2.length = count then (second.1, some (first.2 ++ second.2))
    else (second.1, none)

/-! ## The disks of a request -/

/-- Different disks of the group that are not used before. -/
structure Picks (used picked : List D) : Prop where
  nodup : picked.Nodup
  unused : ∀ d ∈ picked, d ∉ used
  listed : ∀ d ∈ picked, d ∈ g.allocatingDisks

variable {g} {used : List D}

omit [DecidableEq D] in
theorem Picks.nil : g.Picks used [] := ⟨nodup_nil, nofun, nofun⟩

omit [DecidableEq D] in
theorem Picks.append {a b : List D} (ha : g.Picks used a) (hb : g.Picks (used ++ a) b) :
    g.Picks used (a ++ b) where
  nodup := by
    refine nodup_append.mpr ⟨ha.nodup, hb.nodup, ?_⟩
    rintro d hd _ hd' rfl
    exact hb.unused d hd' (mem_append_right _ hd)
  unused d hd := by
    rcases mem_append.mp hd with hd | hd
    · exact ha.unused d hd
    · exact fun hu => hb.unused d hd (mem_append_left _ hu)
  listed d hd := (mem_append.mp hd).elim (ha.listed d) (hb.listed d)

omit [DecidableEq D] in
theorem Picks.singleton {d : D} (hd : d ∉ used) (hg : d ∈ g.allocatingDisks) : g.Picks used [d] where
  nodup := nodup_singleton d
  unused := by simpa using hd
  listed := by simpa using hg

omit [DecidableEq D] in
theorem Picks.of_eq {g' : DiskGroup D} (heq : g'.allocatingDisks = g.allocatingDisks)
    {picked : List D}
    (h : g'.Picks used picked) : g.Picks used picked :=
  ⟨h.nodup, h.unused, fun d hd => heq ▸ h.listed d hd⟩

theorem allocateBlock_spec (exclude : List D) : (g.allocateBlock exclude).1.allocatingDisks =
      g.allocatingDisks ∧
      ∀ d, (g.allocateBlock exclude).2 = some d → g.Picks exclude [d] := by
  unfold allocateBlock
  split
  · exact ⟨rfl, nofun⟩
  · split
    · rename_i d hfind
      refine ⟨rfl, ?_⟩
      rintro _ ⟨⟩
      have hfound : g.usable exclude d = true := find?_some hfind
      have husable := of_decide_eq_true hfound
      exact .singleton husable.1 (mem_rotate.mp (mem_of_find?_eq_some hfind))
    · exact ⟨rfl, nofun⟩

theorem roundRobin_spec (n : ℕ) (g : DiskGroup D) (used : List D) :
    (g.roundRobin n used).1.allocatingDisks = g.allocatingDisks ∧
      g.Picks used (g.roundRobin n used).2 := by
  induction n generalizing g used with
  | zero => exact ⟨rfl, .nil⟩
  | succ n ih =>
    obtain ⟨hdisks, hpick⟩ := g.allocateBlock_spec used
    unfold roundRobin
    split
    · rename_i g' d heq
      rw [heq] at hdisks hpick
      obtain ⟨hrest, hpicks⟩ := ih g' (used ++ [d])
      exact ⟨hrest.trans hdisks, (hpick d rfl).append (hpicks.of_eq hdisks)⟩
    · rename_i g' heq
      rw [heq] at hdisks
      exact ⟨hdisks, .nil⟩

theorem scanDisks_spec (disks : List D) (g : DiskGroup D) (used : List D) (wanted : ℕ)
    (hdisks : ∀ d ∈ disks, d ∈ g.allocatingDisks) :
    (g.scanDisks used wanted disks).1.allocatingDisks = g.allocatingDisks ∧
      g.Picks used (g.scanDisks used wanted disks).2 := by
  induction disks generalizing g used wanted with
  | nil => cases wanted <;> exact ⟨rfl, .nil⟩
  | cons d _ ih =>
    cases wanted with
    | zero => exact ⟨rfl, .nil⟩
    | succ wanted =>
      unfold scanDisks
      split
      · rename_i husable
        obtain ⟨hrest, hpicks⟩ := ih (g.take d) (used ++ [d]) wanted fun x hx =>
          hdisks x (mem_cons_of_mem d hx)
        have hd : g.Picks used [d] :=
          .singleton (of_decide_eq_true husable).1 (hdisks d mem_cons_self)
        have hsame : (g.take d).allocatingDisks = g.allocatingDisks := rfl
        exact ⟨hrest, hd.append (hpicks.of_eq hsame)⟩
      · exact ih g used (wanted + 1) fun x hx => hdisks x (mem_cons_of_mem d hx)

theorem fullScan_spec (fuel : ℕ) (g : DiskGroup D) (rnd : ℕ → ℕ) (used : List D) (wanted : ℕ) :
    (g.fullScan rnd used wanted fuel).1.allocatingDisks = g.allocatingDisks ∧
      g.Picks used (g.fullScan rnd used wanted fuel).2 := by
  induction fuel generalizing g used wanted with
  | zero => exact ⟨rfl, .nil⟩
  | succ fuel ih =>
    obtain ⟨hdisks, hpicks⟩ := g.scanDisks_spec (g.allocatingDisks.rotate (rnd fuel)) used wanted
      fun d hd => mem_rotate.mp hd
    unfold fullScan
    split
    · rename_i g' heq
      rw [heq] at hdisks
      exact ⟨hdisks, .nil⟩
    · rename_i g' disks _ heq
      rw [heq] at hdisks hpicks
      obtain ⟨hrest, hmore⟩ := ih g' (used ++ disks) (wanted - disks.length)
      exact ⟨hrest.trans hdisks, hpicks.append (hmore.of_eq hdisks)⟩

/-- **A request** gets as many disks as it asked for, all different. -/
theorem allocateBlocks_spec (g : DiskGroup D) (rnd : ℕ → ℕ) (count : ℕ) (exclude : List D) :
    (g.allocateBlocks rnd count exclude).1.allocatingDisks = g.allocatingDisks ∧
      ∀ disks, (g.allocateBlocks rnd count exclude).2 = some disks → disks.length = count ∧
        g.Picks exclude disks := by
  obtain ⟨hfirst, hpicks⟩ := g.roundRobin_spec count exclude
  unfold allocateBlocks
  dsimp only
  split
  · refine ⟨hfirst, ?_⟩
    rintro _ ⟨⟩
    exact ⟨‹_›, hpicks⟩
  · obtain ⟨hsecond, hmore⟩ :=
      (g.roundRobin count exclude).1.fullScan_spec (count - (g.roundRobin count exclude).2.length)
      rnd (exclude ++ (g.roundRobin count exclude).2) (count - (g.roundRobin count exclude).2.length)
    split
    · refine ⟨hsecond.trans hfirst, ?_⟩
      rintro _ ⟨⟩
      exact ⟨by rw [length_append]; assumption, hpicks.append (hmore.of_eq hfirst)⟩
    · exact ⟨hsecond.trans hfirst, nofun⟩

/-- **The next disk in turn** gets the block of a request for one, if it has room. -/
theorem allocateBlocks_turn (hup : g.up = true) {d : D} (hturn : g.turn = some d)
    (hspace : 0 < g.space d)
    (rnd : ℕ → ℕ) : (g.allocateBlocks rnd 1 []).2 = some [d] := by
  have hlt : g.pos % g.allocatingDisks.length < g.allocatingDisks.length :=
    (List.getElem?_eq_some_iff.mp hturn).1
  have hne : ¬ (g.up = false ∨ g.allocatingDisks = []) := by
    rintro (hdown | hnil)
    · rw [hup] at hdown
      cases hdown
    · simp [hnil] at hlt
  have hfind : (g.allocatingDisks.rotate (g.pos % g.allocatingDisks.length)).find?
    (g.usable []) = some d := by
    have hhead := (head?_rotate hlt).trans hturn
    obtain ⟨rest, hrest⟩ := head?_eq_some_iff.mp hhead
    rw [hrest, find?_cons_of_pos (by simpa [usable] using hspace)]
  have hblock : (g.allocateBlock []).2 = some d := by
    simp only [allocateBlock, if_neg hne, hfind]
  have hfirst : (g.roundRobin 1 []).2 = [d] := by
    unfold roundRobin
    split
    · rename_i g' d' heq
      rw [heq] at hblock
      cases hblock
      rfl
    · rename_i g' heq
      rw [heq] at hblock
      cases hblock
  simp [allocateBlocks, hfirst]

end DiskGroup

end CrowDB
