/-
  What a get sees during a migration.

  The copier writes records that it has read earlier, so it must not hold a record of an id
  that a put is writing; and a get that has missed a record in the new group still needs the
  one in the old group.
-/
import CrowDB.Lib.Lists
import CrowDB.ChunkDb.Migration

namespace CrowDB

open Lib List Option Function

variable {K V : Type*} [LinearOrder K]

/-! ## The conditions -/

namespace MigrationSystem

/-- The copier scans no record that a put is writing, and no record is deleted that a get will
    still look for. -/
def TaskApart (s : MigrationSystem K V) : MigrationPc K V → Prop
  | .copyScan startAfter => ∀ p ∈ s.puts, p.wroteNew = true →
      ∀ q ∈ (scanPage s.old startAfter).1, q.1 ≠ p.id
  | .cleanDelete ((k, _) :: _) _ _ => ∀ g ∈ s.gets, g.missedNew = true → g.id ≠ k
  | _ => True

/-- In addition the puts of one id do not overlap, and a put does not write a record that the
    copier holds. -/
def KeepsApart (s : MigrationSystem K V) : MigrationEvent K V → Prop
  | .task => s.TaskApart s.task
  | .putStart id _ => ∀ p ∈ s.puts, p.id ≠ id
  | .putStep i => ∀ p ∈ s.puts[i]?, p.wroteNew = false → ∀ q ∈ s.task.page, q.1 ≠ p.id
  | .setBinding _ | .getStart _ | .getStep _ => True

instance (s : MigrationSystem K V) (pc : MigrationPc K V) : Decidable (s.TaskApart pc) :=
  match pc with
  | .copyScan _ => inferInstanceAs (Decidable (∀ _ ∈ _, _))
  | .cleanDelete ((_, _) :: _) _ _ => inferInstanceAs (Decidable (∀ _ ∈ _, _))
  | .cleanDelete [] _ _ | .copyPut _ _ _ | .dwell | .cleanScan _ | .done => isTrue trivial

instance (s : MigrationSystem K V) (e : MigrationEvent K V) : Decidable (s.KeepsApart e) :=
  match e with
  | .task => inferInstanceAs (Decidable (s.TaskApart s.task))
  | .putStart _ _ => inferInstanceAs (Decidable (∀ _ ∈ _, _))
  | .putStep _ => inferInstanceAs (Decidable (∀ _ ∈ _, _))
  | .setBinding _ | .getStart _ | .getStep _ => isTrue trivial

end MigrationSystem

/-! ## A page of a scan -/

variable {startAfter : Option K} {s : RecordStore K V} {p : K × V}

theorem mem_scanPage (hp : p ∈ (scanPage s startAfter).1) : p ∈ s.records :=
  (mem_filter.mp (mem_of_mem_take hp)).1

theorem scanPage_spec (hp : p ∈ s.records) (hafter : ∀ a ∈ startAfter, a < p.1) :
    p ∈ (scanPage s startAfter).1 ∨
      ((scanPage s startAfter).2 = true ∧ (scanPage s startAfter).1 ≠ [] ∧
        ∀ q ∈ (scanPage s startAfter).1, q.1 < p.1) := by
  unfold scanPage
  set rest := s.records.filter fun p => startAfter.all (decide <| · < p.1) with hrest
  have hmem : p ∈ rest.take batchSize ++ rest.drop batchSize := by
    rw [take_append_drop, hrest, mem_filter]
    refine ⟨hp, ?_⟩
    rw [Option.all_eq_true]
    exact fun a ha => decide_eq_true (hafter a ha)
  rcases mem_append.mp hmem with htake | hdrop
  · exact .inl htake
  · have hsorted : ((rest.take batchSize ++ rest.drop batchSize).map Prod.fst).Pairwise (· < ·) := by
      rw [take_append_drop]
      exact s.sorted.sublist (filter_sublist.map Prod.fst)
    rw [map_append] at hsorted
    have hlt := (pairwise_append.mp hsorted).2.2
    have hlen : batchSize < rest.length := by
      by_contra hle
      rw [drop_eq_nil_of_le (Nat.le_of_not_lt hle)] at hdrop
      cases hdrop
    refine .inr ⟨decide_eq_true hlen, ?_, fun q hq => ?_⟩
    · intro hnil
      have := congrArg length hnil
      rw [length_take, length_nil] at this
      have : batchSize = 100 := rfl
      omega
    · exact hlt _ (mem_map_of_mem hq) _ (mem_map_of_mem hdrop)

/-! ## The invariant -/

/-- The copier has not passed the key yet. -/
def MigrationPc.Ahead : MigrationPc K V → K → Prop
  | .copyScan startAfter, k => ∀ a ∈ startAfter, a < k
  | .copyPut page startAfter truncated, k =>
    (∃ q ∈ page, q.1 = k) ∨ (truncated = true ∧ (∀ a ∈ startAfter, a < k) ∧ ∀ q ∈ page, q.1 < k)
  | _, _ => False

/-- What a get may answer with. -/
def ChunkGet.Sees (g : ChunkGet K V) (value : Option V) : Prop :=
  value = g.last ∨ ∃ v ∈ g.during, value = some v

/-- What a running get can still find. -/
structure ChunkGet.Ok (inRange : K → Bool) (s : MigrationSystem K V) (g : ChunkGet K V) : Prop where
  range : inRange g.id = true
  last : g.Sees (s.last g.id)
  during : ∀ p ∈ s.puts, p.id = g.id → p.value ∈ g.during
  missed : g.missedNew = true → g.Sees (s.old.get g.id)
  dual : g.dual = false → s.task.copied = true

/-- A put has written the new group and not the old one. -/
def MigrationSystem.Writing (s : MigrationSystem K V) (k : K) : Prop :=
  ∃ p ∈ s.puts, p.wroteNew = true ∧ p.id = k

/-- Where the last completed record of an id is, at every moment. -/
structure MigrationInv (inRange : K → Bool) (s : MigrationSystem K V) : Prop where
  puts_range : ∀ p ∈ s.puts, inRange p.id = true
  puts_apart : (s.puts.map ChunkPut.id).Nodup
  puts_dual : ∀ p ∈ s.puts, p.dual = false → s.task.copied = true
  binding : s.binding.isDual = false → s.task.copied = true
  wrote : ∀ p ∈ s.puts, p.wroteNew = true → s.new.get p.id = some p.value
  idle : ∀ k, inRange k = true → ¬ s.Writing k → s.new.get k = s.last k ∨ s.new.get k = none
  old_last : s.task.copied = false → ∀ k, inRange k = true → s.old.get k = s.last k
  old_none : ∀ k, inRange k = true → s.last k = none → s.old.get k = none
  page : ∀ q ∈ s.task.page, inRange q.1 = true → s.last q.1 = some q.2 ∧ ¬ s.Writing q.1
  covered : ∀ k, inRange k = true → s.last k ≠ none → s.new.get k ≠ none ∨ s.task.Ahead k
  gets : ∀ g ∈ s.gets, g.Ok inRange s
  answers : ∀ a ∈ s.answers, a.value = a.last ∨ ∃ v ∈ a.during, a.value = some v

namespace MigrationInv

variable {inRange : K → Bool} {s s' : MigrationSystem K V}

theorem page_eq_nil (hcopied : s.task.copied = true) : s.task.page = [] := by
  cases htask : s.task with
  | copyScan | copyPut => simp [htask, MigrationPc.copied] at hcopied
  | dwell | cleanScan | cleanDelete | done => rfl

theorem init {old new : RecordStore K V} (hnew : ∀ k, inRange k = true → new.get k = none) :
    MigrationInv inRange (MigrationSystem.start old new) where
  puts_range := by simp [MigrationSystem.start]
  puts_apart := by simp [MigrationSystem.start]
  puts_dual := by simp [MigrationSystem.start]
  binding := by simp [MigrationSystem.start, MigrationState.isDual]
  wrote := by simp [MigrationSystem.start]
  idle k hk _ := .inr (hnew k hk)
  old_last _ _ _ := rfl
  old_none _ _ h := h
  page := by simp [MigrationSystem.start, MigrationPc.page]
  covered k _ _ := .inr (by simp [MigrationSystem.start, MigrationPc.Ahead])
  gets := by simp [MigrationSystem.start]
  answers := by simp [MigrationSystem.start]

variable (h : MigrationInv inRange s) {k id : K} {task : MigrationPc K V}
include h

/-- After the copy phase the new group has the last record of every id that is not being written. -/
theorem new_eq_last (hcopied : s.task.copied = true) (hk : inRange k = true)
    (hidle : ¬ s.Writing k) : s.new.get k = s.last k := by
  rcases h.idle k hk hidle with heq | hnone
  · exact heq
  · rw [hnone]
    by_contra hne
    rcases h.covered k hk (Ne.symm hne) with hsome | hahead
    · exact hsome hnone
    · cases htask : s.task with
      | copyScan | copyPut => simp [htask, MigrationPc.copied] at hcopied
      | dwell | cleanScan | cleanDelete | done => simp [htask, MigrationPc.Ahead] at hahead

/-! ## The task -/

theorem move (hcopied : s.task.copied = true → task.copied = true)
    (hpage : ∀ q ∈ task.page, inRange q.1 = true → s.last q.1 = some q.2 ∧ ¬ s.Writing q.1)
    (hahead : ∀ k, inRange k = true → s.last k ≠ none → s.new.get k = none →
      s.task.Ahead k → task.Ahead k) :
    MigrationInv inRange { s with task := task } :=
  { h with
    puts_dual := fun p hp hd => hcopied (h.puts_dual p hp hd)
    binding := fun hb => hcopied (h.binding hb)
    old_last := by
      intro hnot
      refine h.old_last ?_
      by_contra hc
      rw [hcopied (by simpa using hc)] at hnot
      cases hnot
    page := hpage
    covered := by
      intro k hk hl
      by_cases hnone : s.new.get k = none
      · exact .inr (hahead k hk hl hnone ((h.covered k hk hl).resolve_left fun hn => hn hnone))
      · exact .inl hnone
    gets := fun g hg => { h.gets g hg with dual := fun hd => hcopied ((h.gets g hg).dual hd) } }

theorem copyScan (htask : s.task = .copyScan startAfter)
    (hapart : s.TaskApart (.copyScan startAfter)) :
    MigrationInv inRange (s.taskStep inRange (.copyScan startAfter)) := by
  have hnot : s.task.copied = false := by rw [htask]; rfl
  have hrecord : ∀ k, inRange k = true → s.last k ≠ none → s.task.Ahead k →
      ∃ v, (k, v) ∈ (scanPage s.old startAfter).1 ∨ ((scanPage s.old startAfter).2 = true ∧
        (scanPage s.old startAfter).1 ≠ [] ∧ ∀ q ∈ (scanPage s.old startAfter).1, q.1 < k) := by
    intro k hk hl hahead
    obtain ⟨v, hv⟩ := ne_none_iff_exists'.mp hl
    rw [htask] at hahead
    have hmem := RecordStore.mem_of_get ((h.old_last hnot k hk).trans hv)
    exact ⟨v, scanPage_spec hmem hahead⟩
  unfold MigrationSystem.taskStep
  dsimp only
  split
  · rename_i hempty
    refine h.move (fun _ => rfl) (by simp [MigrationPc.page]) fun k hk hl _ hahead => ?_
    rw [List.isEmpty_iff] at hempty
    obtain ⟨v, hmem | ⟨-, hne, -⟩⟩ := hrecord k hk hl hahead
    · rw [hempty] at hmem
      cases hmem
    · exact absurd hempty hne
  · refine h.move (fun hc => by rw [hnot] at hc; cases hc) (fun q hq hr => ?_) fun k hk hl
      _ hahead => ?_
    · refine ⟨?_, ?_⟩
      · rw [← h.old_last hnot q.1 hr]
        exact RecordStore.get_eq_some_iff.mpr (mem_scanPage hq)
      · rintro ⟨p, hp, hw, heq⟩
        exact hapart p hp hw q hq heq.symm
    · obtain ⟨v, hmem | ⟨htrunc, -, hlt⟩⟩ := hrecord k hk hl hahead
      · exact .inl ⟨(k, v), hmem, rfl⟩
      · rw [htask] at hahead
        exact .inr ⟨htrunc, hahead, hlt⟩

variable {truncated : Bool} {i : ℕ} {p : ChunkPut K V} {page : List (K × V)} {g : ChunkGet K V}

theorem copyNext (htask : s.task = .copyPut [] startAfter truncated) :
    MigrationInv inRange (s.taskStep inRange (.copyPut [] startAfter truncated)) := by
  have hnot : s.task.copied = false := by rw [htask]; rfl
  cases truncated with
  | true =>
    refine h.move (fun hc => by rw [hnot] at hc; cases hc) (by simp [MigrationPc.page])
      fun k _ _ _ hahead => ?_
    rw [htask] at hahead
    rcases hahead with ⟨q, hq, -⟩ | ⟨-, hlt, -⟩
    · cases hq
    · exact hlt
  | false =>
    refine h.move (fun _ => rfl) (by simp [MigrationPc.page]) fun k _ _ _ hahead => ?_
    rw [htask] at hahead
    rcases hahead with ⟨q, hq, -⟩ | ⟨hf, -⟩
    · cases hq
    · cases hf

/-- **The copier** puts a record that is the last one of its id still. -/
theorem copyPut {v : V}
    (htask : s.task = .copyPut ((k, v) :: page) startAfter truncated) :
    MigrationInv inRange (s.taskStep inRange (.copyPut ((k, v) :: page) startAfter truncated)) := by
  have hnot : s.task.copied = false := by rw [htask]; rfl
  have hpage : ∀ q ∈ page, inRange q.1 = true → s.last q.1 = some q.2 ∧ ¬ s.Writing q.1 := by
    intro q hq hr
    refine h.page q ?_ hr
    rw [htask]
    exact mem_cons_of_mem _ hq
  have hahead : ∀ k', s.task.Ahead k' → k' = k ∨
    MigrationPc.Ahead (.copyPut page (some k) truncated) k' := by
    intro k' ha
    rw [htask] at ha
    rcases ha with ⟨q, hq, rfl⟩ | ⟨ht, -, hlt⟩
    · rcases mem_cons.mp hq with rfl | hq
      · exact .inl rfl
      · exact .inr (.inl ⟨q, hq, rfl⟩)
    · refine .inr (.inr ⟨ht, ?_, fun q hq => hlt q (mem_cons_of_mem _ hq)⟩)
      rintro _ ⟨⟩
      exact hlt _ mem_cons_self
  simp only [MigrationSystem.taskStep]
  by_cases hr : inRange k = true
  · rw [if_pos hr]
    obtain ⟨hlast, hidle⟩ := h.page (k, v) (by rw [htask]; exact mem_cons_self) hr
    have hget : ∀ k', k' ≠ k → (s.new.put k v).get k' = s.new.get k' := by
      intro k' hne
      rw [RecordStore.get_put, if_neg hne]
    exact { h with
      puts_dual := fun p hp hd => by rw [h.puts_dual p hp hd] at hnot; cases hnot
      binding := fun hb => by rw [h.binding hb] at hnot; cases hnot
      wrote := by
        intro p hp hw
        rw [hget p.id fun heq => hidle ⟨p, hp, hw, heq⟩]
        exact h.wrote p hp hw
      idle := by
        intro k' hk' hw
        by_cases hkk : k' = k
        · rw [hkk, RecordStore.get_put_self, hlast]
          exact .inl rfl
        · rw [hget k' hkk]
          exact h.idle k' hk' hw
      old_last := fun _ => h.old_last hnot
      page := hpage
      covered := by
        intro k' hk' hl
        by_cases hkk : k' = k
        · rw [hkk, RecordStore.get_put_self]
          exact .inl (by simp)
        · rw [hget k' hkk]
          exact (h.covered k' hk' hl).imp_right fun ha => (hahead k' ha).resolve_left hkk
      gets := fun g hg => { h.gets g hg with
        dual := fun hd => by rw [(h.gets g hg).dual hd] at hnot; cases hnot } }
  · rw [if_neg hr]
    refine h.move (fun hc => by rw [hnot] at hc; cases hc) hpage fun k' hk' _ _ ha => ?_
    refine (hahead k' ha).resolve_left ?_
    rintro rfl
    exact hr hk'

theorem cleanMove (hcopied : s.task.copied = true)
    (hc : task.copied = true) (hp : task.page = []) :
    MigrationInv inRange { s with task := task } := by
  refine h.move (fun _ => hc) (by rw [hp]; simp) fun k _ _ _ ha => ?_
  cases htask : s.task with
  | copyScan | copyPut => simp [htask, MigrationPc.copied] at hcopied
  | dwell | cleanScan | cleanDelete | done => simp [htask, MigrationPc.Ahead] at ha

theorem cleanDelete {v : V}
    (htask : s.task = .cleanDelete ((k, v) :: page) startAfter truncated)
    (hapart : s.TaskApart (.cleanDelete ((k, v) :: page) startAfter truncated)) :
    MigrationInv inRange (s.taskStep inRange
      (.cleanDelete ((k, v) :: page) startAfter truncated)) := by
  have hmoved : MigrationInv inRange { s with task := .cleanDelete page (some k) truncated } :=
    h.cleanMove (by rw [htask]; rfl) rfl rfl
  simp only [MigrationSystem.taskStep]
  by_cases hr : inRange k = true
  · rw [if_pos hr]
    exact { hmoved with
      old_last := fun hc => by cases hc
      old_none := by
        intro k' hk' hl
        rw [RecordStore.get_delete]
        split
        · rfl
        · exact h.old_none k' hk' hl
      gets := fun g hg => { hmoved.gets g hg with
        missed := by
          intro hm
          rw [RecordStore.get_delete, if_neg (hapart g hg hm)]
          exact (h.gets g hg).missed hm } }
  · rw [if_neg hr]
    exact hmoved

theorem taskStep (hapart : s.TaskApart s.task) :
    MigrationInv inRange (s.taskStep inRange s.task) := by
  cases htask : s.task with
  | copyScan => exact h.copyScan htask (htask ▸ hapart)
  | copyPut page =>
    cases page with
    | nil => exact h.copyNext htask
    | cons => exact h.copyPut htask
  | dwell => exact h.cleanMove (by rw [htask]; rfl) rfl rfl
  | cleanScan =>
    simp only [MigrationSystem.taskStep]
    split <;> exact h.cleanMove (by rw [htask]; rfl) rfl rfl
  | cleanDelete page =>
    cases page with
    | nil =>
      simp only [MigrationSystem.taskStep]
      split <;> exact h.cleanMove (by rw [htask]; rfl) rfl rfl
    | cons => exact h.cleanDelete htask (htask ▸ hapart)
  | done => exact h

/-! ## Puts -/

theorem setBinding {state : MigrationState}
    (hstate : state.isDual = true ∨ s.task.copied = true) :
    MigrationInv inRange { s with binding := state } :=
  { h with
    binding := fun hb => hstate.resolve_left (by simp [show state.isDual = false from hb])
    gets := fun g hg => { h.gets g hg with } }

theorem putStart {value : V} (hr : inRange id = true)
    (hapart : ∀ p ∈ s.puts, p.id ≠ id) : MigrationInv inRange (s.putStart id value) := by
  have hwriting : ∀ k, (s.putStart id value).Writing k → s.Writing k := by
    rintro k ⟨p, hp, hw, rfl⟩
    rcases mem_append.mp hp with hp | hp
    · exact ⟨p, hp, hw, rfl⟩
    · rw [mem_singleton.mp hp] at hw
      cases hw
  exact { h with
    puts_range := forall_mem_concat h.puts_range hr
    puts_apart := by
      simp only [MigrationSystem.putStart, map_append, map_cons, map_nil]
      refine nodup_append.mpr ⟨h.puts_apart, nodup_singleton _, ?_⟩
      intro a ha b hb hab
      obtain ⟨p, hp, rfl⟩ := mem_map.mp ha
      rw [mem_singleton.mp hb] at hab
      exact hapart p hp hab
    puts_dual := forall_mem_concat h.puts_dual fun hd => h.binding hd
    wrote := by
      refine forall_mem_concat h.wrote ?_
      intro hw
      cases hw
    idle := fun k hk hw => h.idle k hk fun hw' => hw (by
      obtain ⟨p, hp, hrest⟩ := hw'
      exact ⟨p, mem_append_left _ hp, hrest⟩)
    page := fun q hq hqr => ⟨(h.page q hq hqr).1, fun hw => (h.page q hq hqr).2 (hwriting _ hw)⟩
    gets := by
      intro g hg
      obtain ⟨g₀, hg₀, rfl⟩ := mem_map.mp hg
      have hok := h.gets g₀ hg₀
      split
      · have hsees : ∀ {x : Option V}, g₀.Sees x → ChunkGet.Sees
          { g₀ with during := g₀.during ++ [value] } x := by
          rintro x (hx | ⟨v, hv, hx⟩)
          · exact .inl hx
          · exact .inr ⟨v, mem_append_left _ hv, hx⟩
        refine ⟨hok.range, hsees hok.last, ?_, fun hm => hsees (hok.missed hm), hok.dual⟩
        exact forall_mem_concat (fun p hp hpid => mem_append_left _ (hok.during p hp hpid))
          fun _ => mem_concat_self
      · rename_i hid
        exact { hok with during := forall_mem_concat hok.during fun hpid => absurd hpid.symm hid } }

theorem putNew (hp : s.puts[i]? = some p) (hapart : ∀ q ∈ s.task.page, q.1 ≠ p.id) :
    MigrationInv inRange { s with
      new := s.new.put p.id p.value
      puts := s.puts.set i { p with wroteNew := true } } := by
  have hmem := mem_of_getElem? hp
  have hself : { p with wroteNew := true } ∈ s.puts.set i { p with wroteNew := true } :=
    mem_set (List.getElem?_eq_some_iff.mp hp).1 _
  have hkeep : ∀ {k}, k ≠ p.id → s.Writing k → MigrationSystem.Writing { s with
        new := s.new.put p.id p.value
        puts := s.puts.set i { p with wroteNew := true } } k := by
    rintro k hne ⟨q, hq, hw, rfl⟩
    exact ⟨q, (mem_set_or_eq hp hq).resolve_left (ne_of_apply_ne ChunkPut.id hne), hw, rfl⟩
  exact { h with
    puts_range := forall_mem_set h.puts_range (h.puts_range p hmem)
    puts_apart := nodup_map_set hp rfl h.puts_apart
    puts_dual := forall_mem_set h.puts_dual (h.puts_dual p hmem)
    wrote := by
      refine forall_mem_set (fun q hq hw => ?_) fun _ => RecordStore.get_put_self
      rw [RecordStore.get_put]
      split
      · rename_i heq
        -- the same put, already marked
        rw [← inj_on_of_nodup_map h.puts_apart hq hmem heq]
      · exact h.wrote q hq hw
    idle := by
      intro k hk hw
      by_cases hkp : k = p.id
      · exact absurd ⟨_, hself, rfl, hkp.symm⟩ hw
      · rw [RecordStore.get_put, if_neg hkp]
        exact h.idle k hk fun hw' => hw (hkeep hkp hw')
    page := by
      intro q hq hqr
      refine ⟨(h.page q hq hqr).1, ?_⟩
      rintro ⟨r, hr, hw, heq⟩
      rcases mem_or_eq_of_mem_set hr with hr | rfl
      · exact (h.page q hq hqr).2 ⟨r, hr, hw, heq⟩
      · exact hapart q hq heq.symm
    covered := by
      intro k hk hl
      rw [RecordStore.get_put]
      split
      · exact .inl (by simp)
      · exact h.covered k hk hl
    gets := fun g hg => { h.gets g hg with
      during := forall_mem_set (h.gets g hg).during ((h.gets g hg).during p hmem) } }

/-- **A put completes**: the new group has its record, and the old one as well or the copy phase
    is over. -/
theorem putDone (hp : s.puts[i]? = some p) (hnew : s.new.get p.id = some p.value)
    {old : RecordStore K V} (hold : old = s.old.put p.id p.value ∨
      (old = s.old ∧ s.task.copied = true))
    (hpage : ∀ q ∈ s.task.page, q.1 ≠ p.id) :
    MigrationInv inRange { s with
      old := old
      puts := s.puts.eraseIdx i
      last := update s.last p.id (some p.value) } := by
  have hmem := mem_of_getElem? hp
  have hlast : ∀ k, k ≠ p.id → update s.last p.id (some p.value) k = s.last k := fun k hk =>
    update_of_ne hk ..
  have hget : ∀ k, k ≠ p.id → old.get k = s.old.get k := by
    intro k hk
    rcases hold with rfl | ⟨rfl, -⟩
    · rw [RecordStore.get_put, if_neg hk]
    · rfl
  have hkeep : ∀ {k}, k ≠ p.id → s.Writing k → ∃ q ∈ s.puts.eraseIdx i, q.wroteNew = true ∧
    q.id = k := by
    rintro k hk ⟨q, hq, hw, rfl⟩
    exact ⟨q, (mem_eraseIdx_or_eq hp hq).resolve_left (ne_of_apply_ne ChunkPut.id hk), hw, rfl⟩
  exact { h with
    puts_range := fun q hq => h.puts_range q (mem_of_mem_eraseIdx hq)
    puts_apart := h.puts_apart.sublist ((eraseIdx_sublist _ _).map _)
    puts_dual := fun q hq => h.puts_dual q (mem_of_mem_eraseIdx hq)
    wrote := fun q hq => h.wrote q (mem_of_mem_eraseIdx hq)
    idle := by
      intro k hk hw
      dsimp only
      by_cases hkp : k = p.id
      · subst hkp
        rw [update_self]
        exact .inl hnew
      · rw [hlast k hkp]
        exact h.idle k hk fun hw' => hw (hkeep hkp hw')
    old_last := by
      intro hnot k hk
      dsimp only
      by_cases hkp : k = p.id
      · subst hkp
        rcases hold with rfl | ⟨-, hc⟩
        · rw [RecordStore.get_put_self, update_self]
        · rw [hc] at hnot
          cases hnot
      · rw [hlast k hkp, hget k hkp]
        exact h.old_last hnot k hk
    old_none := by
      intro k hk hl
      dsimp only at hl ⊢
      by_cases hkp : k = p.id
      · subst hkp
        rw [update_self] at hl
        cases hl
      · rw [hlast k hkp] at hl
        rw [hget k hkp]
        exact h.old_none k hk hl
    page := by
      intro q hq hqr
      dsimp only
      rw [hlast q.1 (hpage q hq)]
      refine ⟨(h.page q hq hqr).1, ?_⟩
      rintro ⟨r, hr, hw⟩
      exact (h.page q hq hqr).2 ⟨r, mem_of_mem_eraseIdx hr, hw⟩
    covered := by
      intro k hk hl
      dsimp only at hl ⊢
      by_cases hkp : k = p.id
      · subst hkp
        exact .inl (by simp [hnew])
      · rw [hlast k hkp] at hl
        exact h.covered k hk hl
    gets := by
      intro g hg
      have hok := h.gets g hg
      refine ⟨hok.range, ?_, fun q hq => hok.during q (mem_of_mem_eraseIdx hq),
        fun hm => ?_, hok.dual⟩
      · dsimp only
        by_cases hgp : g.id = p.id
        · exact .inr ⟨p.value, hok.during p hmem hgp.symm, by rw [hgp]; exact update_self ..⟩
        · rw [hlast g.id hgp]
          exact hok.last
      · by_cases hgp : g.id = p.id
        · rcases hold with rfl | ⟨rfl, -⟩
          · exact .inr ⟨p.value, hok.during p hmem hgp.symm, by rw [hgp, RecordStore.get_put_self]⟩
          · exact hok.missed hm
        · rw [hget g.id hgp]
          exact hok.missed hm }

theorem putSingle (hp : s.puts[i]? = some p) (hdual : p.dual = false) :
    MigrationInv inRange { s with
      new := s.new.put p.id p.value
      puts := s.puts.eraseIdx i
      last := update s.last p.id (some p.value) } := by
  have hcopied := h.puts_dual p (List.mem_of_getElem? hp) hdual
  have hlt := (List.getElem?_eq_some_iff.mp hp).1
  have hnil : ∀ q ∈ s.task.page, q.1 ≠ p.id := by simp [page_eq_nil hcopied]
  have hmid := h.putNew hp hnil
  have hp' : (s.puts.set i { p with wroteNew := true })[i]? = some { p with wroteNew := true } := by
    rw [List.getElem?_set_self hlt]
  have hdone := hmid.putDone hp' RecordStore.get_put_self (.inr ⟨rfl, hcopied⟩) hnil
  simpa only [eraseIdx_set_eq] using hdone

theorem putStep
    (hapart : ∀ p ∈ s.puts[i]?, p.wroteNew = false → ∀ q ∈ s.task.page, q.1 ≠ p.id)
    (hs : s.putStep i = some s') :
    MigrationInv inRange s' := by
  obtain ⟨p, hp, rfl⟩ := map_eq_some_iff.mp hs
  have hmem := mem_of_getElem? hp
  split
  · rename_i hw
    refine h.putDone hp (h.wrote p hmem hw) (.inl rfl) fun q hq heq => ?_
    have hr : inRange q.1 = true := by
      rw [heq]
      exact h.puts_range p hmem
    exact (h.page q hq hr).2 ⟨p, hmem, hw, heq.symm⟩
  · rename_i hw
    split
    · exact h.putNew hp (hapart p hp (by simpa using hw))
    · rename_i hdual
      exact h.putSingle hp (by simpa using hdual)

/-! ## Gets -/

theorem getStart (hr : inRange id = true) : MigrationInv inRange (s.getStart id) :=
  { h with
    gets := by
      refine forall_mem_concat (fun g hg => { h.gets g hg with }) ?_
      refine ⟨hr, .inl rfl, fun p hp hid => ?_, fun hm => (by cases hm), h.binding⟩
      exact mem_map_of_mem (mem_filter.mpr ⟨hp, decide_eq_true hid⟩) }

theorem answer {value : Option V} (hsees : g.Sees value) :
    MigrationInv inRange (s.answer i g value) :=
  { h with
    gets := fun g' hg' => { h.gets g' (mem_of_mem_eraseIdx hg') with }
    answers := forall_mem_concat h.answers hsees }

/-- What a get finds in the new group: a record it may see, or nothing; then the old group has the
    last. -/
theorem sees_new (hg : g ∈ s.gets) :
    (∀ v, s.new.get g.id = some v → g.Sees (some v)) ∧
      (s.new.get g.id = none → g.Sees (s.old.get g.id) ∧ (g.dual = false → g.Sees none)) := by
  have hok := h.gets g hg
  by_cases hw : s.Writing g.id
  · obtain ⟨p, hp, hw, hid⟩ := hw
    have hnew := h.wrote p hp hw
    rw [hid] at hnew
    refine ⟨fun v hv => ?_, fun hnone => ?_⟩
    · cases hnew.symm.trans hv
      exact .inr ⟨p.value, hok.during p hp hid, rfl⟩
    · cases hnew.symm.trans hnone
  · refine ⟨fun v hv => ?_, fun hnone => ⟨?_, fun hdual => ?_⟩⟩
    · rcases h.idle g.id hok.range hw with heq | hnone
      · rw [← hv, heq]
        exact hok.last
      · cases hnone.symm.trans hv
    · cases hc : s.task.copied with
      | false =>
        rw [h.old_last hc g.id hok.range]
        exact hok.last
      | true =>
        have hl : s.last g.id = none := (h.new_eq_last hc hok.range hw).symm.trans hnone
        have hsees := hok.last
        rw [hl] at hsees
        rw [h.old_none g.id hok.range hl]
        exact hsees
    · have hsees := hok.last
      rw [← h.new_eq_last (hok.dual hdual) hok.range hw, hnone] at hsees
      exact hsees

theorem getStep (hs : s.getStep i = some s') : MigrationInv inRange s' := by
  obtain ⟨g, hg, rfl⟩ := map_eq_some_iff.mp hs
  have hmem := mem_of_getElem? hg
  obtain ⟨hsome, hnone⟩ := h.sees_new hmem
  split
  · rename_i hm
    exact h.answer ((h.gets g hmem).missed hm)
  · split
    · rename_i v hv
      exact h.answer (hsome v hv)
    · rename_i hv
      split
      · refine { h with gets := fun g' hg' => ?_ }
        rcases mem_or_eq_of_mem_set hg' with hg' | rfl
        · exact { h.gets g' hg' with }
        · exact { h.gets g hmem with missed := fun _ => (hnone hv).1 }
      · rename_i hdual
        exact h.answer ((hnone hv).2 (by simpa using hdual))

/-! ## Step and run -/

theorem step {e : MigrationEvent K V} (hapart : s.KeepsApart e)
    (hs : s.step inRange e = some s') : MigrationInv inRange s' := by
  cases e with
  | task =>
    cases hs
    exact h.taskStep hapart
  | setBinding =>
    simp only [MigrationSystem.step] at hs
    split at hs
    · rename_i hstate
      cases hs
      exact h.setBinding (by simpa using hstate)
    · cases hs
  | putStart =>
    simp only [MigrationSystem.step] at hs
    split at hs
    · rename_i hr
      cases hs
      exact h.putStart hr hapart
    · cases hs
  | putStep => exact h.putStep hapart hs
  | getStart =>
    simp only [MigrationSystem.step] at hs
    split at hs
    · rename_i hr
      cases hs
      exact h.getStart hr
    · cases hs
  | getStep => exact h.getStep hs

end MigrationInv

namespace MigrationSystem

/-- Every get gave the record of the last put that was completed when it started, or that of a
    put that overlaps it. -/
def GetsLast (s : MigrationSystem K V) : Prop :=
  ∀ a ∈ s.answers, a.value = a.last ∨ ∃ v ∈ a.during, a.value = some v

/-- **A migration loses no update**, if puts and the task keep apart. -/
theorem gets_last_of_reach {inRange : K → Bool} {old new : RecordStore K V} {s : MigrationSystem K V}
    (hnew : ∀ k, inRange k = true → new.get k = none)
    (h : Reach (step inRange) KeepsApart (start old new) s) : s.GetsLast :=
  (h.invariant (MigrationInv.init hnew) fun hinv hok hs => hinv.step hok hs).answers

/-- Two records; a put before the copy, one between copy and cleanup, and a get after each. -/
theorem gets_last_two_puts : ∃ s : MigrationSystem ℕ ℕ, Reach (step fun _ => true) KeepsApart
        (start ((RecordStore.empty.put 1 10).put 2 20) .empty) s ∧
      s.answers = [⟨1, some 11, some 11, []⟩, ⟨2, some 20, some 20, []⟩, ⟨1, some 12, some 12, []⟩] ∧
      s.task.copied = true ∧ s.old.records = [] ∧ s.GetsLast := by
  exact Reach.exists_imp_of_run
    (fun s => s.answers = [⟨1, some 11, some 11, []⟩, ⟨2, some 20, some 20, []⟩, ⟨1,
      some 12, some 12, []⟩] ∧ s.task.copied = true ∧ s.old.records = [])
    [.putStart 1 11, .putStep 0, .putStep 0, .getStart 1, .getStep 0, .task, .task,
      .getStart 2, .getStep 0,
      .getStep 0, .task, .task, .setBinding .complete, .putStart 1 12, .putStep 0, .task,
        .task, .task, .task, .task,
      .getStart 1, .getStep 0] (by decide +kernel) fun s hs ⟨ha, hc, ho⟩ => ⟨ha, hc, ho,
        gets_last_of_reach (fun _ _ => rfl) hs⟩

/-- The copier overwrites a newer record, and a get that missed a record in the new group finds it
    deleted in the old one. -/
theorem get_stale_or_missing :
    (∃ s : MigrationSystem ℕ ℕ, Reach (step fun _ => true) anyStep
      (start (RecordStore.empty.put 1 10) .empty) s ∧
      ⟨1, some 10, some 11, []⟩ ∈ s.answers) ∧
    ∃ s : MigrationSystem ℕ ℕ, Reach (step fun _ => true) anyStep
      (start (RecordStore.empty.put 1 10) .empty) s ∧
      ⟨1, none, some 10, []⟩ ∈ s.answers := by
  constructor
  · exact Reach.exists_of_run
      [.task, .putStart 1 11, .putStep 0, .putStep 0, .task, .getStart 1, .getStep 0]
        (by decide +kernel)
  · exact Reach.exists_of_run
      [.getStart 1, .getStep 0, .task, .task, .task, .task, .task, .task, .getStep 0]
        (by decide +kernel)

end MigrationSystem

end CrowDB
