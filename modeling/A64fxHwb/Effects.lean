/-
The elementary effects of the driver's operations on its data.

Linking and unlinking a task mapping (`map_group`, `unmap_group`), linking and
unlinking an allocation together with its blade bit (`hold_alloc`,
`drop_alloc`), and writing an allocation, alone or together with a window bit
(`store_alloc`, `take_window`, `give_window`). For each of them: the table, the
blade bits, the window bits, who holds what, and the lists.
-/
import A64fxHwb.Bookkeeping

set_option autoImplicit false

namespace A64fxHwb

open BitWord

variable {hw : Machine} {l : Load hw} {d : a64fx_hwb_device}

/-! ## The effects -/

namespace a64fx_hwb_device

/-- A fresh mapping for the group of `task`, at the head of the list. -/
def map_group (d : a64fx_hwb_device) (task : task_struct) : a64fx_hwb_device :=
  { d with
    task_list := { task := task, allocs := [], num_allocs := 0 } :: d.task_list
    num_tasks := d.num_tasks + 1 }

/-- The mapping of group `g` unlinked. -/
def unmap_group (d : a64fx_hwb_device) (g : ℕ) : a64fx_hwb_device :=
  { d with
    task_list := Keyed.erase a64fx_task_mapping.group g d.task_list
    num_tasks := d.num_tasks - 1 }

/-- The allocation `a` at the head of the mapping's list, and its blade taken. -/
def hold_alloc (d : a64fx_hwb_device) (tm : a64fx_task_mapping) (c : Fin MAX_NUM_CMG)
    (a : a64fx_task_allocation) : a64fx_hwb_device :=
  (d.with_taskmap tm fun m =>
    { m with allocs := a :: m.allocs, num_allocs := m.num_allocs + 1 }).with_cmg c fun x =>
      { x with bb_active := setBit x.bb_active a.blade }

/-- The allocation `a` unlinked from the mapping's list, and its blade given
back. -/
def drop_alloc (d : a64fx_hwb_device) (tm : a64fx_task_mapping) (c : Fin MAX_NUM_CMG)
    (a : a64fx_task_allocation) : a64fx_hwb_device :=
  (d.with_cmg c fun x => { x with bb_active := clearBit x.bb_active a.blade }).with_taskmap tm
    fun m =>
      { m with
        allocs := Keyed.erase a64fx_task_allocation.place a.place m.allocs
        num_allocs := m.num_allocs - 1 }

/-- Window `w` of slot `j` taken, and the allocation stored. -/
def take_window (d : a64fx_hwb_device) (tm : a64fx_task_mapping) (c : Fin MAX_NUM_CMG)
    (j : Fin MAX_PE_PER_CMG) (w : ℕ) (a : a64fx_task_allocation) : a64fx_hwb_device :=
  (d.with_cmg c fun x => x.with_pe j fun p =>
    { p with bw_map := setBit p.bw_map w }).store_alloc tm a

/-- Window `w` of slot `j` given back, and the allocation stored. Nothing reads
the `win_blades` of the slot, which only one of the three places that give back
a window writes. -/
def give_window (d : a64fx_hwb_device) (tm : a64fx_task_mapping) (c : Fin MAX_NUM_CMG)
    (j : Fin MAX_PE_PER_CMG) (w : ℕ) (win_blades : Fin MAX_BW_PER_CMG → ℤ)
    (a : a64fx_task_allocation) : a64fx_hwb_device :=
  (d.with_cmg c fun x => x.with_pe j fun p =>
    { p with bw_map := clearBit p.bw_map w, win_blades := win_blades }).store_alloc tm a

end a64fx_hwb_device

/-! ## The bits

`with_taskmap` writes no CMG and `with_cmg` no list, so each lemma is about one
of the two halves. -/

section Bits

variable {c : Fin MAX_NUM_CMG} {tm : a64fx_task_mapping} {a : a64fx_task_allocation}

theorem bb_with_pe (i : Fin MAX_PE_PER_CMG) (f : a64fx_core_mapping → a64fx_core_mapping)
    (c' : Fin MAX_NUM_CMG) (b : ℕ) :
    (d.with_cmg c fun x => x.with_pe i f).bb c' b = d.bb c' b := by
  simp only [a64fx_hwb_device.bb, a64fx_hwb_device.with_cmg]
  by_cases hc : c' = c
  · subst hc
    simp only [Function.update_self, a64fx_cmg_device.with_pe]
  · simp only [Function.update_of_ne hc]

theorem bw_with_pe (i : Fin MAX_PE_PER_CMG) (f : a64fx_core_mapping → a64fx_core_mapping)
    (c' : Fin MAX_NUM_CMG) (j : Fin MAX_PE_PER_CMG) (w : ℕ) :
    (d.with_cmg c fun x => x.with_pe i f).bw c' j w =
      if c' = c ∧ j = i then (f ((d.cmgs c).pe_map i)).bw_map.getLsbD w else d.bw c' j w := by
  simp only [a64fx_hwb_device.bw, a64fx_hwb_device.with_cmg]
  by_cases hc : c' = c
  · subst hc
    simp only [Function.update_self, a64fx_cmg_device.with_pe, true_and]
    by_cases hj : j = i
    · subst hj
      simp only [Function.update_self, if_true]
    · simp only [Function.update_of_ne hj, if_neg hj]
  · rw [if_neg fun h => hc h.1]
    simp only [Function.update_of_ne hc]

theorem bb_take_window (j : Fin MAX_PE_PER_CMG) (w : ℕ) (c' : Fin MAX_NUM_CMG) (b : ℕ) :
    (d.take_window tm c j w a).bb c' b = d.bb c' b :=
  bb_with_pe j _ c' b

theorem bb_give_window (j : Fin MAX_PE_PER_CMG) (w : ℕ) (wb : Fin MAX_BW_PER_CMG → ℤ)
    (c' : Fin MAX_NUM_CMG) (b : ℕ) : (d.give_window tm c j w wb a).bb c' b = d.bb c' b :=
  bb_with_pe j _ c' b

theorem bw_take_window {w : ℕ} (hw64 : w < 64) (j : Fin MAX_PE_PER_CMG) (c' : Fin MAX_NUM_CMG)
    (j' : Fin MAX_PE_PER_CMG) (w' : ℕ) :
    (d.take_window tm c j w a).bw c' j' w' = true ↔
      d.bw c' j' w' = true ∨ (c' = c ∧ j' = j ∧ w' = w) := by
  have h : (d.take_window tm c j w a).bw c' j' w' = _ := bw_with_pe j _ c' j' w'
  rw [h]
  by_cases hcj : c' = c ∧ j' = j
  · obtain ⟨rfl, rfl⟩ := hcj
    simp only [and_self, if_true, getLsbD_setBit, hw64, decide_true, Bool.true_and, Bool.or_eq_true,
      decide_eq_true_eq, true_and, a64fx_hwb_device.bw, @eq_comm ℕ w w']
  · rw [if_neg hcj]
    constructor
    · exact Or.inl
    · rintro (h | ⟨h1, h2, -⟩)
      · exact h
      · exact absurd ⟨h1, h2⟩ hcj

theorem bw_give_window (j : Fin MAX_PE_PER_CMG) (w : ℕ) (wb : Fin MAX_BW_PER_CMG → ℤ)
    (c' : Fin MAX_NUM_CMG) (j' : Fin MAX_PE_PER_CMG) (w' : ℕ) :
    (d.give_window tm c j w wb a).bw c' j' w' = true ↔
      d.bw c' j' w' = true ∧ ¬(c' = c ∧ j' = j ∧ w' = w) := by
  have h : (d.give_window tm c j w wb a).bw c' j' w' = _ := bw_with_pe j _ c' j' w'
  rw [h]
  by_cases hcj : c' = c ∧ j' = j
  · obtain ⟨rfl, rfl⟩ := hcj
    simp only [and_self, if_true, getLsbD_clearBit, Bool.and_eq_true, Bool.not_eq_true',
      decide_eq_false_iff_not, true_and, a64fx_hwb_device.bw, @eq_comm ℕ w w']
  · rw [if_neg hcj]
    exact ⟨fun h => ⟨h, fun h' => hcj ⟨h'.1, h'.2.1⟩⟩, fun h => h.1⟩

theorem bb_hold_alloc (hb : a.blade < 64) (c' : Fin MAX_NUM_CMG) (b : ℕ) :
    (d.hold_alloc tm c a).bb c' b = true ↔ d.bb c' b = true ∨ (c' = c ∧ b = a.blade) := by
  simp only [a64fx_hwb_device.bb, a64fx_hwb_device.hold_alloc, a64fx_hwb_device.with_cmg,
    a64fx_hwb_device.with_taskmap]
  by_cases hc : c' = c
  · subst hc
    simp only [Function.update_self, getLsbD_setBit, hb, decide_true, Bool.true_and,
      Bool.or_eq_true, decide_eq_true_eq, true_and, @eq_comm ℕ a.blade b]
  · simp only [Function.update_of_ne hc, hc, false_and, or_false]

theorem bw_hold_alloc (c' : Fin MAX_NUM_CMG) (j : Fin MAX_PE_PER_CMG) (w : ℕ) :
    (d.hold_alloc tm c a).bw c' j w = d.bw c' j w := by
  simp only [a64fx_hwb_device.bw, a64fx_hwb_device.hold_alloc, a64fx_hwb_device.with_cmg,
    a64fx_hwb_device.with_taskmap]
  by_cases hc : c' = c
  · subst hc
    simp only [Function.update_self]
  · simp only [Function.update_of_ne hc]

theorem bb_drop_alloc (c' : Fin MAX_NUM_CMG) (b : ℕ) :
    (d.drop_alloc tm c a).bb c' b = true ↔ d.bb c' b = true ∧ ¬(c' = c ∧ b = a.blade) := by
  simp only [a64fx_hwb_device.bb, a64fx_hwb_device.drop_alloc, a64fx_hwb_device.with_cmg,
    a64fx_hwb_device.with_taskmap]
  by_cases hc : c' = c
  · subst hc
    simp only [Function.update_self, getLsbD_clearBit, Bool.and_eq_true, Bool.not_eq_true',
      decide_eq_false_iff_not, true_and, @eq_comm ℕ a.blade b]
  · simp only [Function.update_of_ne hc, hc, false_and, not_false_iff, and_true]

theorem bw_drop_alloc (c' : Fin MAX_NUM_CMG) (j : Fin MAX_PE_PER_CMG) (w : ℕ) :
    (d.drop_alloc tm c a).bw c' j w = d.bw c' j w := by
  simp only [a64fx_hwb_device.bw, a64fx_hwb_device.drop_alloc, a64fx_hwb_device.with_cmg,
    a64fx_hwb_device.with_taskmap]
  by_cases hc : c' = c
  · subst hc
    simp only [Function.update_self]
  · simp only [Function.update_of_ne hc]

end Bits

/-! ## The table -/

section Table

variable {c : Fin MAX_NUM_CMG} {tm : a64fx_task_mapping} {a : a64fx_task_allocation}

theorem sameTable_take_window (j : Fin MAX_PE_PER_CMG) (w : ℕ) :
    SameTable d (d.take_window tm c j w a) :=
  have h := SameTable.with_pe d c j (fun p => { p with bw_map := setBit p.bw_map w })
    fun _ => ⟨rfl, rfl, rfl⟩
  ⟨h.num_cmgs, h.num_bb, h.cmg, h.pe⟩

theorem sameTable_give_window (j : Fin MAX_PE_PER_CMG) (w : ℕ) (wb : Fin MAX_BW_PER_CMG → ℤ) :
    SameTable d (d.give_window tm c j w wb a) :=
  have h := SameTable.with_pe d c j
    (fun p => { p with bw_map := clearBit p.bw_map w, win_blades := wb }) fun _ => ⟨rfl, rfl, rfl⟩
  ⟨h.num_cmgs, h.num_bb, h.cmg, h.pe⟩

theorem sameTable_hold_alloc : SameTable d (d.hold_alloc tm c a) :=
  have h := SameTable.with_cmg d c (fun x => { x with bb_active := setBit x.bb_active a.blade })
    (fun _ => ⟨rfl, rfl, rfl⟩) fun _ _ => ⟨rfl, rfl, rfl⟩
  ⟨h.num_cmgs, h.num_bb, h.cmg, h.pe⟩

theorem sameTable_drop_alloc : SameTable d (d.drop_alloc tm c a) :=
  have h := SameTable.with_cmg d c (fun x => { x with bb_active := clearBit x.bb_active a.blade })
    (fun _ => ⟨rfl, rfl, rfl⟩) fun _ _ => ⟨rfl, rfl, rfl⟩
  ⟨h.num_cmgs, h.num_bb, h.cmg, h.pe⟩

end Table

/-! ## The lists -/

section Lists

variable {c : Fin MAX_NUM_CMG} {tm : a64fx_task_mapping} {a a' : a64fx_task_allocation}

theorem held_map_group (task : task_struct) (g : ℕ) (x : a64fx_task_allocation) :
    Held (d.map_group task) g x ↔ Held d g x := by
  constructor
  · rintro ⟨m, hm, hg, hx⟩
    rcases List.mem_cons.mp hm with rfl | hm
    · cases hx
    · exact ⟨m, hm, hg, hx⟩
  · rintro ⟨m, hm, hg, hx⟩
    exact ⟨m, List.mem_cons_of_mem _ hm, hg, hx⟩

theorem Lists.map_group (hl : Lists d) {task : task_struct}
    (hnew : ∀ m ∈ d.task_list, m.group ≠ task.tgid) : Lists (d.map_group task) where
  groups := by
    rw [a64fx_hwb_device.map_group, List.map_cons, List.nodup_cons]
    refine ⟨fun hmem => ?_, hl.groups⟩
    obtain ⟨m, hm, hg⟩ := List.mem_map.mp hmem
    exact hnew m hm hg
  num_tasks := by
    rw [a64fx_hwb_device.map_group]
    simp only [List.length_cons, hl.num_tasks]
    omega
  mapping m hm := by
    rcases List.mem_cons.mp hm with rfl | hm
    · exact ⟨rfl, List.nodup_nil, fun a ha => by cases ha⟩
    · exact hl.mapping m hm

/-- Unlinking a mapping that holds nothing changes nobody's holdings. -/
theorem held_unmap_group (hl : Lists d) {m : a64fx_task_mapping} (hm : m ∈ d.task_list)
    (hempty : m.allocs = []) (g : ℕ) (x : a64fx_task_allocation) :
    Held (d.unmap_group m.group) g x ↔ Held d g x := by
  constructor
  · rintro ⟨m', hm', hg, hx⟩
    exact ⟨m', Keyed.mem_of_mem_erase hm', hg, hx⟩
  · rintro ⟨m', hm', hg, hx⟩
    refine ⟨m', (Keyed.mem_erase hl.groups m').mpr ⟨hm', fun h => ?_⟩, hg, hx⟩
    -- a mapping of that group would be the empty one
    rw [Keyed.eq_of_key hl.groups hm' hm h, hempty] at hx
    cases hx

theorem tasks_unmap_group {t : task_struct} {g : ℕ} (ht : t ∈ (d.unmap_group g).tasks) :
    t ∈ d.tasks := by
  obtain ⟨m, hm, rfl⟩ := mem_tasks.mp ht
  exact mem_tasks.mpr ⟨m, Keyed.mem_of_mem_erase hm, rfl⟩

theorem Lists.unmap_group (hl : Lists d) {m : a64fx_task_mapping} (hm : m ∈ d.task_list) :
    Lists (d.unmap_group m.group) where
  groups := Keyed.nodup_map_key_erase hl.groups
  num_tasks := by
    have hlen := Keyed.length_erase hm (rfl : m.group = m.group)
    rw [a64fx_hwb_device.unmap_group]
    simp only [hl.num_tasks]
    omega
  mapping x hx := hl.mapping x (Keyed.mem_of_mem_erase hx)

theorem held_hold_alloc (hl : Lists d) {m : a64fx_task_mapping} (hm : m ∈ d.task_list)
    (hg : m.group = tm.group) (g : ℕ) (x : a64fx_task_allocation) :
    Held (d.hold_alloc tm c a) g x ↔ Held d g x ∨ (g = tm.group ∧ x = a) := by
  have h : Held (d.hold_alloc tm c a) g x ↔ _ := held_with_taskmap hl hm hg rfl g x
  rw [h]
  simp only [List.mem_cons]
  constructor
  · rintro (⟨-, hx⟩ | ⟨hgg, rfl | hx⟩)
    · exact Or.inl hx
    · exact Or.inr ⟨hgg, rfl⟩
    · exact Or.inl ⟨m, hm, hg.trans hgg.symm, hx⟩
  · rintro (hx | ⟨hgg, hx⟩)
    · by_cases hgg : g = tm.group
      · exact Or.inr ⟨hgg, Or.inr (hx.mem_allocs hl hm (hg.trans hgg.symm))⟩
      · exact Or.inl ⟨hgg, hx⟩
    · exact Or.inr ⟨hgg, Or.inl hx⟩

theorem Lists.hold_alloc (hl : Lists d) {m : a64fx_task_mapping} (hm : m ∈ d.task_list)
    (hg : m.group = tm.group) (hnew : ∀ x ∈ m.allocs, x.place ≠ a.place) (ht : a.task = m.task) :
    Lists (d.hold_alloc tm c a) := by
  have hok := hl.mapping m hm
  have h := hl.with_taskmap (f := fun m =>
    { m with allocs := a :: m.allocs, num_allocs := m.num_allocs + 1 }) hm hg (fun _ => rfl) {
      num_allocs := by
        simp only [hok.num_allocs, List.length_cons]
        omega
      places := by
        rw [List.map_cons, List.nodup_cons]
        refine ⟨fun hmem => ?_, hok.places⟩
        obtain ⟨x, hx, hp⟩ := List.mem_map.mp hmem
        exact hnew x hx hp
      task := fun x hx => by
        rcases List.mem_cons.mp hx with rfl | hx
        · exact ht
        · exact hok.task x hx }
  exact ⟨h.groups, h.num_tasks, h.mapping⟩

theorem held_drop_alloc (hl : Lists d) (ha : Held d tm.group a) (g : ℕ)
    (x : a64fx_task_allocation) :
    Held (d.drop_alloc tm c a) g x ↔ Held d g x ∧ ¬(g = tm.group ∧ x.place = a.place) := by
  obtain ⟨m, hm, hg, ha⟩ := ha
  have h : Held (d.drop_alloc tm c a) g x ↔ _ := held_with_taskmap hl hm hg rfl g x
  rw [h]
  simp only [Keyed.mem_erase (hl.mapping m hm).places]
  constructor
  · rintro (⟨hgg, hx⟩ | ⟨hgg, hx, hp⟩)
    · exact ⟨hx, fun h => hgg h.1⟩
    · exact ⟨⟨m, hm, hg.trans hgg.symm, hx⟩, fun h => hp h.2⟩
  · rintro ⟨hx, hne⟩
    by_cases hgg : g = tm.group
    · exact Or.inr ⟨hgg, hx.mem_allocs hl hm (hg.trans hgg.symm), fun hp => hne ⟨hgg, hp⟩⟩
    · exact Or.inl ⟨hgg, hx⟩

theorem Lists.drop_alloc (hl : Lists d) (ha : Held d tm.group a) :
    Lists (d.drop_alloc tm c a) := by
  obtain ⟨m, hm, hg, ha⟩ := ha
  have hok := hl.mapping m hm
  have h := hl.with_taskmap (f := fun m =>
    { m with
      allocs := Keyed.erase a64fx_task_allocation.place a.place m.allocs
      num_allocs := m.num_allocs - 1 }) hm hg (fun _ => rfl) {
      num_allocs := by
        have hlen := Keyed.length_erase ha (rfl : a.place = a.place)
        simp only [hok.num_allocs]
        omega
      places := Keyed.nodup_map_key_erase hok.places
      task := fun x hx => hok.task x (Keyed.mem_of_mem_erase hx) }
  exact ⟨h.groups, h.num_tasks, h.mapping⟩

theorem held_store_alloc (hl : Lists d) (ha : Held d tm.group a) (hp : a'.place = a.place) (g : ℕ)
    (x : a64fx_task_allocation) :
    Held (d.store_alloc tm a') g x ↔
      (Held d g x ∧ ¬(g = tm.group ∧ x.place = a.place)) ∨ (g = tm.group ∧ x = a') := by
  obtain ⟨m, hm, hg, ha⟩ := ha
  rw [a64fx_hwb_device.store_alloc, held_with_taskmap hl hm hg rfl]
  rw [Keyed.mem_modify (f := fun _ => a') (hl.mapping m hm).places ha hp.symm, hp]
  constructor
  · rintro (⟨hgg, hx⟩ | ⟨hgg, ⟨hx, hpx⟩ | hx⟩)
    · exact Or.inl ⟨hx, fun h => hgg h.1⟩
    · exact Or.inl ⟨⟨m, hm, hg.trans hgg.symm, hx⟩, fun h => hpx h.2⟩
    · exact Or.inr ⟨hgg, hx⟩
  · rintro (⟨hx, hne⟩ | ⟨hgg, hx⟩)
    · by_cases hgg : g = tm.group
      · exact Or.inr ⟨hgg, Or.inl ⟨hx.mem_allocs hl hm (hg.trans hgg.symm),
          fun hpx => hne ⟨hgg, hpx⟩⟩⟩
      · exact Or.inl ⟨hgg, hx⟩
    · exact Or.inr ⟨hgg, Or.inr hx⟩

theorem Lists.store_alloc (hl : Lists d) (ha : Held d tm.group a) (hp : a'.place = a.place)
    (ht : a'.task = a.task) : Lists (d.store_alloc tm a') := by
  obtain ⟨m, hm, hg, ha⟩ := ha
  have hok := hl.mapping m hm
  refine hl.with_taskmap hm hg (fun _ => rfl) ⟨?_, ?_, fun x hx => ?_⟩
  · simp only [Keyed.length_modify]
    exact hok.num_allocs
  · rw [Keyed.map_key_modify fun _ _ => rfl]
    exact hok.places
  · rcases (Keyed.mem_modify (f := fun _ => a') hok.places ha hp.symm x).mp hx with ⟨hx, -⟩ | rfl
    · exact hok.task x hx
    · exact ht.trans (hok.task a ha)

end Lists

end A64fxHwb
