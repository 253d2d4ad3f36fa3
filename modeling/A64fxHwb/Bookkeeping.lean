/-
The driver's bookkeeping, and what one change does to it.

An operation changes the device in a few elementary ways: it links or unlinks a
task mapping, links or unlinks an allocation together with its bit of
`bb_active`, or writes one allocation together with one `bw_map`. Each way is a
function here, with lemmas that say what it does to the four things every
invariant is about: the blade bits (`bb`), the window bits (`bw`), which group
holds which allocation (`Held`), and the well-formedness of the lists
(`Lists`). The core table is out of reach of all of them (`SameTable`).
-/
import A64fxHwb.Boot

set_option autoImplicit false

namespace A64fxHwb

open BitWord

variable {hw : Machine} {l : Load hw} {d d' : a64fx_hwb_device}

/-! ## Reading the device -/

/-- Is blade `b` of CMG `c` marked as taken? -/
def a64fx_hwb_device.bb (d : a64fx_hwb_device) (c : Fin MAX_NUM_CMG) (b : ℕ) : Bool :=
  (d.cmgs c).bb_active.getLsbD b

/-- Is window `w` of the PE in slot `j` of CMG `c` marked as taken? -/
def a64fx_hwb_device.bw (d : a64fx_hwb_device) (c : Fin MAX_NUM_CMG) (j : Fin MAX_PE_PER_CMG)
    (w : ℕ) : Bool :=
  ((d.cmgs c).pe_map j).bw_map.getLsbD w

/-- Group `g` has a mapping whose list contains the allocation `a`. -/
def Held (d : a64fx_hwb_device) (g : ℕ) (a : a64fx_task_allocation) : Prop :=
  ∃ m ∈ d.task_list, m.group = g ∧ a ∈ m.allocs

/-- The threads the mappings point to. -/
def a64fx_hwb_device.tasks (d : a64fx_hwb_device) : List task_struct :=
  d.task_list.map a64fx_task_mapping.task

theorem mem_tasks {t : task_struct} : t ∈ d.tasks ↔ ∃ m ∈ d.task_list, m.task = t := List.mem_map

/-! ## Well-formed lists -/

/-- One mapping counts its allocations, has at most one for each blade, and all
of them point to its own task. -/
structure MappingOk (m : a64fx_task_mapping) : Prop where
  num_allocs : m.num_allocs = m.allocs.length
  places : (m.allocs.map a64fx_task_allocation.place).Nodup
  task : ∀ a ∈ m.allocs, a.task = m.task

/-- The task list has one mapping for each group, and counts them. -/
structure Lists (d : a64fx_hwb_device) : Prop where
  groups : (d.task_list.map a64fx_task_mapping.group).Nodup
  num_tasks : d.num_tasks = d.task_list.length
  mapping : ∀ m ∈ d.task_list, MappingOk m

theorem Lists.congr (hl : Lists d) (h : d'.task_list = d.task_list)
    (hn : d'.num_tasks = d.num_tasks) : Lists d' :=
  ⟨h ▸ hl.groups, by rw [hn, h]; exact hl.num_tasks, h ▸ hl.mapping⟩

/-- A group's allocation for a place is unique. -/
theorem Lists.eq_of_place (hl : Lists d) {g : ℕ} {a a' : a64fx_task_allocation} (ha : Held d g a)
    (ha' : Held d g a') (h : a.place = a'.place) : a = a' := by
  obtain ⟨m, hm, hg, ha⟩ := ha
  obtain ⟨m', hm', hg', ha'⟩ := ha'
  have hmm : m = m' := Keyed.eq_of_key hl.groups hm hm' (hg.trans hg'.symm)
  subst hmm
  exact Keyed.eq_of_key (hl.mapping m hm).places ha ha' h

/-- What a group holds is in the list of any mapping of the group. -/
theorem Held.mem_allocs (hl : Lists d) {g : ℕ} {a : a64fx_task_allocation} (ha : Held d g a)
    {m : a64fx_task_mapping} (hm : m ∈ d.task_list) (hg : m.group = g) : a ∈ m.allocs := by
  obtain ⟨m', hm', hg', ha⟩ := ha
  -- the group has one mapping only
  rw [← Keyed.eq_of_key hl.groups hm' hm (hg'.trans hg.symm)]
  exact ha

/-- A mapping of a group is what the search for the group finds. -/
theorem Lists.get_taskmap (hl : Lists d) {m : a64fx_task_mapping} (hm : m ∈ d.task_list)
    {task : task_struct} (hg : m.group = task.tgid) : get_taskmap d task = some m := by
  have h := Keyed.lookup_of_mem hl.groups hm
  rw [hg] at h
  exact h

theorem mem_of_get_taskmap {task : task_struct} {m : a64fx_task_mapping}
    (h : get_taskmap d task = some m) : m ∈ d.task_list ∧ m.group = task.tgid :=
  ⟨Keyed.lookup_mem h, Keyed.lookup_key h⟩

theorem get_taskmap_eq_none {task : task_struct} :
    get_taskmap d task = none ↔ ∀ m ∈ d.task_list, m.group ≠ task.tgid :=
  Keyed.lookup_eq_none

/-- The allocation `get_allocation` finds is in the list, for the CMG and blade
that were asked for. -/
theorem get_allocation_eq_some (ht : Table l d) {c : Fin MAX_NUM_CMG} {m : a64fx_task_mapping}
    {blade : ℤ} {a : a64fx_task_allocation} (h : get_allocation (d.cmgs c) m blade = some a) :
    a ∈ m.allocs ∧ a.cmg = c.val ∧ (a.blade : ℤ) = blade := by
  have hp := List.find?_some h
  simp only [ht.cmg_id c, decide_eq_true_eq, Int.natCast_inj] at hp
  exact ⟨List.mem_of_find?_eq_some h, hp⟩

theorem get_allocation_eq_none (ht : Table l d) {c : Fin MAX_NUM_CMG} {m : a64fx_task_mapping}
    {blade : ℤ} : get_allocation (d.cmgs c) m blade = none ↔
      ∀ a ∈ m.allocs, a.cmg = c.val → (a.blade : ℤ) ≠ blade := by
  rw [get_allocation, List.find?_eq_none]
  simp only [ht.cmg_id c, decide_eq_true_eq, Int.natCast_inj, not_and]

/-- An allocation of the mapping is found by its own CMG and blade. -/
theorem get_allocation_of_mem (ht : Table l d) (hl : Lists d) {c : Fin MAX_NUM_CMG}
    {m : a64fx_task_mapping} (hm : m ∈ d.task_list) {a : a64fx_task_allocation} (ha : a ∈ m.allocs)
    (hc : a.cmg = c.val) : get_allocation (d.cmgs c) m a.blade = some a := by
  cases hf : get_allocation (d.cmgs c) m a.blade with
  | none => exact absurd rfl ((get_allocation_eq_none ht).mp hf a ha hc)
  | some x =>
      obtain ⟨hx, hxc, hxb⟩ := get_allocation_eq_some ht hf
      have hplace : x.place = a.place := by
        rw [a64fx_task_allocation.place, a64fx_task_allocation.place, hxc, hc]
        congr 1
        omega
      rw [Keyed.eq_of_key (hl.mapping m hm).places hx ha hplace]

/-! ## The part nothing writes -/

/-- The two devices agree on everything a `Table` is about. -/
structure SameTable (d d' : a64fx_hwb_device) : Prop where
  num_cmgs : d'.num_cmgs = d.num_cmgs
  num_bb : d'.num_bb_per_cmg = d.num_bb_per_cmg
  cmg : ∀ c, (d'.cmgs c).cmg_id = (d.cmgs c).cmg_id ∧ (d'.cmgs c).num_pes = (d.cmgs c).num_pes ∧
    (d'.cmgs c).cmgmask = (d.cmgs c).cmgmask
  pe : ∀ c j, ((d'.cmgs c).pe_map j).cpu_id = ((d.cmgs c).pe_map j).cpu_id ∧
    ((d'.cmgs c).pe_map j).cmg_id = ((d.cmgs c).pe_map j).cmg_id ∧
    ((d'.cmgs c).pe_map j).ppe_id = ((d.cmgs c).pe_map j).ppe_id

theorem SameTable.slots {d d' : a64fx_hwb_device} (h : SameTable d d') (i : Fin MAX_NUM_CMG) :
    (d'.cmgs i).slots = (d.cmgs i).slots := by
  rw [a64fx_cmg_device.slots, a64fx_cmg_device.slots, (h.cmg i).2.1]

theorem SameTable.refl (d : a64fx_hwb_device) : SameTable d d :=
  ⟨rfl, rfl, fun _ => ⟨rfl, rfl, rfl⟩, fun _ _ => ⟨rfl, rfl, rfl⟩⟩

theorem SameTable.trans {d'' : a64fx_hwb_device} (h : SameTable d d') (h' : SameTable d' d'') :
    SameTable d d'' where
  num_cmgs := h'.num_cmgs.trans h.num_cmgs
  num_bb := h'.num_bb.trans h.num_bb
  cmg c := by
    rw [(h'.cmg c).1, (h'.cmg c).2.1, (h'.cmg c).2.2]
    exact h.cmg c
  pe c j := by
    rw [(h'.pe c j).1, (h'.pe c j).2.1, (h'.pe c j).2.2]
    exact h.pe c j

theorem SameTable.table (h : SameTable d d') (ht : Table l d) : Table l d' where
  num_cmgs := by rw [h.num_cmgs]; exact ht.num_cmgs
  num_bb := by rw [h.num_bb]; exact ht.num_bb
  cmg_id c := by rw [(h.cmg c).1]; exact ht.cmg_id c
  filled c j hj := by
    rw [(h.cmg c).2.1] at hj
    rw [(h.pe c j).1, (h.pe c j).2.1, (h.pe c j).2.2]
    exact ht.filled c j hj
  slot k hk := by rw [(h.cmg _).2.1]; exact ht.slot k hk
  cmgmask c k := by rw [(h.cmg c).2.2]; exact ht.cmgmask c k

/-- A write to one CMG that keeps its identity keeps the table. -/
theorem SameTable.with_cmg (d : a64fx_hwb_device) (c : Fin MAX_NUM_CMG)
    (f : a64fx_cmg_device → a64fx_cmg_device)
    (hf : ∀ x, (f x).cmg_id = x.cmg_id ∧ (f x).num_pes = x.num_pes ∧ (f x).cmgmask = x.cmgmask)
    (hp : ∀ x j, ((f x).pe_map j).cpu_id = (x.pe_map j).cpu_id ∧
      ((f x).pe_map j).cmg_id = (x.pe_map j).cmg_id ∧
      ((f x).pe_map j).ppe_id = (x.pe_map j).ppe_id) : SameTable d (d.with_cmg c f) := by
  refine ⟨rfl, rfl, fun c' => ?_, fun c' j => ?_⟩
  · rw [a64fx_hwb_device.with_cmg]
    by_cases hc : c' = c
    · subst hc
      simp only [Function.update_self]
      exact hf _
    · simp [Function.update_of_ne hc]
  · rw [a64fx_hwb_device.with_cmg]
    by_cases hc : c' = c
    · subst hc
      simp only [Function.update_self]
      exact hp _ j
    · simp [Function.update_of_ne hc]

/-- A write to one PE that keeps its identity keeps the table. -/
theorem SameTable.with_pe (d : a64fx_hwb_device) (c : Fin MAX_NUM_CMG) (i : Fin MAX_PE_PER_CMG)
    (f : a64fx_core_mapping → a64fx_core_mapping)
    (hf : ∀ p, (f p).cpu_id = p.cpu_id ∧ (f p).cmg_id = p.cmg_id ∧ (f p).ppe_id = p.ppe_id) :
    SameTable d (d.with_cmg c fun x => x.with_pe i f) := by
  refine SameTable.with_cmg d c _ (fun x => ⟨rfl, rfl, rfl⟩) fun x j => ?_
  rw [a64fx_cmg_device.with_pe]
  by_cases hj : j = i
  · subst hj
    simp only [Function.update_self]
    exact hf _
  · simp [Function.update_of_ne hj]

/-! ## Writing one mapping -/

section Mapping

variable {tm m : a64fx_task_mapping} {f : a64fx_task_mapping → a64fx_task_mapping}

/-- Who holds what after a write to the mapping of one group. -/
theorem held_with_taskmap (hl : Lists d) (hm : m ∈ d.task_list) (hg : m.group = tm.group)
    (hf : (f m).task = m.task) (g : ℕ) (a : a64fx_task_allocation) :
    Held (d.with_taskmap tm f) g a ↔
      (g ≠ tm.group ∧ Held d g a) ∨ (g = tm.group ∧ a ∈ (f m).allocs) := by
  have hgf : (f m).group = tm.group := by
    rw [a64fx_task_mapping.group, hf]
    exact hg
  have hmem := Keyed.mem_modify (f := f) hl.groups hm hg
  constructor
  · rintro ⟨x, hx, hxg, ha⟩
    rcases (hmem x).mp hx with ⟨hx, hne⟩ | rfl
    · exact Or.inl ⟨hxg ▸ hne, x, hx, hxg, ha⟩
    · exact Or.inr ⟨hxg.symm.trans hgf, ha⟩
  · rintro (⟨hne, x, hx, hxg, ha⟩ | ⟨rfl, ha⟩)
    · exact ⟨x, (hmem x).mpr (Or.inl ⟨hx, hxg ▸ hne⟩), hxg, ha⟩
    · exact ⟨f m, (hmem _).mpr (Or.inr rfl), hgf, ha⟩

/-- The lists stay well formed when the written mapping does. -/
theorem Lists.with_taskmap (hl : Lists d) (hm : m ∈ d.task_list) (hg : m.group = tm.group)
    (hf : ∀ x, (f x).task = x.task) (hok : MappingOk (f m)) : Lists (d.with_taskmap tm f) where
  groups := by
    rw [a64fx_hwb_device.with_taskmap]
    rw [Keyed.map_key_modify fun x hx => by rw [a64fx_task_mapping.group, hf x]; exact hx]
    exact hl.groups
  num_tasks := by
    rw [a64fx_hwb_device.with_taskmap]
    simp only [Keyed.length_modify]
    exact hl.num_tasks
  mapping x hx := by
    rcases (Keyed.mem_modify (f := f) hl.groups hm hg x).mp hx with ⟨hx, -⟩ | rfl
    · exact hl.mapping x hx
    · exact hok

/-- The mapping of another group is out of reach. -/
theorem lookup_with_taskmap_of_ne (hf : ∀ x, (f x).task = x.task) {g : ℕ} (hg : g ≠ tm.group) :
    Keyed.lookup a64fx_task_mapping.group g (d.with_taskmap tm f).task_list =
      Keyed.lookup a64fx_task_mapping.group g d.task_list :=
  Keyed.lookup_modify_of_ne (fun x hx => by rw [a64fx_task_mapping.group, hf x]; exact hx) hg _

/-- A write to a mapping that keeps its task brings in no thread. -/
theorem tasks_with_taskmap {t : task_struct} (hf : ∀ x, (f x).task = x.task)
    (ht : t ∈ (d.with_taskmap tm f).tasks) : t ∈ d.tasks := by
  have hmap : (d.with_taskmap tm f).tasks = d.tasks := Keyed.map_modify hf d.task_list
  rw [hmap] at ht
  exact ht

end Mapping

end A64fxHwb
