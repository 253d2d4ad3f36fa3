/-
Who owns the blades.

The task mappings are flattened into one list of live allocations, and every bit
of every `bb_active` stands for exactly one entry of it. This is the blade pool
of the base invariant read as a count: soundness gives the bit for an entry,
coverage an entry for the bit, exclusivity that there is only one.
-/
import A64fxHwb.Execution

set_option autoImplicit false

namespace A64fxHwb

open BitWord Runs

variable {hw : Machine} {l : Load hw} {d : a64fx_hwb_device} {R : hwb_regs → Prop} {s : Kernel}

/-! ## The live allocations -/

/-- The allocations of all task mappings. -/
def a64fx_hwb_device.allocs (d : a64fx_hwb_device) : List a64fx_task_allocation :=
  d.task_list.flatMap a64fx_task_mapping.allocs

/-- Those for blade `b` of CMG `c`. -/
def a64fx_hwb_device.allocs_of (d : a64fx_hwb_device) (c : Fin MAX_NUM_CMG) (b : ℕ) :
    List a64fx_task_allocation :=
  d.allocs.filter fun a => decide (a.cmg = c.val ∧ a.blade = b)

theorem mem_allocs {a : a64fx_task_allocation} : a ∈ d.allocs ↔ ∃ g, Held d g a := by
  rw [a64fx_hwb_device.allocs, List.mem_flatMap]
  constructor
  · rintro ⟨m, hm, ha⟩
    exact ⟨m.group, m, hm, rfl, ha⟩
  · rintro ⟨g, m, hm, -, ha⟩
    exact ⟨m, hm, ha⟩

/-- The CMGs and blades that are allocated. -/
def a64fx_hwb_device.places (d : a64fx_hwb_device) : List (ℕ × ℕ) :=
  d.allocs.map a64fx_task_allocation.place

theorem mem_places {p : ℕ × ℕ} : p ∈ d.places ↔ ∃ g a, Held d g a ∧ a.place = p := by
  rw [a64fx_hwb_device.places, List.mem_map]
  constructor
  · rintro ⟨a, ha, rfl⟩
    obtain ⟨g, ha⟩ := mem_allocs.mp ha
    exact ⟨g, a, ha, rfl⟩
  · rintro ⟨g, a, ha, rfl⟩
    exact ⟨a, mem_allocs.mpr ⟨g, ha⟩, rfl⟩

theorem mem_allocs_of {c : Fin MAX_NUM_CMG} {b : ℕ} {a : a64fx_task_allocation} :
    a ∈ d.allocs_of c b ↔ (∃ g, Held d g a) ∧ a.cmg = c.val ∧ a.blade = b := by
  rw [a64fx_hwb_device.allocs_of, List.mem_filter, mem_allocs, decide_eq_true_eq]

/-- **No place is held twice**, by one group or by two. -/
theorem Inv.nodup_places (hi : Inv l d) : d.places.Nodup := by
  have hgroups : d.task_list.Pairwise fun m m' => m.group ≠ m'.group :=
    List.pairwise_map.mp hi.lists.groups
  rw [a64fx_hwb_device.places, a64fx_hwb_device.allocs, List.map_flatMap, List.nodup_flatMap]
  refine ⟨fun m hm => (hi.lists.mapping m hm).places, hgroups.imp_of_mem ?_⟩
  intro m m' hm hm' hne p hp hp'
  -- two mappings with a common place would be of one group
  obtain ⟨a, ha, hap⟩ := List.mem_map.mp hp
  obtain ⟨a', ha', hap'⟩ := List.mem_map.mp hp'
  apply hne
  exact (hi.unique ⟨m, hm, rfl, ha⟩ ⟨m', hm', rfl, ha'⟩ (hap.trans hap'.symm)).1

theorem Inv.nodup_allocs (hi : Inv l d) : d.allocs.Nodup := hi.nodup_places.of_map _

/-- An allocation that is held is the only one for its place. -/
theorem Inv.allocs_of_held (hi : Inv l d) {g : ℕ} {a : a64fx_task_allocation} (ha : Held d g a)
    {c : Fin MAX_NUM_CMG} (hc : a.cmg = c.val) : d.allocs_of c a.blade = [a] := by
  have hnodup : (d.allocs_of c a.blade).Nodup := hi.nodup_allocs.filter _
  apply List.perm_singleton.mp
  rw [List.perm_ext_iff_of_nodup hnodup (List.nodup_singleton a)]
  intro x
  rw [List.mem_singleton]
  constructor
  · intro hx
    obtain ⟨⟨g', hx⟩, hxc, hxb⟩ := mem_allocs_of.mp hx
    have hplace : x.place = a.place := Prod.ext (hxc.trans hc.symm) hxb
    exact (hi.unique hx ha hplace).2
  · rintro rfl
    exact mem_allocs_of.mpr ⟨⟨g, ha⟩, hc, rfl⟩

/-- A bit that is clear has no allocation. -/
theorem Inv.allocs_of_free (hi : Inv l d) {c : Fin MAX_NUM_CMG} {b : ℕ} (h : d.bb c b = false) :
    d.allocs_of c b = [] := by
  apply List.eq_nil_iff_forall_not_mem.mpr
  intro a hmem
  obtain ⟨⟨g, ha⟩, hc, hb⟩ := mem_allocs_of.mp hmem
  have hbit := hi.bb_of_held ha hc
  rw [hb, h] at hbit
  exact Bool.noConfusion hbit

/-- A bit that is set has one. -/
theorem Inv.length_allocs_of (hi : Inv l d) {c : Fin MAX_NUM_CMG} {b : ℕ} (h : d.bb c b = true) :
    (d.allocs_of c b).length = 1 := by
  obtain ⟨g, a, ha, hplace⟩ := hi.blades_covered (c.val, b) ⟨c, rfl, h⟩
  have hc : a.cmg = c.val := congrArg Prod.fst hplace
  have hb : a.blade = b := congrArg Prod.snd hplace
  rw [← hb, hi.allocs_of_held ha hc]
  rfl

/-! ## Ownership -/

/-- The bitmaps, the two levels of lists and the two counters agree. -/
structure BladeOwnership (d : a64fx_hwb_device) : Prop where
  owner : ∀ c b, d.bb c b = true ↔ (d.allocs_of c b).length = 1
  free : ∀ c b, d.bb c b = false → d.allocs_of c b = []
  range : ∀ c b, MAX_BB_PER_CMG ≤ b → d.bb c b = false
  num_allocs : ∀ m ∈ d.task_list, m.num_allocs = m.allocs.length
  num_tasks : d.num_tasks = d.task_list.length
  groups : d.task_list.Pairwise fun m m' => m.task.tgid ≠ m'.task.tgid

theorem Inv.bladeOwnership (hi : Inv l d) : BladeOwnership d where
  owner c b := by
    constructor
    · exact hi.length_allocs_of
    · intro hlen
      by_contra hbit
      rw [hi.allocs_of_free (Bool.eq_false_iff.mpr hbit)] at hlen
      cases hlen
  free c b := hi.allocs_of_free
  range c b hb := by
    apply Bool.eq_false_iff.mpr
    intro hbit
    exact absurd (hi.blade_range c b hbit) (not_lt.mpr hb)
  num_allocs m hm := (hi.lists.mapping m hm).num_allocs
  num_tasks := hi.lists.num_tasks
  groups := List.pairwise_map.mp hi.lists.groups

/-- **Blade ownership.** After every run, a blade is marked as taken exactly when
one allocation holds it, and the counters count. -/
theorem blade_ownership (h : (driver l R).Reachable s) : BladeOwnership s.dev :=
  (reachable_inv h).1.bladeOwnership

/-- Two processes get a blade each, both with CPU 1. -/
def two_groups : List (Event Quad.machine) :=
  [Quad.open Quad.first 0, Quad.alloc Quad.first 0 0x3, Quad.open Quad.other 1,
    Quad.alloc Quad.other 1 0x6]

/-- They hold blades 0 and 1. -/
theorem blade_ownership_two_groups : BladeOwnership (after Quad.load two_groups).dev ∧
    (after Quad.load two_groups).dev.places = [(0, 1), (0, 0)] := by
  refine ⟨blade_ownership (R := fun _ => True) (reachable_after trivial ?_ ?_), ?_⟩
  · decide +kernel
  · decide
  · decide +kernel

end A64fxHwb
